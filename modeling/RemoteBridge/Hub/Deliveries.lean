import Mathlib.Tactic.SplitIfs
import RemoteBridge.Hub.Server
import RemoteBridge.Machine

/-!
# Hub.Deliveries

What the connections of the server take of a step: the writes made to each of
them, in order, until one fails.
-/

namespace RemoteBridge

open Unicode Machine

variable {S : Type}

/-! ## Writes -/

namespace Connection

variable {c : Connection S} {message : SignalMessage S} {ok : Bool}

@[simp] theorem role_write : (c.write message ok).role = c.role := by
  unfold write
  split_ifs <;> rfl

@[simp] theorem handler_write : (c.write message ok).handler = c.handler := by
  unfold write
  split_ifs <;> rfl

@[simp] theorem registered_write : (c.write message ok).registered = c.registered := by
  unfold write
  split_ifs <;> rfl

/-- Nothing was delivered on the connection, as it is not registered yet or is
broken, or the config message was, first: the one minted when it was registered. -/
def Greeted (config : Nat → List IceServerConfig) (c : Connection S) : Prop :=
  (c.delivered = [] ∧ (c.handler = .opening ∨ c.broken)) ∨
    c.handler ≠ .opening ∧ ∃ now rest, c.registered = some now ∧
      c.delivered = .config (config now) :: rest

variable {config : Nat → List IceServerConfig}

theorem Greeted.write (h : c.Greeted config) (hserving : c.handler ≠ .opening) :
    (c.write message ok).Greeted config := by
  rw [Greeted, registered_write, handler_write]
  unfold Connection.write
  rcases h with ⟨hnone, hopening | hbroken⟩ | ⟨-, now, rest, hnow, hdelivered⟩
  · exact absurd hopening hserving
  · rw [if_pos hbroken]
    exact .inl ⟨hnone, .inr hbroken⟩
  · refine .inr ⟨hserving, now, ?_⟩
    split_ifs
    · exact ⟨rest, hnow, hdelivered⟩
    · exact ⟨rest ++ [message], hnow, by simp [hdelivered]⟩
    · exact ⟨rest, hnow, hdelivered⟩

/-- A connection is greeted when it is registered. -/
theorem Greeted.register (h : c.Greeted config) (hopening : c.handler = .opening) (now : Nat) :
    ({ c with handler := .serving, registered := some now }.write (.config (config now)) ok).Greeted
      config := by
  rw [Greeted, registered_write, handler_write]
  unfold Connection.write
  rcases h with ⟨hnone, -⟩ | ⟨hserving, -⟩
  · split_ifs with hbroken
    · exact .inl ⟨hnone, .inr hbroken⟩
    · exact .inr ⟨by simp, now, [], rfl, by simp [hnone]⟩
    · exact .inl ⟨hnone, .inr rfl⟩
  · exact absurd hopening hserving

/-- The writes of an operation to this connection, in order. -/
def take (c : Connection S) (writes : List (Write S)) (ok : Write S → Bool) : Connection S :=
  writes.foldl (fun c w => c.write w.2 (ok w)) c

/-- Writes change neither role nor handler. -/
theorem handled_take (c : Connection S) (writes : List (Write S)) (ok : Write S → Bool) :
    (c.take writes ok).role = c.role ∧ (c.take writes ok).handler = c.handler := by
  induction writes generalizing c with
  | nil => exact ⟨rfl, rfl⟩
  | cons w writes ih =>
      obtain ⟨hrole, hhandler⟩ := ih (c.write w.2 (ok w))
      exact ⟨hrole.trans role_write, hhandler.trans handler_write⟩

theorem Greeted.take (h : c.Greeted config) (hserving : c.handler ≠ .opening)
    (writes : List (Write S)) (ok : Write S → Bool) : (c.take writes ok).Greeted config := by
  induction writes generalizing c with
  | nil => exact h
  | cons w writes ih => exact ih (h.write hserving) (by rwa [handler_write])

/-! ## What a connection takes -/

/-- A connection after a step that wrote it these messages. -/
structure Takes (c : Connection S) (messages : List (SignalMessage S)) (c' : Connection S) :
    Prop where
  role : c'.role = c.role
  registered : c.handler ≠ .opening → c'.handler ≠ .opening ∧ c'.registered = c.registered
  broken : c'.broken = false → c.broken = false ∧ c'.delivered = c.delivered ++ messages
  delivered : c.delivered <+: c'.delivered

variable {messages messages' : List (SignalMessage S)} {c' c'' : Connection S}

theorem Takes.refl (c : Connection S) : c.Takes [] c :=
  ⟨rfl, fun h => ⟨h, rfl⟩, fun h => ⟨h, (List.append_nil _).symm⟩, List.prefix_rfl⟩

theorem Takes.trans (h : c.Takes messages c') (h' : c'.Takes messages' c'') :
    c.Takes (messages ++ messages') c'' where
  role := h'.role.trans h.role
  registered hserving := by
    obtain ⟨hserving', hregistered⟩ := h.registered hserving
    obtain ⟨hserving'', hregistered'⟩ := h'.registered hserving'
    exact ⟨hserving'', hregistered'.trans hregistered⟩
  broken hbroken := by
    obtain ⟨hbroken', hdelivered'⟩ := h'.broken hbroken
    obtain ⟨hbroken'', hdelivered⟩ := h.broken hbroken'
    exact ⟨hbroken'', by rw [hdelivered', hdelivered, List.append_assoc]⟩
  delivered := h.delivered.trans h'.delivered

theorem takes_write (c : Connection S) (message : SignalMessage S) (ok : Bool) :
    c.Takes [message] (c.write message ok) := by
  refine ⟨role_write, fun h => ⟨by rwa [handler_write], registered_write⟩, fun h => ?_, ?_⟩
  · unfold write at h ⊢
    split_ifs at h ⊢ with hbroken hok
    · rw [hbroken] at h
      contradiction
    · exact ⟨h, rfl⟩
  · unfold write
    split_ifs
    · exact List.prefix_rfl
    · exact List.prefix_append _ _
    · exact List.prefix_rfl

theorem takes_take (c : Connection S) (writes : List (Write S)) (ok : Write S → Bool) :
    c.Takes (writes.map (·.2)) (c.take writes ok) := by
  induction writes generalizing c with
  | nil => exact .refl c
  | cons w writes ih => exact (takes_write c w.2 (ok w)).trans (ih _)

/-- Being registered is no delivery. -/
theorem takes_register (hopening : c.handler = .opening) (now : Nat) :
    c.Takes [] { c with handler := .serving, registered := some now } :=
  ⟨rfl, fun h => absurd hopening h, fun h => ⟨h, (List.append_nil _).symm⟩, List.prefix_rfl⟩

theorem takes_unregister (c : Connection S) : c.Takes [] { c with handler := .done } :=
  ⟨rfl, fun _ => ⟨by simp, rfl⟩, fun h => ⟨h, (List.append_nil _).symm⟩, List.prefix_rfl⟩

end Connection

namespace Server

variable {s s' : Server S} {c c' : Connection S} {role : Role} {conn i : Conn}

/-- A connection takes the writes made to it, in order. -/
theorem getElem?_deliver (conns : List (Connection S)) (writes : List (Write S))
    (ok : Write S → Bool) (i : Conn) :
    (deliver conns writes ok)[i]? = conns[i]?.map (·.take (writes.filter (·.1 = i)) ok) := by
  induction writes generalizing conns with
  | nil => simp [deliver, Connection.take]
  | cons w writes ih =>
      rw [deliver, List.foldl_cons, ← deliver, ih, List.getElem?_modify]
      by_cases hw : w.1 = i
      · cases conns[i]? <;> simp [hw, Connection.take]
      · cases conns[i]? <;> simp [hw]

theorem handled_eq_some {handler : Handler} (h : s.handled conn role handler = some c) :
    s.conns[conn]? = some c ∧ c.role = role ∧ c.handler = handler := by
  simpa [handled, Option.filter_eq_some_iff] using h

/-- A request is refused, or a connection is accepted. -/
theorem handleWS_eq (s : Server S) (role token : Text) (upgraded : Bool) :
    (∃ reply, reply ≠ .switchingProtocols ∧ s.handleWS role token upgraded = (reply, s)) ∨
      ∃ accepted, Role.parse role = some accepted ∧ s.handleWS role token upgraded =
        (.switchingProtocols,
          { s with conns := s.conns ++ [⟨accepted, .opening, false, [], none⟩] }) := by
  unfold handleWS
  split
  · exact .inl ⟨_, by simp, rfl⟩
  · next accepted hparse =>
    split
    · exact .inl ⟨_, by simp, rfl⟩
    · split
      · exact .inl ⟨_, by simp, rfl⟩
      · exact .inr ⟨accepted, hparse, rfl⟩

variable [TurnMac] {e : Event S}

/-- What a step writes to a connection, in order. -/
def writesTo (s : Server S) (e : Event S) (i : Conn) : List (SignalMessage S) :=
  ((s.writes e).filter (·.1 = i)).map (·.2)

/-- **One step** leaves every connection there was, with what it took of the
step. -/
theorem exists_takes (hstep : (machine S).step s e = some s') (hc : s.conns[i]? = some c) :
    ∃ c', s'.conns[i]? = some c' ∧ c.Takes (s.writesTo e i) c' := by
  cases e with
  | request roleParam token upgraded =>
      obtain rfl := Option.some.inj hstep
      rcases handleWS_eq s roleParam token upgraded with ⟨reply, -, heq⟩ | ⟨accepted, -, heq⟩
      · rw [heq]
        exact ⟨c, hc, .refl c⟩
      · rw [heq]
        have hlt := (List.getElem?_eq_some_iff.mp hc).1
        exact ⟨c, by rwa [List.getElem?_append_left hlt], .refl c⟩
  | register role conn now ok =>
      obtain ⟨d, hat, rfl⟩ := Option.map_eq_some_iff.mp hstep
      obtain ⟨hd, -, hopening⟩ := handled_eq_some hat
      rw [getElem?_deliver]
      by_cases hi : conn = i
      · subst hi
        obtain rfl := Option.some.inj (hd.symm.trans hc)
        rw [List.getElem?_set_self (List.getElem?_eq_some_iff.mp hd).1]
        exact ⟨_, rfl, (Connection.takes_register hopening now).trans (Connection.takes_take _ _ _)⟩
      · rw [List.getElem?_set_ne hi, hc]
        exact ⟨_, rfl, Connection.takes_take _ _ _⟩
  | relay role conn message ok =>
      obtain ⟨d, -, rfl⟩ := Option.map_eq_some_iff.mp hstep
      rw [getElem?_deliver, hc]
      exact ⟨_, rfl, Connection.takes_take _ _ _⟩
  | unregister role conn =>
      obtain ⟨d, hat, rfl⟩ := Option.map_eq_some_iff.mp hstep
      obtain ⟨hd, -, -⟩ := handled_eq_some hat
      by_cases hi : conn = i
      · subst hi
        obtain rfl := Option.some.inj (hd.symm.trans hc)
        exact ⟨_, List.getElem?_set_self (List.getElem?_eq_some_iff.mp hd).1,
          Connection.takes_unregister d⟩
      · exact ⟨c, by rwa [List.getElem?_set_ne hi], .refl c⟩

/-- A connection found after a step was there before it, or its request was
accepted by it. -/
theorem exists_conn (hstep : (machine S).step s e = some s') (hc' : s'.conns[i]? = some c') :
    (∃ c, s.conns[i]? = some c) ∨ ∃ roleParam token upgraded,
      e = .request roleParam token upgraded ∧ Role.parse roleParam = some c'.role ∧
        i = s.conns.length := by
  have hlt := (List.getElem?_eq_some_iff.mp hc').1
  by_cases hold : i < s.conns.length
  · exact .inl ⟨_, List.getElem?_eq_getElem hold⟩
  · refine .inr ?_
    cases e with
    | request roleParam token upgraded =>
        obtain rfl := Option.some.inj hstep
        rcases handleWS_eq s roleParam token upgraded with ⟨reply, -, heq⟩ | ⟨accepted, hparse, heq⟩
        · rw [heq] at hlt
          exact absurd hlt hold
        · rw [heq] at hc' hlt
          have hle : i < s.conns.length + 1 := by simpa using hlt
          have hi : i = s.conns.length := Nat.eq_of_lt_succ_of_not_lt hle hold
          subst hi
          obtain rfl : _ = c' := by simpa using hc'
          exact ⟨roleParam, token, upgraded, rfl, hparse, rfl⟩
    | register role conn now ok =>
        obtain ⟨d, -, rfl⟩ := Option.map_eq_some_iff.mp hstep
        rw [getElem?_deliver, Option.map_eq_some_iff] at hc'
        obtain ⟨c, hc, -⟩ := hc'
        exact absurd (by simpa using (List.getElem?_eq_some_iff.mp hc).1) hold
    | relay role conn message ok =>
        obtain ⟨d, -, rfl⟩ := Option.map_eq_some_iff.mp hstep
        rw [getElem?_deliver, Option.map_eq_some_iff] at hc'
        obtain ⟨c, hc, -⟩ := hc'
        exact absurd (List.getElem?_eq_some_iff.mp hc).1 hold
    | unregister role conn =>
        obtain ⟨d, -, rfl⟩ := Option.map_eq_some_iff.mp hstep
        exact absurd (by simpa using hlt) hold

end Server

end RemoteBridge
