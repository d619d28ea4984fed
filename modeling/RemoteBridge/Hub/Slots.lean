import RemoteBridge.Hub.Deliveries

/-!
# Hub.Slots

Who is in the slots of the hub, and what connections are told, under every order
of connects.  A connection that is replaced goes on until its handler ends, so
old and new connections of a role overlap.
-/

namespace RemoteBridge

open Unicode Machine

variable {S : Type}

/-! ## Slots -/

namespace Hub

/-- The connection in a role's slot. -/
def slot (h : Hub) : Role → Option Conn
  | .host => h.host
  | .viewer => h.viewer

variable {h : Hub} {role role' : Role} {conn : Conn}

theorem slot_fill :
    (h.fill role conn).slot role' = if role = role' then some conn else h.slot role' := by
  cases role <;> cases role' <;> rfl

theorem slot_unregister : (h.unregister role conn).slot role' =
    if role = role' ∧ h.slot role = some conn then none else h.slot role' := by
  cases role <;> cases role' <;> simp only [unregister, slot] <;> split <;> simp_all

end Hub

/-! ## The invariant -/

namespace Server

variable {s s' : Server S} {conns : List (Connection S)} {c c' : Connection S} {role role' : Role}
  {conn i : Conn}

/-- Connections in slots are of the slot's role and at their read loop; all
connections hear the config message first. -/
structure Sound [TurnMac] (s : Server S) : Prop where
  placed : ∀ role i, s.hub.slot role = some i →
    ∃ c, s.conns[i]? = some c ∧ c.role = role ∧ c.handler = .serving
  greeted : ∀ (i : Conn) c, s.conns[i]? = some c →
    c.Greeted (configMessage s.turnHost s.turnSecret)

theorem sound_init [TurnMac] (token turnHost turnSecret : Text) :
    Sound (init token turnHost turnSecret : Server S) where
  placed role i h := by cases role <;> contradiction
  greeted i c h := by simp [init] at h

/-- Writes go to the connection being registered and to those in slots. -/
theorem mem_writes [TurnMac] {e : Event S} {w : Write S} (h : w ∈ s.writes e) :
    (∃ role now ok, e = .register role w.1 now ok) ∨ ∃ role, s.hub.slot role = some w.1 := by
  cases e with
  | request => contradiction
  | unregister => contradiction
  | relay role conn message ok =>
      cases role with
      | host =>
          simp only [writes, Hub.relay] at h
          split at h
          · next peer hpeer =>
            rw [List.mem_singleton.mp h]
            exact .inr ⟨.viewer, hpeer⟩
          · contradiction
      | viewer =>
          simp only [writes, Hub.relay] at h
          split at h
          · next peer hpeer =>
            rw [List.mem_singleton.mp h]
            exact .inr ⟨.host, hpeer⟩
          · contradiction
  | register role conn now ok =>
      rcases List.mem_cons.mp h with rfl | h
      · exact .inl ⟨role, now, ok, rfl⟩
      · split at h
        · next host viewer hhost hviewer =>
          rw [List.mem_singleton.mp h]
          cases role with
          | host =>
              obtain rfl := Option.some.inj hhost
              exact .inl ⟨.host, now, ok, rfl⟩
          | viewer => exact .inr ⟨.host, hhost⟩
        · contradiction

/-- A connection whose handler is done or serving is found again after writes. -/
theorem exists_deliver {handler : Handler} {writes : List (Write S)} {ok : Write S → Bool}
    (h : ∃ c, conns[i]? = some c ∧ c.role = role ∧ c.handler = handler) :
    ∃ c, (deliver conns writes ok)[i]? = some c ∧ c.role = role ∧ c.handler = handler := by
  obtain ⟨c, hc, hrole, hhandler⟩ := h
  obtain ⟨hrole', hhandler'⟩ := c.handled_take (writes.filter (·.1 = i)) ok
  refine ⟨_, by rw [getElem?_deliver, hc]; rfl, hrole'.trans hrole, hhandler'.trans hhandler⟩

variable [TurnMac] {e : Event S}

/-- **One step** keeps the slots in order. -/
theorem Sound.placed_step (hinv : s.Sound) (hstep : (machine S).step s e = some s')
    (hslot : s'.hub.slot role = some i) :
    ∃ c, s'.conns[i]? = some c ∧ c.role = role ∧ c.handler = .serving := by
  cases e with
  | request roleParam token upgraded =>
      obtain rfl := Option.some.inj hstep
      rcases handleWS_eq s roleParam token upgraded with ⟨reply, -, heq⟩ | ⟨role', -, heq⟩
      · rw [heq] at hslot ⊢
        exact hinv.placed role i hslot
      · rw [heq] at hslot ⊢
        obtain ⟨c, hc, hplaced⟩ := hinv.placed role i hslot
        have hlt := (List.getElem?_eq_some_iff.mp hc).1
        exact ⟨c, by rwa [List.getElem?_append_left hlt], hplaced⟩
  | register role' conn now ok =>
      obtain ⟨c, hat, rfl⟩ := Option.map_eq_some_iff.mp hstep
      obtain ⟨hc, hrole, hopening⟩ := handled_eq_some hat
      refine exists_deliver ?_
      rw [Hub.slot_fill] at hslot
      split at hslot
      · next heq =>
        obtain rfl := Option.some.inj hslot
        exact ⟨_, List.getElem?_set_self (List.getElem?_eq_some_iff.mp hc).1, hrole.trans heq, rfl⟩
      · obtain ⟨c', hc', hrole', hserving⟩ := hinv.placed role i hslot
        have hne : conn ≠ i := by
          rintro rfl
          rw [hc] at hc'
          cases hc'
          rw [hopening] at hserving
          contradiction
        exact ⟨c', by rwa [List.getElem?_set_ne hne], hrole', hserving⟩
  | relay role' conn message ok =>
      obtain ⟨c, hat, rfl⟩ := Option.map_eq_some_iff.mp hstep
      exact exists_deliver (hinv.placed role i hslot)
  | unregister role' conn =>
      obtain ⟨c, hat, rfl⟩ := Option.map_eq_some_iff.mp hstep
      obtain ⟨hc, hrole, hserving⟩ := handled_eq_some hat
      rw [Hub.slot_unregister] at hslot
      split at hslot
      · contradiction
      · next hkeeps =>
        obtain ⟨c', hc', hrole', hserving'⟩ := hinv.placed role i hslot
        have hne : conn ≠ i := by
          rintro rfl
          rw [hc] at hc'
          cases hc'
          obtain rfl := hrole.symm.trans hrole'
          exact hkeeps ⟨rfl, hslot⟩
        exact ⟨c', by rwa [List.getElem?_set_ne hne], hrole', hserving'⟩

/-- Writes of a step to a connection that is not registered are none. -/
theorem writes_opening (hinv : s.Sound) (hc : s.conns[i]? = some c) (hopening : c.handler = .opening)
    (hne : ∀ role now ok, e ≠ .register role i now ok) : (s.writes e).filter (·.1 = i) = [] := by
  refine List.filter_eq_nil_iff.mpr fun w hw heq => ?_
  obtain rfl : w.1 = i := of_decide_eq_true heq
  rcases mem_writes hw with ⟨role, now, ok, rfl⟩ | ⟨role, hslot⟩
  · exact hne role now ok rfl
  · obtain ⟨c', hc', -, hserving⟩ := hinv.placed role w.1 hslot
    rw [hc] at hc'
    cases hc'
    rw [hopening] at hserving
    contradiction

/-- A step's writes leave a connection greeted that is not being registered. -/
theorem Sound.greeted_writes (hinv : s.Sound) (hc : s.conns[i]? = some c)
    (hne : ∀ role now ok, e ≠ .register role i now ok) (ok : Write S → Bool) :
    (c.take ((s.writes e).filter (·.1 = i)) ok).Greeted
      (configMessage s.turnHost s.turnSecret) := by
  by_cases hopening : c.handler = .opening
  · rw [writes_opening hinv hc hopening hne]
    exact hinv.greeted i c hc
  · exact (hinv.greeted i c hc).take hopening _ _

/-- **One step** leaves every connection greeted. -/
theorem Sound.greeted_step (hinv : s.Sound) (hstep : (machine S).step s e = some s')
    (hd : s'.conns[i]? = some c') : c'.Greeted (configMessage s'.turnHost s'.turnSecret) := by
  cases e with
  | request roleParam token upgraded =>
      obtain rfl := Option.some.inj hstep
      rcases handleWS_eq s roleParam token upgraded with ⟨reply, -, heq⟩ | ⟨role', -, heq⟩
      · rw [heq] at hd ⊢
        exact hinv.greeted i c' hd
      · rw [heq] at hd ⊢
        rw [List.getElem?_append, List.getElem?_singleton] at hd
        split_ifs at hd
        · exact hinv.greeted i c' hd
        · obtain rfl := Option.some.inj hd
          exact .inl ⟨rfl, .inl rfl⟩
  | register role conn now ok =>
      obtain ⟨c, hat, rfl⟩ := Option.map_eq_some_iff.mp hstep
      obtain ⟨hc, hrole, hopening⟩ := handled_eq_some hat
      rw [getElem?_deliver, Option.map_eq_some_iff] at hd
      obtain ⟨d, hd, rfl⟩ := hd
      by_cases hi : conn = i
      · subst hi
        rw [List.getElem?_set_self (List.getElem?_eq_some_iff.mp hc).1] at hd
        obtain rfl := Option.some.inj hd
        rw [writes, Hub.register, List.filter_cons_of_pos (by simp)]
        refine ((hinv.greeted conn c hc).register hopening now).take ?_ _ _
        rw [Connection.handler_write]
        simp
      · rw [List.getElem?_set_ne hi] at hd
        refine hinv.greeted_writes hd ?_ ok
        rintro role now ok ⟨⟩
        exact hi rfl
  | relay role conn message ok =>
      obtain ⟨c, hat, rfl⟩ := Option.map_eq_some_iff.mp hstep
      rw [getElem?_deliver, Option.map_eq_some_iff] at hd
      obtain ⟨d, hd, rfl⟩ := hd
      exact hinv.greeted_writes hd (by simp) ok
  | unregister role conn =>
      obtain ⟨c, hat, rfl⟩ := Option.map_eq_some_iff.mp hstep
      obtain ⟨hc, hrole, hserving⟩ := handled_eq_some hat
      by_cases hi : conn = i
      · subst hi
        rw [List.getElem?_set_self (List.getElem?_eq_some_iff.mp hc).1] at hd
        obtain rfl := Option.some.inj hd
        rcases hinv.greeted conn c hc with ⟨hnone, hopening | hbroken⟩ | ⟨-, hconfig⟩
        · rw [hserving] at hopening
          contradiction
        · exact .inl ⟨hnone, .inr hbroken⟩
        · exact .inr ⟨by simp, hconfig⟩
      · rw [List.getElem?_set_ne hi] at hd
        exact hinv.greeted i c' hd

theorem Sound.step (hinv : s.Sound) (hstep : (machine S).step s e = some s') : s'.Sound :=
  ⟨fun _ _ hslot => hinv.placed_step hstep hslot, fun _ _ hd => hinv.greeted_step hstep hd⟩

theorem sound_of_run {token turnHost turnSecret : Text} {es : List (Event S)}
    (hrun : (machine S).Run (init token turnHost turnSecret) es s) : s.Sound :=
  hrun.invariant (sound_init token turnHost turnSecret) fun _ _ _ hinv hstep => hinv.step hstep

/-! ## Every run -/

/-- The connection is registered for this role. -/
def Registers (role : Role) (conn : Conn) (_ : Server S) (e : Event S) : Prop :=
  ∃ now ok, e = .register role conn now ok

/-- No connection is registered for this role and this one is not unregistered. -/
def Leaves (role : Role) (conn : Conn) (e : Event S) : Prop :=
  (∀ conn now ok, e ≠ .register role conn now ok) ∧ ∀ role, e ≠ .unregister role conn

/-- What a step makes of a role's slot. -/
def slotAfter (s : Server S) (role : Role) : Event S → Option Conn
  | .register role' conn _ _ => if role' = role then some conn else s.hub.slot role
  | .unregister role' conn =>
      if role' = role ∧ s.hub.slot role' = some conn then none else s.hub.slot role
  | .request _ _ _ | .relay _ _ _ _ => s.hub.slot role

theorem slot_step (hstep : (machine S).step s e = some s') :
    s'.hub.slot role = s.slotAfter role e := by
  cases e with
  | request roleParam token upgraded =>
      obtain rfl := Option.some.inj hstep
      rcases handleWS_eq s roleParam token upgraded with ⟨reply, -, heq⟩ | ⟨role', -, heq⟩
      · rw [heq]
        rfl
      · rw [heq]
        rfl
  | register role' conn now ok =>
      obtain ⟨c, -, rfl⟩ := Option.map_eq_some_iff.mp hstep
      exact Hub.slot_fill
  | relay role' conn message ok =>
      obtain ⟨c, -, rfl⟩ := Option.map_eq_some_iff.mp hstep
      rfl
  | unregister role' conn =>
      obtain ⟨c, -, rfl⟩ := Option.map_eq_some_iff.mp hstep
      exact Hub.slot_unregister

/-- A connection found in a slot after a step was there before it and is left
there, or is registered. -/
theorem slot_cause (hinv : s.Sound) (hstep : (machine S).step s e = some s')
    (hslot : s'.hub.slot role = some conn) :
    (s.hub.slot role = some conn ∧ Leaves role conn e) ∨ Registers role conn s e := by
  rw [slot_step hstep] at hslot
  cases e with
  | request => exact .inl ⟨hslot, by simp, by simp⟩
  | relay => exact .inl ⟨hslot, by simp, by simp⟩
  | register role' conn' now ok =>
      rw [slotAfter] at hslot
      split at hslot
      · next heq =>
        obtain rfl := Option.some.inj hslot
        exact .inr ⟨now, ok, by rw [heq]⟩
      · next hne =>
        refine .inl ⟨hslot, fun conn now ok heq => ?_, by simp⟩
        cases heq
        exact hne rfl
  | unregister role' conn' =>
      obtain ⟨c, hat, -⟩ := Option.map_eq_some_iff.mp hstep
      obtain ⟨hc, hrole, -⟩ := handled_eq_some hat
      rw [slotAfter] at hslot
      split at hslot
      · contradiction
      · next hkeeps =>
        refine .inl ⟨hslot, by simp, fun role'' heq => ?_⟩
        cases heq
        -- the connection in the slot is of the slot's role
        obtain ⟨c', hc', hrole', -⟩ := hinv.placed role conn hslot
        rw [hc] at hc'
        cases hc'
        obtain rfl := hrole.symm.trans hrole'
        exact hkeeps ⟨rfl, hslot⟩

/-- A slot holds the connection that was registered last for its role, if that
was not unregistered since. -/
theorem slot_iff {token turnHost turnSecret : Text} {es : List (Event S)}
    (hrun : (machine S).Run (init token turnHost turnSecret) es s) :
    s.hub.slot role = some conn ↔
      (machine S).Since (init token turnHost turnSecret) es (Registers role conn)
        (Leaves role conn) := by
  constructor
  · intro hslot
    refine hrun.since (Q := fun s => s.hub.slot role = some conn) hslot ?_ ?_
    · cases role <;> simp [init, Hub.slot]
    · rintro s e s' ⟨es', hs⟩ hstep hs'
      exact slot_cause (sound_of_run hs) hstep hs'
  · intro hsince
    refine hrun.of_since (Q := fun s => s.hub.slot role = some conn) hsince ?_ ?_
    · rintro s e s' ⟨now, ok, rfl⟩ hstep
      rw [slot_step hstep]
      exact if_pos rfl
    · rintro s e s' hs ⟨hregister, hunregister⟩ hstep
      rw [slot_step hstep]
      cases e with
      | request => exact hs
      | relay => exact hs
      | register role' conn' now ok =>
          have hne : role' ≠ role := by
            rintro rfl
            exact hregister conn' now ok rfl
          exact (if_neg hne).trans hs
      | unregister role' conn' =>
          refine (if_neg ?_).trans hs
          rintro ⟨rfl, hslot⟩
          obtain rfl := Option.some.inj (hs.symm.trans hslot)
          exact hunregister role' rfl

/-- To which connections writes send a viewer-joined. -/
def joins (writes : List (Write S)) : List Conn :=
  writes.filterMap fun w => match w.2 with
    | .viewerJoined => some w.1
    | _ => none

/-- What holds at any time of the slots, of what was delivered, and of the next
step. -/
structure Orderly (token turnHost turnSecret : Text) (es : List (Event S)) (s : Server S) :
    Prop where
  slots : ∀ role conn, s.hub.slot role = some conn ↔
    (machine S).Since (init token turnHost turnSecret) es (Registers role conn) (Leaves role conn)
  first : ∀ (conn : Conn) c, s.conns[conn]? = some c →
    c.delivered = [] ∨ ∃ now rest, c.registered = some now ∧
      c.delivered = .config (configMessage s.turnHost s.turnSecret now) :: rest
  joined : ∀ role conn now ok s', (machine S).step s (.register role conn now ok) = some s' →
    joins (s.writes (.register role conn now ok)) =
      if s'.hub.viewer.isSome then s'.hub.host.toList else []
  others : ∀ e s', (machine S).step s e = some s' → joins (s.writes e) ≠ [] →
    (∃ role conn now ok, e = .register role conn now ok) ∨
      ∃ role conn ok, e = .relay role conn .viewerJoined ok
  refused : ∀ role token' upgraded, Role.parse role = none ∨ ¬ s.authorized token' →
    (machine S).step s (.request role token' upgraded) = some s ∧
      s.writes (.request role token' upgraded) = []

/-- A registration tells the host of a viewer exactly if both slots are filled. -/
theorem joins_register {now : Nat} {ok : Write S → Bool}
    (hstep : (machine S).step s (.register role conn now ok) = some s') :
    joins (s.writes (.register role conn now ok)) =
      if s'.hub.viewer.isSome then s'.hub.host.toList else [] := by
  obtain ⟨c, -, rfl⟩ := Option.map_eq_some_iff.mp hstep
  simp only [writes, Hub.register, joins, List.filterMap_cons]
  cases hhost : (s.hub.fill role conn).host <;> cases hviewer : (s.hub.fill role conn).viewer <;> rfl

/-- Besides registrations, relays of such a message write a viewer-joined. -/
theorem joins_ne_nil (h : joins (s.writes e) ≠ []) :
    (∃ role conn now ok, e = .register role conn now ok) ∨
      ∃ role conn ok, e = .relay role conn .viewerJoined ok := by
  cases e with
  | request => exact absurd rfl h
  | unregister => exact absurd rfl h
  | register role conn now ok => exact .inl ⟨role, conn, now, ok, rfl⟩
  | relay role conn message ok =>
      obtain ⟨i, hi⟩ := List.exists_mem_of_ne_nil _ h
      obtain ⟨w, hw, hjoined⟩ := List.mem_filterMap.mp hi
      have hmessage : w.2 = message := Hub.mem_relay hw
      rw [hmessage] at hjoined
      split at hjoined
      · exact .inr ⟨role, conn, ok, rfl⟩
      · contradiction

omit [TurnMac] in
/-- A request with a wrong role or token leaves the server as it was. -/
theorem handleWS_refused {roleParam token : Text} {upgraded : Bool}
    (h : Role.parse roleParam = none ∨ ¬ s.authorized token) :
    (s.handleWS roleParam token upgraded).2 = s := by
  unfold handleWS
  split
  · rfl
  · next hparse => rw [if_pos (h.resolve_left (by simp [hparse]))]

/-- **Slots, config and viewer-joined are right under every connect order.** -/
theorem orderly_of_run {token turnHost turnSecret : Text} {es : List (Event S)}
    (hrun : (machine S).Run (init token turnHost turnSecret) es s) :
    Orderly token turnHost turnSecret es s where
  slots _ _ := slot_iff hrun
  first conn c hc := by
    rcases (sound_of_run hrun).greeted conn c hc with ⟨hnone, -⟩ | ⟨-, hconfig⟩
    · exact .inl hnone
    · exact .inr hconfig
  joined _ _ _ _ _ hstep := joins_register hstep
  others _ _ _ hjoins := joins_ne_nil hjoins
  refused _ _ _ h := ⟨congrArg some (handleWS_refused h), rfl⟩

/-! ## Short runs -/

/-- Every write succeeds. -/
def allOk : Write S → Bool := fun _ => true

/-- A host and then a viewer connect. -/
def connects : List (Event Text) :=
  [.request (text "host") [] true, .register .host 0 0 allOk, .request (text "viewer") [] true,
    .register .viewer 1 0 allOk]

omit [TurnMac] in
/-- `orderly_of_run` for a page that is reloaded: the old connection ends after
the new one registered, which stays in the slot. -/
theorem orderly_of_run_reload :
    letI : TurnMac := ⟨fun _ _ => []⟩
    ∃ es s, (machine Text).Run (init [] [] []) es s ∧ s.hub = ⟨some 0, some 2⟩ ∧
      Orderly [] [] [] es s := by
  let _ : TurnMac := ⟨fun _ _ => []⟩
  obtain ⟨s, hrun, hhub⟩ := exists_run (machine Text) (init [] [] [])
    (connects ++ [.request (text "viewer") [] true, .register .viewer 2 0 allOk,
      .unregister .viewer 1]) (fun s => s.hub = ⟨some 0, some 2⟩) (by decide +kernel)
  exact ⟨_, s, hrun, of_decide_eq_true hhub, orderly_of_run hrun⟩

omit [TurnMac] in
/-- A viewer sends a viewer-joined of its own, which is relayed like any message. -/
theorem relay_writes_viewerJoined :
    letI : TurnMac := ⟨fun _ _ => []⟩
    ∃ es s s', (machine Text).Run (init [] [] []) es s ∧
      (machine Text).step s (.relay .viewer 1 .viewerJoined allOk) = some s' ∧
      joins (s.writes (.relay .viewer 1 .viewerJoined allOk)) = [0] := by
  let _ : TurnMac := ⟨fun _ _ => []⟩
  obtain ⟨s, hrun, hend⟩ := exists_run (machine Text) (init [] [] []) connects
    (fun s => ((machine Text).step s (.relay .viewer 1 .viewerJoined allOk)).isSome ∧
      joins (s.writes (.relay .viewer 1 .viewerJoined allOk)) = [0]) (by decide +kernel)
  obtain ⟨hstep, hjoins⟩ := of_decide_eq_true hend
  obtain ⟨s', hstep⟩ := Option.isSome_iff_exists.mp hstep
  exact ⟨connects, s, s', hrun, hstep, hjoins⟩

end Server

end RemoteBridge
