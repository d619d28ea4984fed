import RemoteBridge.Signaling

/-!
# Signaling.Steps

What a step of the server and the host can be, and what always holds between
them: the host's connection is the only one of its role, and what the host has
received of it is the first part of what was delivered on it.
-/

namespace RemoteBridge

open Unicode

variable {S : Type}

/-! ## The host -/

/-- A viewer's joining, before the offer to it is made; or the loop has ended. -/
def Point.Joining : Point S → Prop
  | .join | .joinClose _ | .start | .returned => True
  | _ => False

namespace Host

variable [Sdp S] {h h' : Host S} {e : Event S}

/-- A step without `start_session`. -/
structure Idles (h h' : Host S) : Prop where
  offers : h'.offers = h.offers
  joining : h.point.Joining → h'.point.Joining
  session : h'.point ≠ .start → h.point ≠ .start ∧ h'.session = h.session
  config : h'.point = .config → h.point = .config

/-- `start_session`, which may fail. -/
structure StartsSession (h : Host S) (o : Outcome S) (h' : Host S) : Prop where
  point : h.point = .start
  offers : h'.offers = h.offers ++ o.started.toList.map fun offer => (offer, h.session)
  session : h'.session = h.session
  head : h'.point = .head

/-- A step is one of `start_session` or not. -/
theorem Step.idles_or_starts (hstep : Step h e h') :
    Idles h h' ∨ ∃ o, e = .resume o ∧ StartsSession h o h' := by
  cases hstep
  case started offer o hpoint hstarted =>
    exact .inr ⟨o, rfl, hpoint, by rw [hstarted]; rfl, rfl, rfl⟩
  case startFailed o hpoint hstarted =>
    exact .inr ⟨o, rfl, hpoint, by simp [hstarted], rfl, rfl⟩
  case lost hpoint =>
    refine .inl ⟨rfl, fun _ => trivial, fun _ => ⟨?_, rfl⟩, fun hconfig => ?_⟩
    · rcases hpoint with hpoint | hpoint <;> simp [hpoint]
    · contradiction
  all_goals
    refine .inl ⟨rfl, ?_, ?_, ?_⟩ <;> simp_all [Point.Joining, leave, closePc]

/-- Offers are kept. -/
theorem Step.offers_grow (hstep : Step h e h') : h.offers <+: h'.offers := by
  rcases hstep.idles_or_starts with hidles | ⟨o, -, hstarts⟩
  · exact hidles.offers ▸ List.prefix_rfl
  · rw [hstarts.offers]
    exact List.prefix_append _ _

/-- Receiving a viewer-joined is a joining. -/
theorem joining_of_recv (hstep : (machine S).step h (.recv .viewerJoined) =
    some h') (hpoint : h'.point ≠ .config) : h'.point.Joining := by
  simp only [machine, step] at hstep
  split at hstep
  · next heq => cases heq
  · next hconfig _ =>
    obtain rfl := Option.some.inj hstep
    exact absurd hconfig hpoint
  · obtain rfl := Option.some.inj hstep
    trivial
  · contradiction

end Host

namespace Signaling

variable [TurnMac] [Sdp S] {n n' : Signaling S}

/-! ## The inversion -/

/-- What a step from `n` can be. -/
inductive Step (n : Signaling S) : Event S → Signaling S → Prop
  | waited (d : Nat) : Step n (.wait d) { n with clock := n.clock + d }
  | refused (token : Text) (upgraded : Bool) : Step n (.dial token upgraded) n
  | accepted (token : Text) (upgraded : Bool) (server : Server S) (conn : n.conn = none)
      (step : (Server.machine S).step n.server (.request (text "host") token upgraded) =
        some server)
      (added : server.conns.length = n.server.conns.length + 1) :
      Step n (.dial token upgraded) { n with server, conn := some n.server.conns.length }
  | served (e : Server.Event S) (server : Server S) (viewers : viewersOnly n.clock e)
      (step : (Server.machine S).step n.server e = some server) :
      Step n (.server e) { n with server }
  | relayed (ok : Write S → Bool) (conn : Conn) (offer : S) (session : UInt32) (server : Server S)
      (made : n.host.offers[n.taken]? = some (offer, session))
      (step : (Server.machine S).step n.server (.relay .host conn (.offer offer session) ok) =
        some server) :
      Step n (.relayOffer ok) { n with server, taken := n.taken + 1 }
  | received (message : SignalMessage S) (rest : List (SignalMessage S)) (host : Host S)
      (unread : n.unread = message :: rest)
      (step : (Host.machine S).step n.host (.recv message) = some host) :
      Step n .hostRecv { n with host, read := n.read + 1 }
  | moved (e : Host.Event S) (host : Host S) (other : ∀ message, e ≠ .recv message)
      (step : (Host.machine S).step n.host e = some host) :
      Step n (.host e) { n with host }

/-- **Inversion**: every step is one of these. -/
theorem step_of_eq {e : Event S} (hstep : (machine S).step n e = some n') : Step n e n' := by
  simp only [machine] at hstep
  cases e with
  | wait d => exact Option.some.inj hstep ▸ .waited d
  | dial token upgraded =>
      simp only [step] at hstep
      split at hstep
      · contradiction
      · next hconn =>
        have hconn : n.conn = none := by simpa using hconn
        rcases n.server.handleWS_eq (text "host") token upgraded with
          ⟨reply, hreply, heq⟩ | ⟨role, -, heq⟩
        · rw [heq] at hstep
          simp only [hreply, if_false, ← hconn] at hstep
          exact Option.some.inj hstep ▸ .refused token upgraded
        · have hserver : (Server.machine S).step n.server (.request (text "host") token upgraded) =
              some (n.server.handleWS (text "host") token upgraded).2 := rfl
          rw [heq] at hstep hserver
          exact Option.some.inj hstep ▸ .accepted token upgraded _ hconn hserver (by simp)
  | server e =>
      simp only [step] at hstep
      split at hstep
      · next hviewers =>
        obtain ⟨server, hserver, rfl⟩ := Option.map_eq_some_iff.mp hstep
        exact .served e server hviewers hserver
      · contradiction
  | relayOffer ok =>
      simp only [step, Option.bind_eq_bind, Option.bind_eq_some_iff, Option.some.injEq] at hstep
      obtain ⟨conn, -, ⟨offer, session⟩, hoffer, server, hserver, rfl⟩ := hstep
      exact .relayed ok conn offer session server hoffer hserver
  | hostRecv =>
      simp only [step] at hstep
      split at hstep
      · contradiction
      · next message rest hunread =>
        obtain ⟨host, hhost, rfl⟩ := Option.map_eq_some_iff.mp hstep
        exact .received message rest host hunread hhost
  | host e =>
      cases e with
      | recv message => contradiction
      | _ =>
          obtain ⟨host, hhost, rfl⟩ := Option.map_eq_some_iff.mp hstep
          exact .moved _ host (by simp) hhost

/-! ## The invariant -/

/-- The host's connection is the only one of its role, and the host is not ahead
of what was delivered on it; it goes on with the first message; and the server
is not ahead of the host's offers. -/
structure Sound (n : Signaling S) : Prop where
  server : n.server.Sound
  own : ∀ (i : Conn) c, n.server.conns[i]? = some c → (c.role = .host ↔ n.conn = some i)
  conn : ∀ i, n.conn = some i → ∃ c, n.server.conns[i]? = some c ∧ n.read ≤ c.delivered.length
  undialled : n.conn = none → n.read = 0
  config : n.host.point = .config → n.read = 0
  taken : n.taken ≤ n.host.offers.length

omit [Sdp S] in
theorem sound_init (token turnHost turnSecret key hostFp : Text) (paired : PairedDevices) :
    Sound (init token turnHost turnSecret key hostFp paired : Signaling S) where
  server := Server.sound_init token turnHost turnSecret
  own i c hc := by simp [init, Server.init] at hc
  conn i hi := by simp [init] at hi
  undialled _ := rfl
  config _ := rfl
  taken := Nat.zero_le _

omit [TurnMac] [Sdp S] in
/-- What the host has yet to receive is the rest of what was delivered. -/
theorem unread_eq {i : Conn} {c : Connection S} (hconn : n.conn = some i)
    (hc : n.server.conns[i]? = some c) : n.unread = c.delivered.drop n.read := by
  simp [unread, hconn, hc]

omit [TurnMac] [Sdp S] in
theorem exists_of_unread {message : SignalMessage S} {rest : List (SignalMessage S)}
    (h : n.unread = message :: rest) : ∃ i c, n.conn = some i ∧ n.server.conns[i]? = some c ∧
      c.delivered.drop n.read = message :: rest := by
  unfold unread at h
  split at h
  · next c hbind =>
    obtain ⟨i, hconn, hc⟩ := Option.bind_eq_some_iff.mp hbind
    exact ⟨i, c, hconn, hc, h⟩
  · contradiction

omit [Sdp S] in
/-- The first message is the config message minted when the host's connection
was registered. -/
theorem Sound.first {message : SignalMessage S} {rest : List (SignalMessage S)} (hinv : Sound n)
    (hread : n.read = 0) (h : n.unread = message :: rest) :
    ∃ i c now, n.conn = some i ∧ n.server.conns[i]? = some c ∧ c.handler ≠ .opening ∧
      c.registered = some now ∧
      message = .config (configMessage n.server.turnHost n.server.turnSecret now) := by
  obtain ⟨i, c, hconn, hc, hdrop⟩ := exists_of_unread h
  rw [hread, List.drop_zero] at hdrop
  rcases hinv.server.greeted i c hc with ⟨hnone, -⟩ | ⟨hserving, now, rest', hnow, hdelivered⟩
  · rw [hnone] at hdrop
    contradiction
  · rw [hdelivered] at hdrop
    exact ⟨i, c, now, hconn, hc, hserving, hnow, (List.cons.inj hdrop).1.symm⟩

omit [Sdp S] in
/-- A step of the server in which no host is accepted. -/
theorem Sound.serve {e : Server.Event S} {server : Server S} {taken : Nat} (hinv : Sound n)
    (hstep : (Server.machine S).step n.server e = some server)
    (hviewer : ∀ role token upgraded, e = .request role token upgraded →
      Role.parse role ≠ some .host)
    (htaken : taken ≤ n.host.offers.length) : Sound { n with server, taken } where
  server := hinv.server.step hstep
  own i c' hc' := by
    rcases Server.exists_conn hstep hc' with ⟨c, hc⟩ | ⟨role, token, upgraded, heq, hrole, rfl⟩
    · obtain ⟨d, hd, htakes⟩ := Server.exists_takes hstep hc
      obtain rfl := Option.some.inj (hc'.symm.trans hd)
      rw [htakes.role]
      exact hinv.own i c hc
    · refine iff_of_false (fun hhost => ?_) fun hconn => ?_
      · exact hviewer role token upgraded heq (by rw [hrole, hhost])
      · obtain ⟨c, hc, -⟩ := hinv.conn _ hconn
        exact absurd (List.getElem?_eq_some_iff.mp hc).1 (Nat.lt_irrefl _)
  conn i hi := by
    obtain ⟨c, hc, hread⟩ := hinv.conn i hi
    obtain ⟨c', hc', htakes⟩ := Server.exists_takes hstep hc
    exact ⟨c', hc', hread.trans htakes.delivered.length_le⟩
  undialled := hinv.undialled
  config := hinv.config
  taken := htaken

/-- A step of the host. -/
theorem Sound.move {e : Host.Event S} {host : Host S} {read : Nat} (hinv : Sound n)
    (hstep : (Host.machine S).step n.host e = some host)
    (hconn : ∀ i, n.conn = some i → ∃ c, n.server.conns[i]? = some c ∧ read ≤ c.delivered.length)
    (hundialled : n.conn = none → read = 0) (hconfig : host.point = .config → read = 0) :
    Sound { n with host, read } where
  server := hinv.server
  own := hinv.own
  conn := hconn
  undialled := hundialled
  config := hconfig
  taken := hinv.taken.trans (Host.step_of_eq hstep).offers_grow.length_le

/-- With the first message the host goes on. -/
theorem Sound.received {message : SignalMessage S} {rest : List (SignalMessage S)} {host : Host S}
    (hinv : Sound n) (hunread : n.unread = message :: rest)
    (hstep : (Host.machine S).step n.host (.recv message) = some host) :
    host.point ≠ .config := by
  intro hconfig
  have hpoint : n.host.point = .config := by
    rcases (Host.step_of_eq hstep).idles_or_starts with hidles | ⟨o, heq, -⟩
    · exact hidles.config hconfig
    · contradiction
  obtain ⟨i, c, now, -, -, -, -, rfl⟩ := hinv.first (hinv.config hpoint) hunread
  simp only [Host.machine, Host.step, hpoint, Option.some.injEq] at hstep
  rw [← hstep] at hconfig
  contradiction

/-- **One step** keeps the invariant. -/
theorem Step.sound {e : Event S} (hstep : Step n e n') (hinv : Sound n) : Sound n' := by
  cases hstep with
  | waited d => exact ⟨hinv.server, hinv.own, hinv.conn, hinv.undialled, hinv.config, hinv.taken⟩
  | refused => exact hinv
  | accepted token upgraded server hconn hstep hadded =>
      refine ⟨hinv.server.step hstep, fun i c' hc' => ?_, fun i hi => ?_, fun h => ?_, hinv.config,
        hinv.taken⟩
      · rcases Server.exists_conn hstep hc' with ⟨c, hc⟩ | ⟨role, token, upgraded, heq, hrole, rfl⟩
        · obtain ⟨d, hd, htakes⟩ := Server.exists_takes hstep hc
          obtain rfl := Option.some.inj (hc'.symm.trans hd)
          have hlt := (List.getElem?_eq_some_iff.mp hc).1
          rw [htakes.role, hinv.own i c hc, hconn]
          refine iff_of_false (by simp) fun heq => ?_
          rw [Option.some.inj heq] at hlt
          exact Nat.lt_irrefl _ hlt
        · cases heq
          exact iff_of_true (Option.some.inj (hrole.symm.trans (by decide))) rfl
      · obtain rfl := Option.some.inj hi
        have hlt : n.server.conns.length < server.conns.length := hadded ▸ Nat.lt_succ_self _
        refine ⟨_, List.getElem?_eq_getElem hlt, ?_⟩
        rw [hinv.undialled hconn]
        exact Nat.zero_le _
      · contradiction
  | served e server hviewers hstep =>
      refine hinv.serve hstep ?_ hinv.taken
      rintro role token upgraded rfl
      exact of_decide_eq_true hviewers
  | relayed ok conn offer session server hmade hstep =>
      refine hinv.serve hstep (by simp) ?_
      exact (List.getElem?_eq_some_iff.mp hmade).1
  | received message rest host hunread hstep =>
      obtain ⟨j, d, hj, hd, hdrop⟩ := exists_of_unread hunread
      have hlength := congrArg List.length hdrop
      rw [List.length_drop, List.length_cons] at hlength
      refine hinv.move hstep (fun i hi => ?_) (fun h => ?_) fun h => ?_
      · obtain rfl := Option.some.inj (hj.symm.trans hi)
        exact ⟨d, hd, by omega⟩
      · rw [hj] at h
        contradiction
      · exact absurd h (hinv.received hunread hstep)
  | moved e host hother hstep =>
      refine hinv.move hstep hinv.conn hinv.undialled fun h => hinv.config ?_
      rcases (Host.step_of_eq hstep).idles_or_starts with hidles | ⟨o, -, hstarts⟩
      · exact hidles.config h
      · rw [hstarts.head] at h
        contradiction

end Signaling

end RemoteBridge
