import RemoteBridge.Network
import RemoteBridge.Sessions.Steps

/-!
# Network.Steps

What a step of the network can be, and which messages are under way after it.
-/

namespace RemoteBridge.Network

open Unicode

variable {n n' : Network} {e : Event}

/-! ## Delivery -/

/-- Delivery adds to the inboxes what was written to them, and nothing else. -/
theorem getElem?_deliver (clients : List Client) (writes : List (Conn × Message)) (i : Conn) :
    (deliver clients writes)[i]? = clients[i]?.map fun c =>
      { c with
        inbox := c.inbox ++ writes.filterMap fun w => if w.1 = i then some w.2 else none } := by
  induction writes generalizing clients with
  | nil => simp [deliver]
  | cons w writes ih =>
      rw [deliver, List.foldl_cons, ← deliver, ih, List.getElem?_modify]
      by_cases hw : w.1 = i
      · cases clients[i]? <;> simp [hw]
      · cases clients[i]? <;> simp [hw]

theorem getElem?_set_eq {clients : List Client} {i j : Conn} {c d : Client}
    (hd : (clients.set i c)[j]? = some d) :
    j = i ∧ d = c ∨ j ≠ i ∧ clients[j]? = some d := by
  by_cases hij : i = j
  · rw [List.getElem?_set, if_pos hij] at hd
    split at hd
    · exact .inl ⟨hij.symm, (Option.some.inj hd).symm⟩
    · contradiction
  · rw [List.getElem?_set_ne hij] at hd
    exact .inr ⟨Ne.symm hij, hd⟩

theorem getElem?_concat_eq {clients : List Client} {j : Conn} {c d : Client}
    (hd : (clients ++ [c])[j]? = some d) :
    clients[j]? = some d ∨ j = clients.length ∧ d = c := by
  rw [List.getElem?_append, List.getElem?_singleton] at hd
  grind

theorem getElem?_deliver_eq {clients : List Client} {writes : List (Conn × Message)} {j : Conn}
    {d : Client} (hd : (deliver clients writes)[j]? = some d) :
    ∃ c ms, clients[j]? = some c ∧ d = { c with inbox := c.inbox ++ ms } := by
  rw [getElem?_deliver] at hd
  obtain ⟨c, hc, rfl⟩ := Option.map_eq_some_iff.mp hd
  exact ⟨c, _, hc, rfl⟩

/-! ## Steps -/

section

variable [FinalSigma]

/-- What a step from `n` can be. -/
inductive Step (n : Network) : Event → Network → Prop
  | startHost (key hostFp : Text) (paired : PairedDevices)
      (one : ∀ c ∈ n.clients, c.alive → c.party.role ≠ .host) :
      Step n (.startHost key hostFp paired) { n with
        clients := n.clients ++ [⟨.host (.init key hostFp paired), true, .opening, [], []⟩] }
  | openPage : Step n .openPage { n with
      clients := n.clients ++ [⟨.viewer .init, true, .opening, [], []⟩] }
  | exit (i : Conn) (c : Client) (client : n.clients[i]? = some c) :
      Step n (.exit i) (n.set i { c with alive := false })
  | register (i : Conn) (iceServers : List IceServerConfig) (c : Client)
      (client : n.clients[i]? = some c) (handler : c.handler = .opening) :
      Step n (.register i iceServers)
        ⟨n.hub.fill c.party.role i,
          deliver (n.clients.set i { c with handler := .serving })
            (n.hub.register c.party.role i iceServers).2⟩
  | relay (i : Conn) (c : Client) (message : Message) (sent : List Message)
      (client : n.clients[i]? = some c) (handler : c.handler = .serving)
      (next : c.sent = message :: sent) :
      Step n (.relay i) { n with
        clients := deliver (n.clients.set i { c with sent })
          (n.hub.relay c.party.role message) }
  | unregister (i : Conn) (c : Client) (client : n.clients[i]? = some c)
      (handler : c.handler = .serving) :
      Step n (.unregister i)
        ⟨n.hub.unregister c.party.role i, n.clients.set i { c with handler := .done }⟩
  | hostRecv (i : Conn) (c : Client) (h h' : Host Desc) (message : Message) (inbox : List Message)
      (client : n.clients[i]? = some c) (party : c.party = .host h) (alive : c.alive)
      (next : c.inbox = message :: inbox) (step : Host.Step h (.recv message) h') :
      Step n (.hostRecv i) (n.set i { c with party := .host h', inbox })
  | hostMove (i : Conn) (move : HostMove) (c : Client) (h h' : Host Desc)
      (client : n.clients[i]? = some c) (party : c.party = .host h) (alive : c.alive)
      (step : Host.Step h (move.event i h) h') :
      Step n (.hostMove i move)
        (n.set i { c with party := .host h', sent := c.sent ++ sentOffers h h' })
  | onmessage (i : Conn) (savedFp : Option Text) (created : Bool) (c : Client) (v : Viewer)
      (message : Message) (inbox : List Message) (client : n.clients[i]? = some c)
      (party : c.party = .viewer v) (alive : c.alive) (next : c.inbox = message :: inbox) :
      Step n (.onmessage i savedFp created)
        (n.set i { c with party := .viewer (v.onmessage message savedFp created), inbox })
  | goOn (i : Conn) (call : Nat) (description : Option Text) (c : Client) (v v' : Viewer)
      (sent : List Message) (client : n.clients[i]? = some c) (party : c.party = .viewer v)
      (alive : c.alive) (step : v.goOn call description = some (v', sent)) :
      Step n (.goOn i call description)
        (n.set i { c with party := .viewer v', sent := c.sent ++ sent })

omit [FinalSigma] in
theorem hostAt_eq_some {i : Conn} {c : Client} {h : Host Desc} (hat : n.hostAt i = some (c, h)) :
    n.clients[i]? = some c ∧ c.party = .host h ∧ c.alive := by
  unfold hostAt at hat
  split at hat
  · next h₀ handler sent inbox hc =>
    obtain ⟨rfl, rfl⟩ := Prod.ext_iff.mp (Option.some.inj hat)
    exact ⟨hc, rfl, rfl⟩
  · contradiction

omit [FinalSigma] in
theorem viewerAt_eq_some {i : Conn} {c : Client} {v : Viewer}
    (hat : n.viewerAt i = some (c, v)) :
    n.clients[i]? = some c ∧ c.party = .viewer v ∧ c.alive := by
  unfold viewerAt at hat
  split at hat
  · next v₀ handler sent inbox hc =>
    obtain ⟨rfl, rfl⟩ := Prod.ext_iff.mp (Option.some.inj hat)
    exact ⟨hc, rfl, rfl⟩
  · contradiction

omit [FinalSigma] in
theorem handled_eq_some {i : Conn} {handler : Handler} {c : Client}
    (hat : n.handled i handler = some c) : n.clients[i]? = some c ∧ c.handler = handler := by
  simpa [handled, Option.filter_eq_some_iff] using hat

/-- **Inversion**: every step of the network is one of these. -/
theorem step_of_eq (hstep : machine.step n e = some n') : Step n e n' := by
  simp only [machine] at hstep
  cases e with
  | startHost key hostFp paired =>
      simp only [step] at hstep
      split at hstep
      · contradiction
      · next hnone =>
        refine Option.some.inj hstep ▸ .startHost key hostFp paired fun c hc halive hrole => ?_
        exact hnone (List.any_eq_true.mpr ⟨c, hc, by simp [halive, hrole]⟩)
  | openPage => exact Option.some.inj hstep ▸ .openPage
  | exit i =>
      obtain ⟨c, hc, rfl⟩ := Option.map_eq_some_iff.mp hstep
      exact .exit i c hc
  | register i iceServers =>
      obtain ⟨c, hat, hstep⟩ := Option.bind_eq_some_iff.mp hstep
      obtain ⟨hc, hhandler⟩ := handled_eq_some hat
      exact Option.some.inj hstep ▸ .register i iceServers c hc hhandler
  | relay i =>
      obtain ⟨c, hat, hstep⟩ := Option.bind_eq_some_iff.mp hstep
      obtain ⟨hc, hhandler⟩ := handled_eq_some hat
      split at hstep
      · contradiction
      · next message sent hsent =>
        exact Option.some.inj hstep ▸ .relay i c message sent hc hhandler hsent
  | unregister i =>
      obtain ⟨c, hat, hstep⟩ := Option.bind_eq_some_iff.mp hstep
      obtain ⟨hc, hhandler⟩ := handled_eq_some hat
      exact Option.some.inj hstep ▸ .unregister i c hc hhandler
  | hostRecv i =>
      obtain ⟨⟨c, h⟩, hat, hstep⟩ := Option.bind_eq_some_iff.mp hstep
      obtain ⟨hc, hparty, halive⟩ := hostAt_eq_some hat
      dsimp only at hstep
      split at hstep
      · contradiction
      · next message inbox hinbox =>
        obtain ⟨h', hh', rfl⟩ := Option.map_eq_some_iff.mp hstep
        exact .hostRecv i c h h' message inbox hc hparty halive hinbox (Host.step_of_eq hh')
  | hostMove i move =>
      obtain ⟨⟨c, h⟩, hat, hstep⟩ := Option.bind_eq_some_iff.mp hstep
      obtain ⟨hc, hparty, halive⟩ := hostAt_eq_some hat
      obtain ⟨h', hh', rfl⟩ := Option.map_eq_some_iff.mp hstep
      exact .hostMove i move c h h' hc hparty halive (Host.step_of_eq hh')
  | onmessage i savedFp created =>
      obtain ⟨⟨c, v⟩, hat, hstep⟩ := Option.bind_eq_some_iff.mp hstep
      obtain ⟨hc, hparty, halive⟩ := viewerAt_eq_some hat
      dsimp only at hstep
      split at hstep
      · contradiction
      · next message inbox hinbox =>
        exact Option.some.inj hstep ▸
          .onmessage i savedFp created c v message inbox hc hparty halive hinbox
  | goOn i call description =>
      obtain ⟨⟨c, v⟩, hat, hstep⟩ := Option.bind_eq_some_iff.mp hstep
      obtain ⟨hc, hparty, halive⟩ := viewerAt_eq_some hat
      obtain ⟨⟨v', sent⟩, hv', rfl⟩ := Option.map_eq_some_iff.mp hstep
      exact .goOn i call description c v v' sent hc hparty halive hv'

/-! ## One client over a step -/

/-- What a step makes of client `i`. -/
structure Follows (e : Event) (i : Conn) (c d : Client) : Prop where
  role : d.party.role = c.party.role
  alive : d.alive → c.alive
  host : ∀ h', d.party = .host h' → c.party = .host h' ∨
    ∃ h ev, c.party = .host h ∧ c.alive ∧ Host.Step h ev h' ∧
      ((∃ move, e = .hostMove i move ∧ ev = move.event i h) ∨
        ∃ m, e = .hostRecv i ∧ m ∈ c.inbox ∧ ev = .recv m)
  viewer : ∀ v', d.party = .viewer v' → ∃ v, c.party = .viewer v ∧ (v.Made → v'.Made)

omit [FinalSigma] in
/-- A client whose party the step leaves alone. -/
theorem follows_of_party {i : Conn} {c d : Client} (hparty : d.party = c.party)
    (halive : d.alive → c.alive) : Follows e i c d where
  role := by rw [hparty]
  alive := halive
  host h' hh := .inl (hparty.symm.trans hh)
  viewer v' hv := ⟨v', hparty.symm.trans hv, id⟩

omit [FinalSigma] in
/-- What a client makes of messages written to it is nothing, until it reads them. -/
theorem Follows.inbox {i : Conn} {c d : Client} (h : Follows e i c d) (inbox : List Message) :
    Follows e i c { d with inbox } :=
  ⟨h.role, h.alive, h.host, h.viewer⟩

omit [FinalSigma] in
/-- A step that changes one client. -/
theorem follows_set {clients : List Client} {i j : Conn} {c c' d : Client}
    (hc : clients[j]? = some c) (hd : (clients.set j c')[i]? = some d)
    (hfollows : Follows e j c c') : ∃ c, clients[i]? = some c ∧ Follows e i c d := by
  rcases getElem?_set_eq hd with ⟨rfl, rfl⟩ | ⟨-, hd⟩
  · exact ⟨c, hc, hfollows⟩
  · exact ⟨d, hd, follows_of_party rfl id⟩

/-- Every client after a step was there before it, or is new. -/
theorem Step.follows (hstep : Step n e n') {i : Conn} {d : Client}
    (hd : n'.clients[i]? = some d) :
    (∃ c, n.clients[i]? = some c ∧ Follows e i c d) ∨
      i = n.clients.length ∧
        ((∃ key hostFp paired, d.party = .host (.init key hostFp paired) ∧
            ∀ c ∈ n.clients, c.alive → c.party.role ≠ .host) ∨
          d.party = .viewer .init) := by
  cases hstep with
  | startHost key hostFp paired hone =>
      rcases getElem?_concat_eq hd with hd | ⟨hi, rfl⟩
      · exact .inl ⟨d, hd, follows_of_party rfl id⟩
      · exact .inr ⟨hi, .inl ⟨key, hostFp, paired, rfl, hone⟩⟩
  | openPage =>
      rcases getElem?_concat_eq hd with hd | ⟨hi, rfl⟩
      · exact .inl ⟨d, hd, follows_of_party rfl id⟩
      · exact .inr ⟨hi, .inr rfl⟩
  | exit j c hc => exact .inl (follows_set hc hd (follows_of_party rfl (by simp)))
  | register j iceServers c hc hhandler =>
      obtain ⟨d, ms, hset, rfl⟩ := getElem?_deliver_eq hd
      obtain ⟨c, hc, hfollows⟩ := follows_set hc hset (follows_of_party rfl id)
      exact .inl ⟨c, hc, hfollows.inbox _⟩
  | relay j c message sent hc hhandler hnext =>
      obtain ⟨d, ms, hset, rfl⟩ := getElem?_deliver_eq hd
      obtain ⟨c, hc, hfollows⟩ := follows_set hc hset (follows_of_party rfl id)
      exact .inl ⟨c, hc, hfollows.inbox _⟩
  | unregister j c hc hhandler => exact .inl (follows_set hc hd (follows_of_party rfl id))
  | hostRecv j c h h' message inbox hc hparty halive hnext hh =>
      refine .inl (follows_set hc hd ⟨by simp [hparty, Party.role], id, fun h₁ hh₁ => ?_, by simp⟩)
      obtain rfl := Party.host.inj hh₁
      exact .inr ⟨h, _, hparty, halive, hh, .inr ⟨message, rfl, by simp [hnext], rfl⟩⟩
  | hostMove j move c h h' hc hparty halive hh =>
      refine .inl (follows_set hc hd ⟨by simp [hparty, Party.role], id, fun h₁ hh₁ => ?_, by simp⟩)
      obtain rfl := Party.host.inj hh₁
      exact .inr ⟨h, _, hparty, halive, hh, .inl ⟨move, rfl, rfl⟩⟩
  | onmessage j savedFp created c v message inbox hc hparty halive hnext =>
      refine .inl (follows_set hc hd ⟨by simp [hparty, Party.role], id, by simp, fun v' hv' => ?_⟩)
      obtain rfl := Party.viewer.inj hv'
      exact ⟨v, hparty, Viewer.made_onmessage⟩
  | goOn j call description c v v' sent hc hparty halive hv =>
      refine .inl (follows_set hc hd ⟨by simp [hparty, Party.role], id, by simp, fun v₁ hv₁ => ?_⟩)
      obtain rfl := Party.viewer.inj hv₁
      exact ⟨v, hparty, fun hmade => Viewer.made_goOn hmade hv⟩

end

end RemoteBridge.Network
