import RemoteBridge.Signaling.Steps

/-!
# Signaling.Offers

No connected viewer is left without an offer.  While a viewer is in the slot, a
viewer-joined is on its way to the host, or the host is about to make an offer,
or it made one after the viewer was registered, and the last of its offers is the
last one the viewer gets.
-/

namespace RemoteBridge

open Unicode Machine

variable {S : Type}

/-! ## Offers on a connection -/

/-- The offer of a message. -/
def SignalMessage.offered : SignalMessage S → Option (S × UInt32)
  | .offer sdp session => some (sdp, session)
  | _ => none

namespace Server

/-- No write to the connection failed. -/
def Live (s : Server S) (i : Conn) : Prop := ∃ c, s.conns[i]? = some c ∧ c.broken = false

instance (s : Server S) (i : Conn) : Decidable (s.Live i) :=
  decidable_of_iff (s.conns[i]?.any fun c => !c.broken) (by simp [Live, Option.any_eq_true])

/-- The last offer delivered on a connection. -/
def lastOffer (s : Server S) (i : Conn) : Option (S × UInt32) :=
  s.conns[i]?.bind fun c => (c.delivered.filterMap (·.offered)).getLast?

variable [TurnMac] {s s' : Server S} {e : Event S} {c : Connection S} {i v : Conn}

/-- What a step delivers on a connection that is live after it. -/
theorem exists_delivered (hstep : (machine S).step s e = some s') (hc : s.conns[i]? = some c)
    (hlive : s'.Live i) :
    ∃ c', s'.conns[i]? = some c' ∧ c'.delivered = c.delivered ++ s.writesTo e i := by
  obtain ⟨d, hd, hbroken⟩ := hlive
  obtain ⟨c', hc', htakes⟩ := exists_takes hstep hc
  obtain rfl := Option.some.inj (hd.symm.trans hc')
  exact ⟨d, hd, (htakes.broken hbroken).2⟩

theorem live_of_step (hstep : (machine S).step s e = some s') (hc : s.conns[i]? = some c)
    (hlive : s'.Live i) : s.Live i := by
  obtain ⟨d, hd, hbroken⟩ := hlive
  obtain ⟨c', hc', htakes⟩ := exists_takes hstep hc
  obtain rfl := Option.some.inj (hd.symm.trans hc')
  exact ⟨c, hc, (htakes.broken hbroken).1⟩

theorem lastOffer_step (hstep : (machine S).step s e = some s') (hc : s.conns[i]? = some c)
    (hlive : s'.Live i) :
    s'.lastOffer i = (((s.writesTo e i).filterMap (·.offered)).getLast?).or (s.lastOffer i) := by
  obtain ⟨c', hc', hdelivered⟩ := exists_delivered hstep hc hlive
  simp only [lastOffer, hc, hc', Option.bind_some]
  rw [hdelivered, List.filterMap_append, List.getLast?_append]

theorem mem_writesTo {message : SignalMessage S} :
    message ∈ s.writesTo e i ↔ (i, message) ∈ s.writes e := by
  simp [writesTo]

/-- The viewer in the slot is written offers by the host only. -/
theorem offered_writesTo {now : Nat} (hinv : s.Sound) (hviewer : s.hub.viewer = some v)
    (hviewers : Signaling.viewersOnly now e) : (s.writesTo e v).filterMap (·.offered) = [] := by
  refine List.filterMap_eq_nil_iff.mpr fun message hmessage => ?_
  have hwrite := mem_writesTo.mp hmessage
  cases e with
  | request => contradiction
  | unregister => contradiction
  | register role conn t ok =>
      rcases Hub.mem_register hwrite with h | h
      · rw [show message = _ from h]
        rfl
      · rw [show message = _ from h]
        rfl
  | relay role conn message' ok =>
      obtain rfl : role = .viewer := of_decide_eq_true hviewers
      simp only [writes, Hub.relay] at hwrite
      split at hwrite
      · next peer hhost =>
        -- the host in its slot is not the viewer
        obtain ⟨rfl, -⟩ := Prod.ext_iff.mp (List.mem_singleton.mp hwrite)
        obtain ⟨c, hc, hrole, -⟩ := hinv.placed .host v hhost
        obtain ⟨c', hc', hrole', -⟩ := hinv.placed .viewer v hviewer
        obtain rfl := Option.some.inj (hc.symm.trans hc')
        rw [hrole] at hrole'
        contradiction
      · contradiction

/-- When both slots are filled after a registration, the host is told. -/
theorem viewerJoined_mem_writesTo {role : Role} {conn : Conn} {now : Nat} {ok : Write S → Bool}
    (hstep : (machine S).step s (.register role conn now ok) = some s')
    (hhost : s'.hub.host = some i) (hviewer : s'.hub.viewer = some v) :
    .viewerJoined ∈ s.writesTo (.register role conn now ok) i := by
  obtain ⟨c, -, rfl⟩ := Option.map_eq_some_iff.mp hstep
  have hhost : (s.hub.fill role conn).host = some i := hhost
  have hviewer : (s.hub.fill role conn).viewer = some v := hviewer
  rw [mem_writesTo, writes, Hub.register]
  simp only [hhost, hviewer]
  exact List.mem_cons_of_mem _ (List.mem_singleton.mpr rfl)

end Server

namespace Signaling

variable [TurnMac] [Sdp S] {n n' : Signaling S} {i v : Conn} {k : Nat}

/-! ## What the host has yet to receive -/

omit [Sdp S] in
/-- The host in its slot is the host process. -/
theorem Sound.conn_of_slot (hinv : Sound n) (hhost : n.server.hub.host = some i) :
    n.conn = some i := by
  obtain ⟨c, hc, hrole, -⟩ := hinv.server.placed .host i hhost
  exact (hinv.own i c hc).mp hrole

omit [Sdp S] in
/-- What a step of the server writes to the host is to be received last. -/
theorem Sound.unread_serve {e : Server.Event S} {server : Server S} {taken : Nat} (hinv : Sound n)
    (hstep : (Server.machine S).step n.server e = some server) (hconn : n.conn = some i)
    (hlive : server.Live i) :
    ({ n with server, taken } : Signaling S).unread = n.unread ++ n.server.writesTo e i := by
  obtain ⟨c, hc, hread⟩ := hinv.conn i hconn
  obtain ⟨c', hc', hdelivered⟩ := Server.exists_delivered hstep hc hlive
  rw [unread_eq hconn hc, unread_eq (n := { n with server, taken }) hconn hc', hdelivered,
    List.drop_append_of_le_length hread]

omit [TurnMac] [Sdp S] in
theorem unread_received {message : SignalMessage S} {rest : List (SignalMessage S)} {host : Host S}
    (hunread : n.unread = message :: rest) :
    ({ n with host, read := n.read + 1 } : Signaling S).unread = rest := by
  obtain ⟨i, c, hconn, hc, hdrop⟩ := exists_of_unread hunread
  rw [unread_eq (n := { n with host, read := n.read + 1 }) hconn hc, ← List.drop_drop, hdrop]
  rfl

/-! ## The invariant -/

/-- The viewer, registered when the host had made `k` offers, is about to get a
new offer, or gets the last one. -/
def Served (n : Signaling S) (k : Nat) (v : Conn) : Prop :=
  .viewerJoined ∈ n.unread ∨ n.host.point.Joining ∨
    k < n.host.offers.length ∧
      (n.taken = n.host.offers.length → n.server.lastOffer v = n.host.offers.getLast?)

/-- The step is not a `start_session` that fails. -/
def Starts (n : Signaling S) (e : Event S) : Prop :=
  ∀ o, e = .host (.resume o) → n.host.point = .start → o.started.isSome

instance [DecidableEq S] (n : Signaling S) (e : Event S) : Decidable (Starts n e) :=
  decidable_of_iff ((match e with
    | .host (.resume o) => n.host.point ≠ .start || o.started.isSome
    | _ => true) = true) (by
      unfold Starts
      split
      · next o => simp [or_iff_not_imp_left]
      · next hother => simpa using fun o heq => absurd heq (hother o))

omit [Sdp S] in
/-- A step of the server without the host keeps a viewer served. -/
theorem Served.serve {e : Server.Event S} {server : Server S} (hinv : Sound n)
    (hviewers : viewersOnly n.clock e) (hstep : (Server.machine S).step n.server e = some server)
    (hhost : n.server.hub.host = some i) (hviewer : n.server.hub.viewer = some v)
    (hlive : server.Live i) (hliveViewer : server.Live v) (h : n.Served k v) :
    ({ n with server } : Signaling S).Served k v := by
  rcases h with hjoined | hjoining | ⟨hk, hlast⟩
  · refine .inl ?_
    rw [hinv.unread_serve hstep (hinv.conn_of_slot hhost) hlive]
    exact List.mem_append_left _ hjoined
  · exact .inr (.inl hjoining)
  · refine .inr (.inr ⟨hk, fun htaken => ?_⟩)
    obtain ⟨c, hc, -⟩ := hinv.server.placed .viewer v hviewer
    rw [Server.lastOffer_step hstep hc hliveViewer,
      Server.offered_writesTo hinv.server hviewer hviewers]
    exact hlast htaken

omit [Sdp S] in
/-- A relayed offer is delivered to the viewer in the slot. -/
theorem Served.relay {ok : Write S → Bool} {conn : Conn} {offer : S} {session : UInt32}
    {server : Server S} (hinv : Sound n) (hmade : n.host.offers[n.taken]? = some (offer, session))
    (hstep : (Server.machine S).step n.server (.relay .host conn (.offer offer session) ok) =
      some server)
    (hhost : n.server.hub.host = some i) (hviewer : n.server.hub.viewer = some v)
    (hlive : server.Live i) (hliveViewer : server.Live v) (h : n.Served k v) :
    ({ n with server, taken := n.taken + 1 } : Signaling S).Served k v := by
  rcases h with hjoined | hjoining | ⟨hk, -⟩
  · refine .inl ?_
    rw [hinv.unread_serve hstep (hinv.conn_of_slot hhost) hlive]
    exact List.mem_append_left _ hjoined
  · exact .inr (.inl hjoining)
  · refine .inr (.inr ⟨hk, fun htaken => ?_⟩)
    obtain ⟨c, hc, -⟩ := hinv.server.placed .viewer v hviewer
    have hwrites : n.server.writesTo (.relay .host conn (.offer offer session) ok) v =
        [.offer offer session] := by
      simp [Server.writesTo, Server.writes, Hub.relay, hviewer]
    have hlast : n.host.offers.getLast? = some (offer, session) := by
      rw [List.getLast?_eq_getElem?, ← hmade]
      congr 1
      exact (Nat.eq_sub_of_add_eq htaken).symm
    rw [Server.lastOffer_step hstep hc hliveViewer, hwrites]
    exact hlast.symm

/-- A message the host receives is one that was to be received. -/
theorem Served.receive {message : SignalMessage S} {rest : List (SignalMessage S)} {host : Host S}
    (hinv : Sound n) (hunread : n.unread = message :: rest)
    (hstep : (Host.machine S).step n.host (.recv message) = some host) (h : n.Served k v) :
    ({ n with host, read := n.read + 1 } : Signaling S).Served k v := by
  have hidles : Host.Idles n.host host := by
    rcases (Host.step_of_eq hstep).idles_or_starts with hidles | ⟨o, heq, -⟩
    · exact hidles
    · contradiction
  rcases h with hjoined | hjoining | ⟨hk, hlast⟩
  · rw [hunread] at hjoined
    rcases List.mem_cons.mp hjoined with rfl | hrest
    · exact .inr (.inl (Host.joining_of_recv hstep (hinv.received hunread hstep)))
    · refine .inl ?_
      rwa [unread_received hunread]
  · exact .inr (.inl (hidles.joining hjoining))
  · refine .inr (.inr ?_)
    rw [hidles.offers]
    exact ⟨hk, hlast⟩

/-- Any other step of the host: an offer it makes is a new one. -/
theorem Served.move {e : Host.Event S} {host : Host S} (hinv : Sound n)
    (hstep : (Host.machine S).step n.host e = some host) (hstarts : Starts n (.host e))
    (hk : k ≤ n.host.offers.length) (h : n.Served k v) :
    ({ n with host } : Signaling S).Served k v := by
  rcases (Host.step_of_eq hstep).idles_or_starts with hidles | ⟨o, rfl, hstart⟩
  · rcases h with hjoined | hjoining | hlast
    · exact .inl hjoined
    · exact .inr (.inl (hidles.joining hjoining))
    · refine .inr (.inr ?_)
      rw [hidles.offers]
      exact hlast
  · obtain ⟨offer, hoffer⟩ := Option.isSome_iff_exists.mp (hstarts o rfl hstart.point)
    have hlength : host.offers.length = n.host.offers.length + 1 := by
      rw [hstart.offers, hoffer]
      simp
    have htaken := hinv.taken
    refine .inr (.inr ⟨?_, fun heq => ?_⟩)
    · rw [hlength]
      omega
    · have heq : n.taken = host.offers.length := heq
      omega

/-- **One step** keeps the viewer in the slot served. -/
theorem Step.keeps_served {e : Event S} (hstep : Step n e n') (hinv : Sound n)
    (hstarts : Starts n e)
    (hk : k ≤ n.host.offers.length) (hhost : n.server.hub.host = some i)
    (hviewer : n.server.hub.viewer = some v) (hlive : n'.server.Live i)
    (hliveViewer : n'.server.Live v) (h : n.Served k v) : n'.Served k v := by
  cases hstep with
  | waited => exact h
  | refused => exact h
  | accepted token upgraded server hconn =>
      rw [hinv.conn_of_slot hhost] at hconn
      contradiction
  | served e server hviewers hstep =>
      exact h.serve hinv hviewers hstep hhost hviewer hlive hliveViewer
  | relayed ok conn offer session server hmade hstep =>
      exact h.relay hinv hmade hstep hhost hviewer hlive hliveViewer
  | received message rest host hunread hstep => exact h.receive hinv hunread hstep
  | moved e host _ hstep => exact h.move hinv hstep hstarts hk

/-! ## Every run -/

/-- The viewer is registered when the host has made `k` offers. -/
def Registers (v : Conn) (k : Nat) (n : Signaling S) (e : Event S) : Prop :=
  (∃ now ok, e = .server (.register .viewer v now ok)) ∧ n.host.offers.length = k

/-- The server makes a step or does not take part. -/
theorem Step.server {e : Event S} (hstep : Step n e n') : n'.server = n.server ∨
    ∃ e', (Server.machine S).step n.server e' = some n'.server ∧
      ∀ role conn now ok, e' = .register role conn now ok →
        e = .server e' ∧ n' = { n with server := n'.server } := by
  cases hstep with
  | waited | refused | received | moved => exact .inl rfl
  | accepted token upgraded server hconn hstep => exact .inr ⟨_, hstep, by simp⟩
  | served e server hviewers hstep => exact .inr ⟨e, hstep, fun _ _ _ _ _ => ⟨rfl, rfl⟩⟩
  | relayed ok conn offer session server hmade hstep => exact .inr ⟨_, hstep, by simp⟩

/-- Offers are kept. -/
theorem Step.offers_grow {e : Event S} (hstep : Step n e n') :
    n.host.offers <+: n'.host.offers := by
  cases hstep with
  | waited | refused | accepted | served | relayed => exact List.prefix_rfl
  | received message rest host _ hstep => exact (Host.step_of_eq hstep).offers_grow
  | moved e host _ hstep => exact (Host.step_of_eq hstep).offers_grow

/-- The viewer in the slot was registered when the host had made some number of
offers, and is served since. -/
def SlotServed (n₀ : Signaling S) (es : List (Event S)) (n : Signaling S) : Prop :=
  ∀ v, n.server.hub.viewer = some v → ∃ k ≤ n.host.offers.length,
    (machine S).Occurs n₀ es (Registers v k) ∧
      ∀ i, n.server.hub.host = some i → n.server.Live i → n.server.Live v → n.Served k v

omit [Sdp S] in
/-- A registration that leaves both slots filled has the host make an offer. -/
theorem served_of_register {role : Role} {conn : Conn} {now : Nat} {ok : Write S → Bool}
    (hinv : Sound n) (hinv' : Sound n')
    (hstep : (Server.machine S).step n.server (.register role conn now ok) = some n'.server)
    (heq : n' = { n with server := n'.server }) (hhost : n'.server.hub.host = some i)
    (hviewer : n'.server.hub.viewer = some v) (hlive : n'.server.Live i) : n'.Served k v := by
  have hconn : n.conn = some i := by
    rw [← hinv'.conn_of_slot hhost, heq]
  refine .inl ?_
  rw [heq, hinv.unread_serve hstep hconn hlive]
  exact List.mem_append_right _ (Server.viewerJoined_mem_writesTo hstep hhost hviewer)

/-- **One step** keeps the slot served. -/
theorem SlotServed.step {n₀ : Signaling S} {es : List (Event S)} {e : Event S}
    (hrun : (machine S).Run n₀ es n) (hinv : Sound n) (h : SlotServed n₀ es n)
    (hstep : Step n e n') (hstarts : Starts n e) : SlotServed n₀ (es ++ [e]) n' := by
  have hprefix := hstep.offers_grow.length_le
  intro v hviewer
  rcases hstep.server with hsame | ⟨e', hserver, hregister⟩
  · rw [hsame] at hviewer
    obtain ⟨k, hk, hoccurs, hserved⟩ := h v hviewer
    refine ⟨k, hk.trans hprefix, hoccurs.append, fun i hhost hlive hliveViewer => ?_⟩
    rw [hsame] at hhost
    refine hstep.keeps_served hinv hstarts hk hhost hviewer hlive hliveViewer ?_
    rw [hsame] at hlive hliveViewer
    exact hserved i hhost hlive hliveViewer
  · have hslot : n'.server.hub.slot .viewer = some v := hviewer
    rcases Server.slot_cause hinv.server hserver hslot with ⟨hkept, -⟩ | ⟨now, ok, rfl⟩
    · obtain ⟨k, hk, hoccurs, hserved⟩ := h v hkept
      refine ⟨k, hk.trans hprefix, hoccurs.append, fun i hhost hlive hliveViewer => ?_⟩
      have hslot : n'.server.hub.slot .host = some i := hhost
      rcases Server.slot_cause hinv.server hserver hslot with ⟨hhost, -⟩ | ⟨now, ok, rfl⟩
      · obtain ⟨c, hc, -⟩ := hinv.server.placed .host i hhost
        obtain ⟨d, hd, -⟩ := hinv.server.placed .viewer v hkept
        exact hstep.keeps_served hinv hstarts hk hhost hkept hlive hliveViewer <|
          hserved i hhost (Server.live_of_step hserver hc hlive)
            (Server.live_of_step hserver hd hliveViewer)
      · obtain ⟨-, heq⟩ := hregister _ _ _ _ rfl
        exact served_of_register hinv (hstep.sound hinv) hserver heq hhost hviewer hlive
    · obtain ⟨rfl, heq⟩ := hregister _ _ _ _ rfl
      have hoccurs : (machine S).Occurs n₀ (es ++ [_]) (Registers v n.host.offers.length) :=
        (occurs_snoc hrun).mpr (.inr ⟨⟨now, ok, rfl⟩, rfl⟩)
      exact ⟨_, hprefix, hoccurs, fun i hhost hlive _ =>
        served_of_register hinv (hstep.sound hinv) hserver heq hhost hviewer hlive⟩

/-- The offer made last is for the current session number, but where the next one
is about to be made. -/
def Current (n : Signaling S) : Prop :=
  n.host.point ≠ .start → ∀ offer ∈ n.host.offers.getLast?, offer.2 = n.host.session

theorem Current.step {e : Event S} (h : Current n) (hstep : Step n e n') (hstarts : Starts n e) :
    Current n' := by
  have hmove : ∀ {e : Host.Event S} {host : Host S}, (Host.machine S).step n.host e = some host →
      (∀ o, e = .resume o → n.host.point = .start → o.started.isSome) →
      host.point ≠ .start → ∀ offer ∈ host.offers.getLast?, offer.2 = host.session := by
    intro e host hstep hstarts hpoint offer hoffer
    rcases (Host.step_of_eq hstep).idles_or_starts with hidles | ⟨o, rfl, hstart⟩
    · obtain ⟨hpoint', hsession⟩ := hidles.session hpoint
      rw [hidles.offers] at hoffer
      rw [hsession]
      exact h hpoint' offer hoffer
    · obtain ⟨made, hmade⟩ := Option.isSome_iff_exists.mp (hstarts o rfl hstart.point)
      rw [hstart.offers, hmade] at hoffer
      simp only [Option.toList_some, List.map_cons, List.map_nil, List.getLast?_concat,
        Option.mem_some_iff] at hoffer
      rw [← hoffer, hstart.session]
  cases hstep with
  | waited | refused | accepted | served | relayed => exact h
  | received message rest host _ hstep => exact hmove hstep (by simp)
  | moved e host _ hstep => exact hmove hstep fun o heq => hstarts o (by rw [heq])

/-- Nothing is on its way and the host waits. -/
structure Quiescent (n : Signaling S) : Prop where
  waits : n.host.point = .config ∨ n.host.point = .head
  unread : n.unread = []
  taken : n.taken = n.host.offers.length

/-- **No connected viewer is left without an offer.**  When nothing is on its way
and both slots are filled, the last offer delivered to the viewer is the one made
last, for the current session, and it was made after the viewer was registered. -/
theorem lastOffer_of_quiescent {token turnHost turnSecret key hostFp : Text}
    {paired : PairedDevices} {es : List (Event S)}
    (hrun : (machine S).Run (init token turnHost turnSecret key hostFp paired) es n)
    (hstarts : (machine S).Along (init token turnHost turnSecret key hostFp paired) es Starts)
    (hquiet : n.Quiescent) (hhost : n.server.hub.host = some i)
    (hviewer : n.server.hub.viewer = some v) (hlive : n.server.Live i)
    (hliveViewer : n.server.Live v) :
    ∃ offer, n.host.offers.getLast? = some (offer, n.host.session) ∧
      n.server.lastOffer v = some (offer, n.host.session) ∧
      ∃ k < n.host.offers.length, (machine S).Occurs
        (init token turnHost turnSecret key hostFp paired) es (Registers v k) := by
  have hinv : Sound n ∧ SlotServed (init token turnHost turnSecret key hostFp paired) es n ∧
      Current n := by
    refine hrun.rec_snoc (P := fun es n =>
      (machine S).Along (init token turnHost turnSecret key hostFp paired) es Starts → Sound n ∧
        SlotServed (init token turnHost turnSecret key hostFp paired) es n ∧ Current n)
      (fun _ => ⟨sound_init token turnHost turnSecret key hostFp paired, ?_, ?_⟩) ?_ hstarts
    · intro v hv
      contradiction
    · intro _ offer hoffer
      simp [init, Host.init] at hoffer
    · intro es e n n' hrun ih hstep hstarts
      obtain ⟨hes, he⟩ := (along_snoc hrun).mp hstarts
      obtain ⟨hinv, hserved, hcurrent⟩ := ih hes
      have hstep := step_of_eq hstep
      exact ⟨hstep.sound hinv, hserved.step hrun hinv hstep he, hcurrent.step hstep he⟩
  obtain ⟨-, hserved, hcurrent⟩ := hinv
  obtain ⟨k, -, hoccurs, hserved⟩ := hserved v hviewer
  rcases hserved i hhost hlive hliveViewer with hjoined | hjoining | ⟨hk, hlast⟩
  · rw [hquiet.unread] at hjoined
    contradiction
  · rcases hquiet.waits with hpoint | hpoint <;> rw [hpoint] at hjoining <;> contradiction
  · obtain ⟨⟨offer, session⟩, hoffer⟩ := Option.isSome_iff_exists.mp
      (List.getLast?_isSome.mpr (List.ne_nil_of_length_pos (Nat.zero_lt_of_lt hk)))
    have hpoint : n.host.point ≠ .start := by
      rcases hquiet.waits with hpoint | hpoint <;> simp [hpoint]
    obtain rfl : session = n.host.session := hcurrent hpoint _ hoffer
    exact ⟨offer, hoffer, (hlast hquiet.taken).trans hoffer, k, hk, hoccurs⟩

omit [TurnMac] [Sdp S] in
/-- `lastOffer_of_quiescent` for a page that is reloaded while the host makes the
first offer, which the new page gets as well, and then one of its own. -/
theorem lastOffer_of_quiescent_reload :
    letI : TurnMac := ⟨fun _ _ => []⟩
    ∃ es n, (machine Text).Run (init [] [] [] [] [] ⟨[], ⟨none, none⟩⟩) es n ∧
      ∃ offer k, n.server.lastOffer 2 = some (offer, n.host.session) ∧
        k < n.host.offers.length ∧ (machine Text).Occurs
          (init [] [] [] [] [] ⟨[], ⟨none, none⟩⟩) es (Registers 2 k) := by
  let _ : TurnMac := ⟨fun _ _ => []⟩
  let es : List (Event Text) :=
    [.dial [] true, .server (.register .host 0 0 Server.allOk), .hostRecv,
      .server (.request (text "viewer") [] true), .server (.register .viewer 1 0 Server.allOk),
      .hostRecv, .host Host.goOn, .server (.request (text "viewer") [] true),
      .server (.register .viewer 2 0 Server.allOk), .host (Host.startWith (text "offer")),
      .relayOffer Server.allOk, .hostRecv, .host Host.goOn, .host Host.goOn,
      .host (Host.startWith (text "another offer")), .relayOffer Server.allOk]
  have hstarts : (machine Text).Along (init [] [] [] [] [] ⟨[], ⟨none, none⟩⟩) es Starts := by
    decide +kernel
  obtain ⟨n, hrun, hend⟩ := exists_run (machine Text) (init [] [] [] [] [] ⟨[], ⟨none, none⟩⟩) es
    (fun n => (n.host.point = .head ∧ n.unread = [] ∧ n.taken = n.host.offers.length) ∧
      n.server.hub = ⟨some 0, some 2⟩ ∧ n.server.Live 0 ∧ n.server.Live 2) (by decide +kernel)
  obtain ⟨⟨hpoint, hunread, htaken⟩, hhub, hlive, hliveViewer⟩ := of_decide_eq_true hend
  obtain ⟨offer, -, hlast, k, hk, hoccurs⟩ := lastOffer_of_quiescent hrun hstarts
    ⟨.inr hpoint, hunread, htaken⟩ (by rw [hhub]) (by rw [hhub]) hlive hliveViewer
  exact ⟨es, n, hrun, offer, k, hlast, hk, hoccurs⟩

end Signaling

end RemoteBridge
