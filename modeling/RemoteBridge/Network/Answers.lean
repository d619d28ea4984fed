import RemoteBridge.Network.Steps
import RemoteBridge.Sessions.Offers
import RemoteBridge.Sessions.Approval

/-!
# Network.Answers

Which offer an applied answer was made from.  A host process tells its sessions
apart by a number that starts again with each process, so an answer meets the
offer it was made from as long as no other offer or answer with the number of an
offer is under way when it is made.
-/

namespace RemoteBridge

open Unicode

/-! ## Messages under way -/

/-- The session number of an offer or an answer. -/
def numberOf : Message → Option UInt32
  | .offer _ session | .answer _ session => some session
  | .config _ | .viewerJoined => none

/-- A message at this client is under way: sent and still to be read by the hub,
written and still to be received, or an offer a call would still answer. -/
def Client.Carries (c : Client) (m : Message) : Prop :=
  (c.handler ≠ .done ∧ m ∈ c.sent) ∨ (c.alive ∧ m ∈ c.inbox) ∨
    (c.alive ∧ ∃ v offer session, c.party = .viewer v ∧ v.Live offer session ∧
      m = .offer offer session)

/-- No offer and no answer with this number is under way at this client. -/
def Client.Clear (c : Client) (session : UInt32) : Prop :=
  (c.handler ≠ .done → ∀ m ∈ c.sent, numberOf m ≠ some session) ∧
    (c.alive → (∀ m ∈ c.inbox, numberOf m ≠ some session) ∧
      match c.party with
      | .viewer v => ∀ call ∈ v.calls, v.pc = some call.peer → call.session ≠ session
      | .host _ => True)

namespace Network

/-- A message is under way at one of the clients. -/
def UnderWay (clients : List Client) (m : Message) : Prop :=
  ∃ (i : Conn) (c : Client), clients[i]? = some c ∧ c.Carries m

theorem underWay_set {clients : List Client} {i : Conn} {c : Client} {m : Message}
    (hm : UnderWay (clients.set i c) m) : UnderWay clients m ∨ c.Carries m := by
  obtain ⟨j, d, hd, hcarries⟩ := hm
  by_cases hij : i = j
  · rw [List.getElem?_set, if_pos hij] at hd
    split at hd
    · exact .inr (Option.some.inj hd ▸ hcarries)
    · contradiction
  · rw [List.getElem?_set_ne hij] at hd
    exact .inl ⟨j, d, hd, hcarries⟩

theorem underWay_concat {clients : List Client} {c : Client} {m : Message}
    (hm : UnderWay (clients ++ [c]) m) : UnderWay clients m ∨ c.Carries m := by
  obtain ⟨j, d, hd, hcarries⟩ := hm
  rw [List.getElem?_append] at hd
  split at hd
  · exact .inl ⟨j, d, hd, hcarries⟩
  · rw [List.getElem?_singleton] at hd
    split at hd
    · exact .inr (Option.some.inj hd ▸ hcarries)
    · contradiction

theorem underWay_deliver {clients : List Client} {writes : List (Conn × Message)} {m : Message}
    (hm : UnderWay (deliver clients writes) m) :
    UnderWay clients m ∨ ∃ w ∈ writes, w.2 = m := by
  obtain ⟨i, d, hd, hcarries⟩ := hm
  rw [getElem?_deliver] at hd
  obtain ⟨c, hc, rfl⟩ := Option.map_eq_some_iff.mp hd
  rcases hcarries with hsent | ⟨halive, hinbox⟩ | hlive
  · exact .inl ⟨i, c, hc, .inl hsent⟩
  · rcases List.mem_append.mp hinbox with hinbox | hwrite
    · exact .inl ⟨i, c, hc, .inr (.inl ⟨halive, hinbox⟩)⟩
    · obtain ⟨w, hw, hm⟩ := List.mem_filterMap.mp hwrite
      split at hm
      · exact .inr ⟨w, hw, Option.some.inj hm⟩
      · contradiction
  · exact .inl ⟨i, c, hc, .inr (.inr hlive)⟩

/-! ## Offers and their hosts -/

/-- If the message has the number of the current connection's session, it is that
connection's offer or an answer to it. -/
def Fits (h : Host Desc) (m : Message) : Prop :=
  ∀ pc, h.current = some pc → numberOf m = some h.session →
    ∃ offer, Host.offerOf h.pcs pc = some (offer, h.session) ∧
      (m = .offer offer h.session ∨ ∃ text, m = .answer (.answer text offer) h.session)

theorem fits_of_number_ne {h : Host Desc} {m : Message} (hm : numberOf m ≠ some h.session) :
    Fits h m := by
  intro pc _ hnumber
  exact absurd hnumber hm

/-- An answer fits where its offer does. -/
theorem Fits.answer {h : Host Desc} {offer : Desc} {session : UInt32} {text : Text}
    (hfits : Fits h (.offer offer session)) : Fits h (.answer (.answer text offer) session) := by
  intro pc hcurrent hnumber
  obtain ⟨offer', hoffer, heq | ⟨_, heq⟩⟩ := hfits pc hcurrent hnumber
  · obtain ⟨rfl, rfl⟩ := SignalMessage.offer.inj heq
    exact ⟨offer, hoffer, .inr ⟨text, rfl⟩⟩
  · contradiction

/-- What fits does so until the host makes its next offer. -/
theorem Fits.keeps {h h' : Host Desc} {m : Message} (hfits : Fits h m)
    (hkeeps : Host.Keeps h h') : Fits h' m := by
  intro pc hpc hnumber
  obtain ⟨hcurrent, hsession⟩ := hkeeps.current pc hpc
  rw [hsession] at hnumber ⊢
  rw [hkeeps.offerOf]
  exact hfits pc hcurrent hnumber

/-- What a host sends fits. -/
theorem fits_sentOffers {h h' : Host Desc} {e : Host.Event Desc} {m : Message}
    (hconn : Host.Connected h) (hstep : Host.Step h e h') (hm : m ∈ sentOffers h h') :
    Fits h' m := by
  rcases hstep.keeps_or_makes hconn with hkeeps | ⟨offer, hmakes⟩
  · simp [sentOffers, hkeeps.offers] at hm
  · rw [sentOffers, hmakes.offers, List.drop_left] at hm
    rw [List.mem_singleton.mp hm]
    intro pc hpc _
    obtain rfl := Option.some.inj (hpc.symm.trans hmakes.current)
    rw [hmakes.offerOf, if_pos rfl, hmakes.session]
    exact ⟨offer, rfl, .inl rfl⟩

/-- What holds of the host in connection `i`: its invariants, its offers are its
own, and the answers it holds fit. -/
structure HostOk (i : Conn) (h : Host Desc) : Prop where
  connected : Host.Connected h
  waits : Host.Waits h
  own : ∀ pc offer session, Host.offerOf h.pcs pc = some (offer, session) →
    ∃ text, offer = .offer text i pc
  held : ∀ sdp session, Host.Holds h sdp session → Fits h (.answer sdp session)

theorem hostOk_init (i : Conn) (key hostFp : Text) (paired : PairedDevices) :
    HostOk i (.init key hostFp paired) where
  connected := Host.connected_init ..
  waits := Host.waits_init ..
  own := by simp [Host.init, Host.offerOf]
  held := by simp [Host.init, Host.Holds]

/-- The host keeps this in a step in which what it makes is its own and what it
receives fits. -/
theorem HostOk.step {i : Conn} {h h' : Host Desc} {e : Host.Event Desc} (hok : HostOk i h)
    (hstep : Host.Step h e h')
    (hmakes : ∀ o offer, e = .resume o → o.started = some offer →
      ∃ text, offer = .offer text i h.pcs.length)
    (hreceives : ∀ m, e = .recv m → Fits h m) : HostOk i h' where
  connected := hstep.connected hok.connected
  waits := hstep.waits hok.waits
  own := by
    intro pc offer session hpc
    rcases hstep.keeps_or_makes hok.connected with hkeeps | ⟨offer', hmade⟩
    · exact hok.own pc offer session ((hkeeps.offerOf pc).symm.trans hpc)
    · rw [hmade.offerOf] at hpc
      split at hpc
      · next hlength =>
        obtain ⟨rfl, -⟩ := Prod.ext_iff.mp (Option.some.inj hpc)
        obtain ⟨o, he, hstarted⟩ := hmade.started
        rw [hlength]
        exact hmakes o _ he hstarted
      · exact hok.own pc offer session hpc
  held := by
    intro sdp session hholds
    have hbefore := hstep.holds hok.waits.point hholds
    rcases hstep.keeps_or_makes hok.connected with hkeeps | ⟨offer, hmade⟩
    · rcases hbefore with hholds | ⟨-, rfl⟩
      · exact (hok.held sdp session hholds).keeps hkeeps
      · exact (hreceives _ rfl).keeps hkeeps
    · -- no answer is held before `start_session`
      have hwaiting := hok.waits.point
      rw [hmade.point] at hwaiting
      have hnone : h.waiting = none := hwaiting
      rcases hbefore with hholds | ⟨hhead, -⟩
      · simp [Host.Holds, hmade.point, hnone] at hholds
      · simp [hmade.point] at hhead

section

variable [FinalSigma] {n n' : Network} {e : Event}

/-! ## What puts a message under way -/

/-- A page sends this answer, which it made from the offer it received with this
session. -/
def Creates (answer : Desc) (session : UInt32) (n : Network) (e : Event) : Prop :=
  ∃ (i : Conn) (k : Nat) (text : Text) (c : Client) (v : Viewer) (call : Call),
    e = .goOn i k (some text) ∧ n.clients[i]? = some c ∧ c.alive ∧ c.party = .viewer v ∧
    v.calls[k]? = some call ∧ v.pc = some call.peer ∧ call.gathering ∧
    answer = .answer text call.offer ∧ session = call.session

/-- What puts a message under way: the hub, a page that answers an offer under
way, or a host that makes an offer. -/
inductive Sends (n n' : Network) : Event → Message → Prop
  | hub (e : Event) (m : Message) (own : numberOf m = none) : Sends n n' e m
  | answer (e : Event) (text : Text) (offer : Desc) (session : UInt32)
      (underWay : UnderWay n.clients (.offer offer session))
      (creates : Creates (.answer text offer) session n e) :
      Sends n n' e (.answer (.answer text offer) session)
  | offer (i : Conn) (move : HostMove) (c c' : Client) (h h' : Host Desc) (m : Message)
      (client : n.clients[i]? = some c) (party : c.party = .host h) (alive : c.alive)
      (client' : n'.clients[i]? = some c') (party' : c'.party = .host h')
      (step : Host.Step h (move.event i h) h') (sent : m ∈ sentOffers h h') :
      Sends n n' (.hostMove i move) m

/-- A message that is under way was under way before the step, or is put there by
it. -/
theorem Step.underWay {m : Message} (hstep : Step n e n')
    (hmade : ∀ (i : Conn) (c : Client) (v : Viewer), n.clients[i]? = some c →
      c.party = .viewer v → v.Made)
    (hm : UnderWay n'.clients m) : UnderWay n.clients m ∨ Sends n n' e m := by
  cases hstep with
  | startHost key hostFp paired hone =>
      rcases underWay_concat hm with hm | ⟨-, hm⟩ | ⟨-, hm⟩ | ⟨-, v, -, -, hparty, -⟩
      · exact .inl hm
      · simp at hm
      · simp at hm
      · simp at hparty
  | openPage =>
      rcases underWay_concat hm with
        hm | ⟨-, hm⟩ | ⟨-, hm⟩ | ⟨-, v, offer, session, hparty, hlive, -⟩
      · exact .inl hm
      · simp at hm
      · simp at hm
      · obtain rfl := Party.viewer.inj hparty
        simp [Viewer.Live, Viewer.init] at hlive
  | exit i c hc =>
      rcases underWay_set hm with hm | hsent | ⟨halive, -⟩ | ⟨halive, -⟩
      · exact .inl hm
      · exact .inl ⟨i, c, hc, .inl hsent⟩
      · simp at halive
      · simp at halive
  | register i iceServers c hc hhandler =>
      rcases underWay_deliver hm with hm | ⟨w, hw, rfl⟩
      · rcases underWay_set hm with hm | ⟨-, hsent⟩ | hm
        · exact .inl hm
        · exact .inl ⟨i, c, hc, .inl ⟨by simp [hhandler], hsent⟩⟩
        · exact .inl ⟨i, c, hc, .inr hm⟩
      · refine .inr (.hub _ _ ?_)
        rcases Hub.mem_register hw with heq | heq <;> rw [heq] <;> rfl
  | relay i c message sent hc hhandler hnext =>
      have hfirst : UnderWay n.clients message :=
        ⟨i, c, hc, .inl ⟨by simp [hhandler], by simp [hnext]⟩⟩
      rcases underWay_deliver hm with hm | ⟨w, hw, rfl⟩
      · rcases underWay_set hm with hm | ⟨-, hsent⟩ | hm
        · exact .inl hm
        · exact .inl ⟨i, c, hc, .inl ⟨by simp [hhandler], by simp [hnext, hsent]⟩⟩
        · exact .inl ⟨i, c, hc, .inr hm⟩
      · rw [Hub.mem_relay hw]
        exact .inl hfirst
  | unregister i c hc hhandler =>
      rcases underWay_set hm with hm | ⟨hdone, -⟩ | hm
      · exact .inl hm
      · simp at hdone
      · exact .inl ⟨i, c, hc, .inr hm⟩
  | hostRecv i c h h' message inbox hc hparty halive hnext hh =>
      rcases underWay_set hm with hm | hsent | ⟨-, hinbox⟩ | ⟨-, v, -, -, hviewer, -⟩
      · exact .inl hm
      · exact .inl ⟨i, c, hc, .inl hsent⟩
      · exact .inl ⟨i, c, hc, .inr (.inl ⟨halive, by simp [hnext, hinbox]⟩)⟩
      · simp at hviewer
  | hostMove i move c h h' hc hparty halive hh =>
      rcases underWay_set hm with hm | ⟨hhandler, hsent⟩ | hinbox | ⟨-, v, -, -, hviewer, -⟩
      · exact .inl hm
      · rcases List.mem_append.mp hsent with hsent | hsent
        · exact .inl ⟨i, c, hc, .inl ⟨hhandler, hsent⟩⟩
        · have hset := List.getElem?_set_self
            (a := { c with party := .host h', sent := c.sent ++ sentOffers h h' })
            (List.getElem?_eq_some_iff.mp hc).1
          exact .inr (.offer i move c _ h h' m hc hparty halive hset rfl hh hsent)
      · exact .inl ⟨i, c, hc, .inr (.inl hinbox)⟩
      · simp at hviewer
  | onmessage i savedFp created c v message inbox hc hparty halive hnext =>
      have hfirst : UnderWay n.clients message :=
        ⟨i, c, hc, .inr (.inl ⟨halive, by simp [hnext]⟩)⟩
      rcases underWay_set hm with hm | hsent | ⟨-, hinbox⟩ | ⟨-, v', offer, s, hviewer, hlive, rfl⟩
      · exact .inl hm
      · exact .inl ⟨i, c, hc, .inl hsent⟩
      · exact .inl ⟨i, c, hc, .inr (.inl ⟨halive, by simp [hnext, hinbox]⟩)⟩
      · obtain rfl := Party.viewer.inj hviewer
        rcases Viewer.live_onmessage (hmade i c v hc hparty) hlive with hlive | rfl
        · exact .inl ⟨i, c, hc, .inr (.inr ⟨halive, v, offer, s, hparty, hlive, rfl⟩)⟩
        · exact .inl hfirst
  | goOn i call description c v v' sent hc hparty halive hv =>
      rcases underWay_set hm with
        hm | ⟨hhandler, hsent⟩ | hinbox | ⟨-, v₁, offer, s, hviewer, hlive, rfl⟩
      · exact .inl hm
      · rcases List.mem_append.mp hsent with hsent | hsent
        · exact .inl ⟨i, c, hc, .inl ⟨hhandler, hsent⟩⟩
        · obtain ⟨text, waiting, rfl, hcall, hpc, hgathering, rfl⟩ := Viewer.sent_goOn hv hsent
          have hlive : v.Live waiting.offer waiting.session :=
            ⟨waiting, List.mem_of_getElem? hcall, hpc, rfl, rfl⟩
          exact .inr (.answer _ text _ _
            ⟨i, c, hc, .inr (.inr ⟨halive, v, _, _, hparty, hlive, rfl⟩)⟩
            ⟨i, call, text, c, v, waiting, rfl, hc, halive, hparty, hcall, hpc, hgathering, rfl,
              rfl⟩)
      · exact .inl ⟨i, c, hc, .inr (.inl hinbox)⟩
      · obtain rfl := Party.viewer.inj hviewer
        exact .inl ⟨i, c, hc, .inr (.inr ⟨halive, v, offer, s, hparty,
          Viewer.live_goOn hv hlive, rfl⟩)⟩

/-! ## The invariant -/

/-- If this client is a host at `start_session`, no offer and no answer with the
number of its session is under way. -/
def StartsClear (n : Network) (c : Client) : Prop :=
  match c.party with
  | .host h => h.point = .start → ∀ d ∈ n.clients, d.Clear h.session
  | .viewer _ => True

/-- `start_session` makes an offer only while no offer and no answer with its
number is under way. -/
def Orderly (n : Network) : Event → Prop
  | .hostMove i (.resume _ (some _) _) => ∀ c ∈ n.clients[i]?, StartsClear n c
  | _ => True

omit [FinalSigma] in
theorem number_ne_of_clear {m : Message} {session : UInt32}
    (hclear : ∀ c ∈ n.clients, c.Clear session) (hm : UnderWay n.clients m) :
    numberOf m ≠ some session := by
  obtain ⟨i, c, hc, hcarries⟩ := hm
  obtain ⟨hsent, hrest⟩ := hclear c (List.mem_of_getElem? hc)
  rcases hcarries with ⟨hhandler, hm⟩ | ⟨halive, hm⟩ | ⟨halive, v, offer, s, hparty, hlive, rfl⟩
  · exact hsent hhandler m hm
  · exact (hrest halive).1 m hm
  · obtain ⟨call, hcall, hpc, -, rfl⟩ := hlive
    have hcalls := (hrest halive).2
    rw [hparty] at hcalls
    simpa [numberOf] using hcalls call hcall hpc

/-- What every state of the network keeps to: each host's own invariants; one
host at a time; and the offers and answers under way fit the host that runs. -/
structure Inv (n : Network) : Prop where
  hosts : ∀ (i : Conn) (c : Client) (h : Host Desc), n.clients[i]? = some c →
    c.party = .host h → HostOk i h
  viewers : ∀ (i : Conn) (c : Client) (v : Viewer), n.clients[i]? = some c →
    c.party = .viewer v → v.Made
  one : ∀ (i j : Conn) (c d : Client), n.clients[i]? = some c → n.clients[j]? = some d →
    c.alive → d.alive → c.party.role = .host → d.party.role = .host → i = j
  fits : ∀ (i : Conn) (c : Client) (h : Host Desc), n.clients[i]? = some c → c.party = .host h →
    c.alive → ∀ m, UnderWay n.clients m → Fits h m

omit [FinalSigma] in
theorem inv_init : Inv init := by
  constructor <;> simp [init]

/-- Each host keeps its own invariants. -/
theorem Inv.hosts_step (hinv : Inv n) (hstep : Step n e n') (i : Conn) (d : Client)
    (h' : Host Desc) (hd : n'.clients[i]? = some d) (hparty : d.party = .host h') :
    HostOk i h' := by
  rcases hstep.follows hd with ⟨c, hc, hfollows⟩ | ⟨-, ⟨key, hostFp, paired, hnew, -⟩ | hnew⟩
  · rcases hfollows.host h' hparty with hparty | ⟨h, ev, hparty, halive, hh, hcause⟩
    · exact hinv.hosts i c h' hc hparty
    · have hok := hinv.hosts i c h hc hparty
      rcases hcause with ⟨move, rfl, rfl⟩ | ⟨m, rfl, hm, rfl⟩
      · refine hok.step hh ?_ ?_
        · intro o offer ho hstarted
          cases move with
          | resume io started wellFormed =>
              obtain rfl := Host.Event.resume.inj ho
              obtain ⟨text, -, rfl⟩ := Option.map_eq_some_iff.mp hstarted
              exact ⟨text, rfl⟩
          | _ => contradiction
        · intro m hm
          cases move <;> contradiction
      · refine hok.step hh ?_ ?_
        · intro o offer ho
          contradiction
        · rintro _ ⟨rfl⟩
          exact hinv.fits i c h hc hparty halive m ⟨i, c, hc, .inr (.inl ⟨halive, hm⟩)⟩
  · obtain rfl := Party.host.inj (hnew.symm.trans hparty)
    exact hostOk_init i key hostFp paired
  · rw [hnew] at hparty
    contradiction

/-- There is one running host: a new one is started when none runs. -/
theorem Inv.one_step (hinv : Inv n) (hstep : Step n e n') (i j : Conn) (c' d' : Client)
    (hc' : n'.clients[i]? = some c') (hd' : n'.clients[j]? = some d') (hc : c'.alive)
    (hd : d'.alive) (hchost : c'.party.role = .host) (hdhost : d'.party.role = .host) : i = j := by
  -- a client that is not new was a running host
  have hold : ∀ {i : Conn} {c c' : Client}, Follows e i c c' → c'.alive → c'.party.role = .host →
      c.alive ∧ c.party.role = .host :=
    fun hfollows halive hhost => ⟨hfollows.alive halive, hfollows.role.symm.trans hhost⟩
  rcases hstep.follows hc' with ⟨c, hcn, hcf⟩ | ⟨hi, hcnew⟩
  · obtain ⟨hca, hch⟩ := hold hcf hc hchost
    rcases hstep.follows hd' with ⟨d, hdn, hdf⟩ | ⟨-, hdnew⟩
    · obtain ⟨hda, hdh⟩ := hold hdf hd hdhost
      exact hinv.one i j c d hcn hdn hca hda hch hdh
    · rcases hdnew with ⟨-, -, -, -, hnone⟩ | hnew
      · exact absurd hch (hnone c (List.mem_of_getElem? hcn) hca)
      · simp [hnew, Party.role] at hdhost
  · rcases hstep.follows hd' with ⟨d, hdn, hdf⟩ | ⟨hj, -⟩
    · obtain ⟨hda, hdh⟩ := hold hdf hd hdhost
      rcases hcnew with ⟨-, -, -, -, hnone⟩ | hnew
      · exact absurd hdh (hnone d (List.mem_of_getElem? hdn) hda)
      · simp [hnew, Party.role] at hchost
    · exact hi.trans hj.symm

/-- What is under way fits the host that runs. -/
theorem Inv.fits_step (hinv : Inv n) (hstep : Step n e n') (horderly : Orderly n e) (i : Conn)
    (d : Client) (h' : Host Desc) (hd : n'.clients[i]? = some d) (hparty : d.party = .host h')
    (halive : d.alive) (m : Message) (hm : UnderWay n'.clients m) : Fits h' m := by
  rcases hstep.follows hd with ⟨c, hc, hfollows⟩ | ⟨-, ⟨key, hostFp, paired, hnew, -⟩ | hnew⟩
  · have hcalive := hfollows.alive halive
    -- what was under way fits after the step
    have hbefore : ∀ m, UnderWay n.clients m → Fits h' m := by
      intro m hm
      rcases hfollows.host h' hparty with hsame | ⟨h, ev, hchost, -, hh, hcause⟩
      · exact hinv.fits i c h' hc hsame hcalive m hm
      · rcases hh.keeps_or_makes (hinv.hosts i c h hc hchost).connected with hkeeps | ⟨offer, hmade⟩
        · exact (hinv.fits i c h hc hchost hcalive m hm).keeps hkeeps
        · obtain ⟨o, hev, hstarted⟩ := hmade.started
          refine fits_of_number_ne ?_
          rw [hmade.session]
          refine number_ne_of_clear ?_ hm
          rcases hcause with ⟨move, rfl, rfl⟩ | ⟨_, -, -, rfl⟩
          · cases move with
            | resume io started wellFormed =>
                obtain rfl := Host.Event.resume.inj hev
                obtain ⟨text, rfl, -⟩ := Option.map_eq_some_iff.mp hstarted
                have hclear := horderly c hc
                rw [StartsClear, hchost] at hclear
                exact hclear hmade.point
            | _ => contradiction
          · contradiction
    rcases hstep.underWay hinv.viewers hm with hm | hsends
    · exact hbefore m hm
    · cases hsends with
      | hub _ _ own => exact fits_of_number_ne (by simp [own])
      | answer _ text offer session hunder => exact (hbefore _ hunder).answer
      | offer j move cj dj hj hj' _ hcj hpj haj hdj hpj' hjstep hsent =>
          -- the host that sends is the one that runs
          have hrole : c.party.role = .host := by rw [← hfollows.role, hparty]; rfl
          obtain rfl := hinv.one j i cj c hcj hc haj hcalive (by rw [hpj]; rfl) hrole
          obtain rfl := Option.some.inj (hd.symm.trans hdj)
          obtain rfl := Party.host.inj (hparty.symm.trans hpj')
          exact fits_sentOffers (hinv.hosts j cj hj hcj hpj).connected hjstep hsent
  · obtain rfl := Party.host.inj (hnew.symm.trans hparty)
    intro pc hpc
    simp [Host.init] at hpc
  · simp [hnew] at hparty

/-- **One step** of an orderly run keeps the invariant. -/
theorem Step.inv (hstep : Step n e n') (hinv : Inv n) (horderly : Orderly n e) : Inv n' where
  hosts := hinv.hosts_step hstep
  viewers := by
    intro i d v' hd hparty
    rcases hstep.follows hd with ⟨c, hc, hfollows⟩ | ⟨-, ⟨key, hostFp, paired, hnew, -⟩ | hnew⟩
    · obtain ⟨v, hv, hmade⟩ := hfollows.viewer v' hparty
      exact hmade (hinv.viewers i c v hc hv)
    · simp [hnew] at hparty
    · obtain rfl := Party.viewer.inj (hnew.symm.trans hparty)
      simp [Viewer.Made, Viewer.init]
  one := hinv.one_step hstep
  fits := hinv.fits_step hstep horderly

/-! ## Every run -/

theorem inv_of_run {es : List Event} (hrun : machine.Run init es n)
    (horderly : machine.Along init es Orderly) : Inv n :=
  hrun.invariant_along horderly inv_init fun _ _ _ hinv horderly hstep =>
    (step_of_eq hstep).inv hinv horderly

/-- An answer is under way or held by a host. -/
def Present (n : Network) (answer : Desc) (session : UInt32) : Prop :=
  UnderWay n.clients (.answer answer session) ∨
    ∃ (i : Conn) (c : Client) (h : Host Desc), n.clients[i]? = some c ∧ c.party = .host h ∧
      Host.Holds h answer session

/-- An answer that is present was so before the step, or a page makes it. -/
theorem Step.present {answer : Desc} {session : UInt32} (hstep : Step n e n') (hinv : Inv n)
    (hpresent : Present n' answer session) :
    Present n answer session ∨ Creates answer session n e := by
  rcases hpresent with hm | ⟨i, d, h', hd, hparty, hholds⟩
  · rcases hstep.underWay hinv.viewers hm with hm | hsends
    · exact .inl (.inl hm)
    · cases hsends with
      | hub _ _ own => simp [numberOf] at own
      | answer _ text offer session hunder hcreates => exact .inr hcreates
      | offer i move c c' h h' _ _ _ _ _ _ _ hsent =>
          obtain ⟨x, -, hx⟩ := List.mem_map.mp hsent
          contradiction
  · rcases hstep.follows hd with
      ⟨c, hc, hfollows⟩ | ⟨-, ⟨key, hostFp, paired, hnew, -⟩ | hnew⟩
    · rcases hfollows.host h' hparty with hparty | ⟨h, ev, hparty, halive, hh, hcause⟩
      · exact .inl (.inr ⟨i, c, h', hc, hparty, hholds⟩)
      · -- the host held it, or takes it from its inbox
        rcases hh.holds (hinv.hosts i c h hc hparty).waits.point hholds with hholds | ⟨-, rfl⟩
        · exact .inl (.inr ⟨i, c, h, hc, hparty, hholds⟩)
        · rcases hcause with ⟨move, -, hev⟩ | ⟨m, -, hm, hev⟩
          · cases move <;> contradiction
          · obtain rfl := Host.Event.recv.inj hev
            exact .inl (.inl ⟨i, c, hc, .inr (.inl ⟨halive, hm⟩)⟩)
    · obtain rfl := Party.host.inj (hnew.symm.trans hparty)
      simp [Host.init, Host.Holds] at hholds
    · simp [hnew] at hparty

/-- Every answer was made by a page from the offer it answers. -/
theorem creates_of_present {es : List Event} {answer : Desc} {session : UInt32}
    (hrun : machine.Run init es n) (horderly : machine.Along init es Orderly)
    (hpresent : Present n answer session) :
    machine.Occurs init es (Creates answer session) := by
  have horigin := hrun.origin_along (Q := fun n => Present n answer session)
    (P := Creates answer session) horderly hpresent ?_
  · exact horigin.resolve_left (by simp [Present, UnderWay, init])
  · intro es n e n' hs hes _ hstep hpresent
    exact (step_of_eq hstep).present (inv_of_run hs hes) hpresent

/-- **An answer is applied only to the connection whose offer it answers**, in
every run in which `start_session` makes an offer only while no offer and no
answer with its number is under way: what the host in connection `i` passes to
`apply_answer` for its connection `pc` a page made from the offer that this host
made for `pc`. -/
theorem answers_own_offer {es : List Event} {i : Conn} {c : Client} {h : Host Desc}
    {pc : ConnectionId} {sdp : Desc} {session : UInt32} (hrun : machine.Run init es n)
    (horderly : machine.Along init es Orderly) (hc : n.clients[i]? = some c)
    (hparty : c.party = .host h) (hpoint : h.point = .apply pc sdp session) :
    machine.Occurs init es (Creates sdp session) ∧
      ∃ text offered, sdp = .answer text (.offer offered i pc) ∧
        Host.offerOf h.pcs pc = some (.offer offered i pc, session) := by
  have hok := (inv_of_run hrun horderly).hosts i c h hc hparty
  have hholds : Host.Holds h sdp session := .inr (by rw [hpoint]; exact ⟨rfl, rfl⟩)
  refine ⟨creates_of_present hrun horderly (.inr ⟨i, c, h, hc, hparty, hholds⟩), ?_⟩
  -- the answer has the number of the current session, so it fits its connection
  have hpt := hok.connected.point
  rw [hpoint] at hpt
  obtain ⟨hcurrent, rfl⟩ := hpt
  obtain ⟨offer, hoffer, heq | ⟨text, heq⟩⟩ := hok.held sdp _ hholds pc hcurrent rfl
  · contradiction
  · obtain ⟨rfl, -⟩ := SignalMessage.answer.inj heq
    obtain ⟨offered, rfl⟩ := hok.own pc offer _ hoffer
    exact ⟨text, offered, rfl, hoffer⟩

end

/-! ## Short runs -/

instance (c : Client) (session : UInt32) : Decidable (c.Clear session) := by
  unfold Client.Clear
  cases c.party <;> infer_instance

instance (n : Network) (c : Client) : Decidable (StartsClear n c) := by
  unfold StartsClear
  cases c.party <;> infer_instance

instance (n : Network) (e : Event) : Decidable (Orderly n e) := by
  unfold Orderly
  split <;> infer_instance

/-- The loop goes on. -/
def loop : HostMove := .resume ⟨fun _ => 0, none⟩ none true

/-- A host is started in connection `i`, gets its ICE servers and makes the offer
of its first session to the page that waits. -/
def startSession (i : Conn) : List Event :=
  [.startHost [] (text "0a") (Host.hostWith ["b1"]).shared.paired, .register i [], .hostRecv i,
    .hostRecv i, .hostMove i loop,
    .hostMove i (.resume ⟨fun _ => 0, none⟩ (some (Host.answerOf "0a")) true)]

/-- The page in connection 0 answers the offer of the host in connection 1. -/
def pageAnswers : List Event :=
  [.relay 1, .onmessage 0 none true, .onmessage 0 none true,
    .goOn 0 0 (some (Host.answerOf "b1")), .goOn 0 0 (some (Host.answerOf "b1"))]

/-- The host in connection `i` takes the answer that was relayed and, its device
being paired, passes it to `apply_answer`. -/
def takeAnswer (i : Conn) : List Event := [.hostRecv i, .hostMove i loop]

/-- The host in connection `i` is at this point. -/
def AtPoint (n : Network) (i : Conn) (point : Point Desc) : Prop :=
  ∃ c ∈ n.clients[i]?, ∃ h, c.party = .host h ∧ h.point = point

instance (n : Network) (i : Conn) (point : Point Desc) : Decidable (AtPoint n i point) :=
  decidable_of_iff (n.clients[i]?.any fun c => match c.party with
    | .host h => decide (h.point = point)
    | .viewer _ => false) (by
      rw [AtPoint, Option.any_eq_true]
      refine exists_congr fun c => and_congr_right fun _ => ?_
      cases c.party <;> simp)

/-- The answer that the page makes of the first offer of the host in connection 1. -/
def firstAnswer : Desc := .answer (Host.answerOf "b1") (.offer (Host.answerOf "0a") 1 0)

/-- `answers_own_offer` for a page that answers the first offer it gets. -/
theorem answers_own_offer_first :
    letI : FinalSigma := ⟨fun _ _ => false⟩
    ∃ es n, machine.Run init es n ∧ AtPoint n 1 (.apply 0 firstAnswer 1) ∧
      machine.Occurs init es (Creates firstAnswer 1) := by
  let _ : FinalSigma := ⟨fun _ _ => false⟩
  let es : List Event := [.openPage, .register 0 []] ++ startSession 1 ++ pageAnswers ++
    [.relay 0] ++ takeAnswer 1
  have horderly : machine.Along init es Orderly := by decide +kernel
  obtain ⟨n, hrun, hn⟩ := Machine.exists_run machine init es
    (fun n => AtPoint n 1 (.apply 0 firstAnswer 1)) (by decide +kernel)
  have hat : AtPoint n 1 (.apply 0 firstAnswer 1) := of_decide_eq_true hn
  obtain ⟨c, hc, h, hparty, hpoint⟩ := id hat
  exact ⟨es, n, hrun, hat, (answers_own_offer hrun horderly hc hparty hpoint).1⟩

/-- The host is started again while the page's answer is on its way: the answer
to the old process's offer is applied to a connection of the new one. -/
theorem answers_other_offer :
    letI : FinalSigma := ⟨fun _ _ => false⟩
    ∃ es n sdp, machine.Run init es n ∧ AtPoint n 2 (.apply 0 sdp 1) ∧
      ∀ text offered, sdp ≠ .answer text (.offer offered 2 0) := by
  let _ : FinalSigma := ⟨fun _ _ => false⟩
  obtain ⟨n, hrun, hn⟩ := Machine.exists_run machine init
    ([.openPage, .register 0 []] ++ startSession 1 ++ pageAnswers ++ [.exit 1] ++
      (startSession 2).take 2 ++ [.relay 0] ++ (startSession 2).drop 2 ++ takeAnswer 2)
    (fun n => AtPoint n 2 (.apply 0 firstAnswer 1)) (by decide +kernel)
  exact ⟨_, n, firstAnswer, hrun, of_decide_eq_true hn, by simp [firstAnswer]⟩

end Network

end RemoteBridge
