import RemoteBridge.Sessions.Steps

/-!
# Sessions.Connections

The connections the host made: at most one is open, it is the loop's current one
or about to be closed, and the active device's connection is no other.
-/

namespace RemoteBridge

variable {S : Type}

/-! ## Open connections -/

/-- The `i`-th connection was made and not closed. -/
def IsOpen (pcs : List (PeerConnection S)) (i : ConnectionId) : Prop :=
  ∃ pc, pcs[i]? = some pc ∧ pc.closed = false

instance (pcs : List (PeerConnection S)) (i : ConnectionId) : Decidable (IsOpen pcs i) :=
  decidable_of_iff (pcs[i]?.any fun pc => !pc.closed) (by simp [IsOpen, Option.any_eq_true])

theorem IsOpen.lt_length {pcs : List (PeerConnection S)} {i : ConnectionId} (h : IsOpen pcs i) :
    i < pcs.length := by
  obtain ⟨pc, hpc, -⟩ := h
  exact (List.getElem?_eq_some_iff.mp hpc).1

theorem isOpen_close {pcs : List (PeerConnection S)} {i j : ConnectionId} :
    IsOpen (pcs.modify j .close) i ↔ IsOpen pcs i ∧ i ≠ j := by
  simp only [IsOpen, List.getElem?_modify]
  cases pcs[i]? with
  | none => simp
  | some pc =>
      by_cases hij : j = i
      · simp [hij, PeerConnection.close]
      · simp [hij, Ne.symm hij]

@[simp] theorem closed_setRemote (pc : PeerConnection S) (sdp : S) (wellFormed : Bool) :
    (pc.setRemote sdp wellFormed).closed = pc.closed := by
  unfold PeerConnection.setRemote; split <;> rfl

@[simp] theorem session_setRemote (pc : PeerConnection S) (sdp : S) (wellFormed : Bool) :
    (pc.setRemote sdp wellFormed).session = pc.session := by
  unfold PeerConnection.setRemote; split <;> rfl

theorem isOpen_setRemote {pcs : List (PeerConnection S)} {i j : ConnectionId} {sdp : S}
    {wellFormed : Bool} :
    IsOpen (pcs.modify j (·.setRemote sdp wellFormed)) i ↔ IsOpen pcs i := by
  simp only [IsOpen, List.getElem?_modify]
  cases pcs[i]? with
  | none => simp
  | some pc => by_cases hij : j = i <;> simp [hij]

theorem isOpen_concat {pcs : List (PeerConnection S)} {i : ConnectionId} {pc : PeerConnection S}
    (hpc : pc.closed = false) :
    IsOpen (pcs ++ [pc]) i ↔ IsOpen pcs i ∨ i = pcs.length := by
  simp only [IsOpen, List.getElem?_append, List.getElem?_singleton]
  grind

/-- The session the `i`-th connection was started for. -/
def sessionOf (pcs : List (PeerConnection S)) (i : ConnectionId) : Option UInt32 :=
  pcs[i]?.map (·.session)

theorem sessionOf_modify {pcs : List (PeerConnection S)} {i j : ConnectionId}
    {f : PeerConnection S → PeerConnection S} (hf : ∀ pc, (f pc).session = pc.session) :
    sessionOf (pcs.modify j f) i = sessionOf pcs i := by
  simp only [sessionOf, List.getElem?_modify]
  cases pcs[i]? with
  | none => rfl
  | some pc => by_cases hij : j = i <;> simp [hij, hf]

theorem sessionOf_setRemote {pcs : List (PeerConnection S)} {i j : ConnectionId}
    {sdp : S} {wellFormed : Bool} :
    sessionOf (pcs.modify j (·.setRemote sdp wellFormed)) i = sessionOf pcs i :=
  sessionOf_modify fun _ => session_setRemote _ _ _

@[grind =] theorem sessionOf_close {pcs : List (PeerConnection S)} {i j : ConnectionId} :
    sessionOf (pcs.modify j .close) i = sessionOf pcs i :=
  sessionOf_modify fun _ => rfl

/-! ## The invariant -/

/-- The connection a branch is about to close. -/
def Point.closing : Point S → Option ConnectionId
  | .rejectClose _ pc => some pc
  | .disconnectClose _ pc => some pc
  | .joinClose pc => some pc
  | _ => none

namespace Host

open Unicode

/-- What the variables of a branch say of the current connection. -/
def Point.Ok (h : Host S) : Point S → Prop
  | .approve _ _ _ pc => h.current = some pc
  | .apply pc _ n => h.current = some pc ∧ n = h.session
  | .rejectClose _ _ => h.current = none
  | .disconnectClose _ pc =>
      (h.current = none ∧ ¬ IsOpen h.pcs pc ∨ h.current = some pc) ∧ h.shared.active = none
  | .joinClose _ => h.current = none ∧ h.shared.active = none
  | .start => h.current = none ∧ h.shared.active = none
  | .answer _ _ pc => h.current = some pc
  | _ => True

/-- The current connection is open and of the current session; any other that is
open is about to be closed; the active device's was made, and while there is a
current connection it is that one. -/
structure Connected (h : Host S) : Prop where
  current : ∀ i, h.current = some i →
    IsOpen h.pcs i ∧ sessionOf h.pcs i = some h.session
  others : ∀ i, IsOpen h.pcs i → h.current = some i ∨ h.point.closing = some i
  active : ∀ fp i, h.shared.active = some (fp, i) →
    i < h.pcs.length ∧ (h.current = none ∨ h.current = some i)
  point : Point.Ok h h.point

variable [Sdp S] {h h' : Host S} {e : Event S}

omit [Sdp S] in
theorem connected_init (key hostFp : Text) (paired : PairedDevices) :
    Connected (init key hostFp paired : Host S) where
  current i hi := by simp [init] at hi
  others i hi := by simp [init, IsOpen] at hi
  active fp i hi := by simp [init] at hi
  point := trivial

omit [Sdp S] in
/-- Page steps change nothing the invariant speaks of. -/
theorem Connected.page {s : AppState} (hinv : Connected h) (hs : h.toAppState.Paged s) :
    Connected { h with toAppState := s } := by
  obtain ⟨hcurrent, hothers, hactive, hpoint⟩ := hinv
  refine ⟨hcurrent, hothers, ?_, ?_⟩
  · intro fp i hi
    exact hactive fp i (hs.active.symm.trans hi)
  · cases hp : h.point <;> simp_all [Point.Ok, hs.active]

omit [Sdp S] in
/-- The lock section that decides to apply an answer sets the active device. -/
theorem Connected.decide {shared : Shared} {fp : Text} {pc : ConnectionId} {sdp : S}
    (hinv : Connected h) (hcurrent : h.current = some pc) (hclosing : h.point.closing = none)
    (hactive : shared.active = some (fp, pc)) :
    Connected { h with shared, point := .apply pc sdp h.session } := by
  refine ⟨hinv.current, fun i hi => ?_, fun fp' i hi => ?_, ⟨hcurrent, rfl⟩⟩
  · have hothers := hinv.others i hi
    rw [hclosing] at hothers
    exact .inl (hothers.resolve_right (by simp))
  · obtain ⟨-, rfl⟩ := Prod.ext_iff.mp (Option.some.inj (hactive.symm.trans hi))
    exact ⟨(hinv.current pc hcurrent).1.lt_length, .inr hcurrent⟩

omit [Sdp S] in
/-- Applying an answer opens and closes nothing. -/
theorem Connected.setRemote {pc : ConnectionId} {sdp : S} {wellFormed : Bool} (hinv : Connected h)
    (hclosing : h.point.closing = none) :
    Connected { h with pcs := h.pcs.modify pc (·.setRemote sdp wellFormed), point := .head } := by
  refine ⟨fun i hi => ?_, fun i hi => ?_, fun fp i hi => ?_, trivial⟩
  · rw [isOpen_setRemote, sessionOf_setRemote]
    exact hinv.current i hi
  · have hothers := hinv.others i (isOpen_setRemote.mp hi)
    rw [hclosing] at hothers
    exact .inl (hothers.resolve_right (by simp))
  · rw [List.length_modify]
    exact hinv.active fp i hi

omit [Sdp S] in
/-- A branch that closes its connection leaves none open. -/
theorem Connected.close {j : ConnectionId} (hinv : Connected h)
    (hclosing : h.point.closing = some j)
    (hcurrent : h.current = none ∨ h.current = some j) (hpcs : h'.pcs = h.pcs.modify j .close)
    (hnone : h'.current = none) (hactive : h'.shared.active = h.shared.active)
    (hpoint : Point.Ok h' h'.point) : Connected h' := by
  refine ⟨fun i hi => ?_, fun i hi => ?_, fun fp i hi => ?_, hpoint⟩
  · rw [hnone] at hi
    contradiction
  · -- what is open was open before, so it is `j`, which was closed
    rw [hpcs, isOpen_close] at hi
    have hothers := hinv.others i hi.1
    rw [hclosing] at hothers
    have hij : i = j := by grind
    exact absurd hij hi.2
  · rw [hactive] at hi
    rw [hpcs, List.length_modify]
    exact ⟨(hinv.active fp i hi).1, .inl hnone⟩

omit [Sdp S] in
/-- The connection of a new session is the one that is open. -/
theorem Connected.start {offer : S} (hinv : Connected h) (hpoint : h.point = .start) :
    Connected { h with
      pcs := h.pcs ++ [⟨h.session, h.serverIce, offer, none, false⟩]
      offers := h.offers ++ [(offer, h.session)]
      current := some h.pcs.length
      point := .head } := by
  have hok := hinv.point
  rw [hpoint] at hok
  refine ⟨fun i hi => ?_, fun i hi => ?_, fun fp i hi => ?_, trivial⟩
  · obtain rfl := Option.some.inj hi
    exact ⟨(isOpen_concat rfl).mpr (.inr rfl), by simp [sessionOf]⟩
  · rcases (isOpen_concat rfl).mp hi with hopen | rfl
    · have hothers := hinv.others i hopen
      rw [hok.1, hpoint] at hothers
      simp [Point.closing] at hothers
    · exact .inl rfl
  · rw [hok.2] at hi
    contradiction

omit [Sdp S] in
/-- Without a current connection, and none about to be closed, none is open. -/
theorem Connected.not_isOpen (hinv : Connected h) (hcurrent : h.current = none)
    (hclosing : h.point.closing = none) (i : ConnectionId) : ¬ IsOpen h.pcs i := by
  intro hopen
  have hothers := hinv.others i hopen
  rw [hcurrent, hclosing] at hothers
  simp at hothers

omit [Sdp S] in
/-- A branch that closes no connection and changes none keeps them in order. -/
theorem Connected.keeps (hinv : Connected h) (hclosing : h.point.closing = none)
    (hcurrent : h'.current = h.current) (hpcs : h'.pcs = h.pcs) (hsession : h'.session = h.session)
    (hactive : h'.shared.active = h.shared.active) (hpoint : Point.Ok h' h'.point) :
    Connected h' := by
  refine ⟨fun i hi => ?_, fun i hi => ?_, fun fp i hi => ?_, hpoint⟩
  · rw [hpcs, hsession]
    exact hinv.current i (hcurrent ▸ hi)
  · rw [hpcs] at hi
    have hothers := hinv.others i hi
    rw [hclosing] at hothers
    rw [hcurrent]
    exact .inl (hothers.resolve_right (by simp))
  · rw [hpcs, hcurrent]
    exact hinv.active fp i (hactive ▸ hi)

omit [Sdp S] in
/-- A branch that gives up the current connection closes it next. -/
theorem Connected.givesUp {j : ConnectionId} (hinv : Connected h)
    (hclosing : h.point.closing = none) (hcurrent : h.current = some j) (hpcs : h'.pcs = h.pcs)
    (hnone : h'.current = none) (hnext : h'.point.closing = some j)
    (hactive : ∀ d, h'.shared.active = some d → h.shared.active = some d)
    (hpoint : Point.Ok h' h'.point) : Connected h' := by
  refine ⟨fun i hi => ?_, fun i hi => ?_, fun fp i hi => ?_, hpoint⟩
  · rw [hnone] at hi
    contradiction
  · rw [hpcs] at hi
    have hothers := hinv.others i hi
    rw [hclosing, hcurrent] at hothers
    rw [hnext]
    exact .inr (hothers.resolve_right (by simp))
  · rw [hpcs]
    exact ⟨(hinv.active fp i (hactive _ hi)).1, .inl hnone⟩

/-- **One step** keeps the connections in order. -/
theorem Step.connected (hstep : Step h e h') (hinv : Connected h) : Connected h' := by
  have hok := hinv.point
  cases hstep
  case page p status s hpage => exact hinv.page (AppState.paged_page hpage)
  case approved name sdp viewerFp pc o hpoint paired _ _ _ _ =>
    rw [hpoint] at hok
    exact hinv.decide hok (by rw [hpoint]; rfl) rfl
  case known sdp viewerFp pc o hpoint _ paired _ =>
    rw [hpoint] at hok
    exact hinv.decide hok (by rw [hpoint]; rfl) rfl
  case applied pc sdp n o hpoint => exact hinv.setRemote (by rw [hpoint]; rfl)
  case rejectClosed fp pc o hpoint =>
    rw [hpoint] at hok
    exact hinv.close (by rw [hpoint]; rfl) (.inl hok) rfl hok rfl trivial
  case disconnectClosed fp pc o hpoint =>
    rw [hpoint] at hok
    exact hinv.close (by rw [hpoint]; rfl) (hok.1.imp_left And.left) rfl rfl rfl trivial
  case joinClosed old o hpoint =>
    rw [hpoint] at hok
    exact hinv.close (by rw [hpoint]; rfl) (.inl hok.1) rfl hok.1 rfl ⟨hok.1, hok.2⟩
  case started offer o hpoint _ => exact hinv.start hpoint
  case rejected fp pc o hpoint hcurrent =>
    exact hinv.givesUp (by rw [hpoint]; rfl) hcurrent rfl rfl rfl (fun _ => id) rfl
  case joinedCurrent old o hpoint hcurrent =>
    exact hinv.givesUp (by rw [hpoint]; rfl) hcurrent rfl rfl rfl (fun _ ha => by contradiction)
      ⟨rfl, rfl⟩
  case joinedNone o hpoint hcurrent =>
    refine ⟨fun i hi => ?_, fun i hi => ?_, fun fp i ha => by contradiction, hcurrent, rfl⟩
    · rw [hcurrent] at hi
      contradiction
    · exact absurd hi (hinv.not_isOpen hcurrent (by rw [hpoint]; rfl) i)
  case disconnected fp pc o hpoint hactive =>
    have hclosing : h.point.closing = none := by rw [hpoint]; rfl
    refine ⟨hinv.current, fun i hi => ?_, fun fp i ha => by contradiction, ?_, rfl⟩
    · have hothers := hinv.others i hi
      rw [hclosing] at hothers
      exact .inl (hothers.resolve_right (by simp))
    · obtain hnone | hcurrent := (hinv.active fp pc hactive).2
      · exact .inl ⟨hnone, hinv.not_isOpen hnone hclosing pc⟩
      · exact .inr hcurrent
  -- the other branches neither make, answer nor close a connection
  case skipped | ignored => exact hinv
  case configured ice hpoint =>
    exact hinv.keeps (by rw [hpoint]; rfl) rfl rfl rfl rfl trivial
  case lost hpoint =>
    exact hinv.keeps (by rcases hpoint with hp | hp <;> rw [hp] <;> rfl) rfl rfl rfl rfl trivial
  case joined hpoint =>
    exact hinv.keeps (by rw [hpoint]; rfl) rfl rfl rfl rfl trivial
  case answered sdp fp pc hpoint hcurrent hviewer =>
    exact hinv.keeps (by rw [hpoint]; rfl) rfl rfl rfl rfl hcurrent
  case approving name w pc commands hpoint hcommand hw hcurrent hsession =>
    exact hinv.keeps (by rw [hpoint]; rfl) rfl rfl rfl rfl hcurrent
  case dropped name w commands hpoint hcommand hw hstale =>
    exact hinv.keeps (by rw [hpoint]; rfl) rfl rfl rfl rfl (by simp only [hpoint]; trivial)
  case rejecting w commands hpoint hcommand hw =>
    exact hinv.keeps (by rw [hpoint]; rfl) rfl rfl rfl rfl trivial
  case disconnecting fp commands hpoint hcommand =>
    exact hinv.keeps (by rw [hpoint]; rfl) rfl rfl rfl rfl trivial
  case passed c commands hpoint hcommand hother hw =>
    exact hinv.keeps (by rw [hpoint]; rfl) rfl rfl rfl rfl (by simp only [hpoint]; trivial)
  case approveFailed name sdp fp pc o hpoint hfault paired hfps hothers =>
    exact hinv.keeps (by rw [hpoint]; rfl) rfl rfl rfl rfl trivial
  case touchFailed sdp fp pc o hpoint hknown hfault paired hfps =>
    exact hinv.keeps (by rw [hpoint]; rfl) rfl rfl rfl rfl trivial
  case rejectedNone fp o hpoint hcurrent =>
    exact hinv.keeps (by rw [hpoint]; rfl) rfl rfl rfl rfl trivial
  case disconnectedNone fp o hpoint hactive =>
    exact hinv.keeps (by rw [hpoint]; rfl) rfl rfl rfl rfl trivial
  case startFailed o hpoint houtcome =>
    exact hinv.keeps (by rw [hpoint]; rfl) rfl rfl rfl rfl trivial
  case unknown sdp fp pc o hpoint hunknown =>
    exact hinv.keeps (by rw [hpoint]; rfl) rfl rfl rfl rfl trivial

/-! ## Every run -/

theorem connected_of_run {key hostFp : Text} {paired : PairedDevices} {es : List (Event S)}
    (hrun : (machine S).Run (init key hostFp paired) es h) : Connected h :=
  hrun.invariant (connected_init key hostFp paired) fun _ _ _ hinv hstep =>
    (step_of_eq hstep).connected hinv

/-- **At most one viewer connection is open.**  In every state of every run,
each connection `start_session` returned other than the current one is closed,
or the branch the loop is in is about to close it, which none is at the head of
the loop; and the connection of the active device is the current one or, at the
head, closed. -/
theorem one_connection_open {key hostFp : Text} {paired : PairedDevices} {es : List (Event S)}
    (hrun : (machine S).Run (init key hostFp paired) es h) :
    (∀ i < h.pcs.length, h.current ≠ some i →
      ¬ IsOpen h.pcs i ∨ h.point.closing = some i) ∧
    (h.point = .head →
      (∀ i < h.pcs.length, h.current ≠ some i → ¬ IsOpen h.pcs i) ∧
      ∀ fp i, h.shared.active = some (fp, i) →
        i < h.pcs.length ∧ (h.current = some i ∨ ¬ IsOpen h.pcs i)) := by
  have hinv := connected_of_run hrun
  have hclosed : ∀ i < h.pcs.length, h.current ≠ some i →
      ¬ IsOpen h.pcs i ∨ h.point.closing = some i := by
    intro i _ hi
    by_cases hopen : IsOpen h.pcs i
    · exact .inr ((hinv.others i hopen).resolve_left hi)
    · exact .inl hopen
  refine ⟨hclosed, fun hpoint => ?_⟩
  have hhead : ∀ i < h.pcs.length, h.current ≠ some i → ¬ IsOpen h.pcs i := by
    intro i hlt hi
    refine (hclosed i hlt hi).resolve_right ?_
    simp [hpoint, Point.closing]
  refine ⟨hhead, fun fp i hactive => ?_⟩
  obtain ⟨hlt, hcurrent⟩ := hinv.active fp i hactive
  refine ⟨hlt, ?_⟩
  by_cases hi : h.current = some i
  · exact .inl hi
  · exact .inr (hhead i hlt hi)

/-- `one_connection_open` for a viewer that connects and then reloads. -/
theorem one_connection_open_reload :
    ∃ es h, (machine Text).Run (hostWith ["b1"]) es h ∧ h.point = .head ∧ h.current = some 1 ∧
      h.pcs.length = 2 ∧ ¬ IsOpen h.pcs 0 := by
  obtain ⟨h, hrun, hend⟩ := Machine.exists_run (machine Text) (hostWith ["b1"])
    (firstSession ++ knownAnswer "b1" ++
      [.recv .viewerJoined, goOn, goOn, startWith (text "offer again")])
    (fun h => h.point = .head ∧ h.current = some 1 ∧ h.pcs.length = 2) (by decide +kernel)
  obtain ⟨hhead, hcurrent, hlength⟩ := of_decide_eq_true hend
  refine ⟨_, h, hrun, hhead, hcurrent, hlength, ?_⟩
  exact ((one_connection_open hrun).2 hhead).1 0 (by omega) (by simp [hcurrent])

end Host

end RemoteBridge
