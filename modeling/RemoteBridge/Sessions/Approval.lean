import RemoteBridge.Sessions.Connections

/-!
# Sessions.Approval

Where an applied answer comes from.  The answer waiting for the user is the one
the page shows and belongs to the current session; what the loop holds was
received for that session; and a fingerprint enters the list only through an
`Approve` handled while the page showed it.
-/

namespace RemoteBridge.Host

open Unicode Machine

variable {S : Type} [Sdp S] {h h' : Host S} {e : Event S}

/-- What the host page shows of a device that waits. -/
def shown (h : Host S) (fp : Text) : Pending :=
  ⟨fp, Pairing.pairingCode h.shared.hostFingerprint fp⟩

/-! ## The waiting answer -/

/-- What the variables of a branch say of the answer in them and of the waiting
one. -/
def Point.Waits (h : Host S) : Point S → Prop
  | .approve _ sdp fp _ =>
      fingerprintOf sdp = some fp ∧ h.shared.pending = some (h.shown fp) ∧ h.waiting = none
  | .apply _ sdp _ => ∃ fp, fingerprintOf sdp = some fp ∧ fp ∈ h.shared.active.map (·.1)
  | .answer sdp fp _ => fingerprintOf sdp = some fp
  | .reject fp => h.shared.pending = some (h.shown fp) ∧ h.waiting = none
  | .rejectClose _ _ | .join | .joinClose _ | .start => h.waiting = none
  | _ => True

/-- The waiting answer is the one shown, and of the current session. -/
structure Waits (h : Host S) : Prop where
  waiting : ∀ w, h.waiting = some w → fingerprintOf w.sdp = some w.fingerprint ∧
    h.shared.pending = some (h.shown w.fingerprint) ∧ w.session = h.session
  point : Point.Waits h h.point

theorem waits_init (key hostFp : Text) (paired : PairedDevices) :
    Waits (init key hostFp paired : Host S) :=
  ⟨fun w hw => by simp [init] at hw, trivial⟩

theorem Waits.page {s : AppState} (hinv : Waits h) (hs : h.toAppState.Paged s) :
    Waits { h with toAppState := s } := by
  obtain ⟨hwaiting, hpoint⟩ := hinv
  refine ⟨fun w hw => ?_, ?_⟩
  · simpa only [shown, hs.pending, hs.hostFingerprint] using hwaiting w hw
  · cases hp : h.point <;> simp_all [Point.Waits, shown, hs.pending, hs.hostFingerprint, hs.active]

/-- A branch that lets no answer wait and changes nothing that is shown keeps them. -/
theorem Waits.keeps (hinv : Waits h) (hwaiting : ∀ w, h'.waiting = some w → h.waiting = some w)
    (hpending : h'.shared.pending = h.shared.pending)
    (hhost : h'.shared.hostFingerprint = h.shared.hostFingerprint)
    (hsession : h'.session = h.session) (hpoint : Point.Waits h' h'.point) : Waits h' := by
  refine ⟨fun w hw => ?_, hpoint⟩
  rw [hpending, hsession, shown, hhost]
  exact hinv.waiting w (hwaiting w hw)

/-- Without a waiting answer there is nothing to keep but the branch's own. -/
theorem Waits.unawaited (hnone : h'.waiting = none) (hpoint : Point.Waits h' h'.point) :
    Waits h' := by
  refine ⟨fun w hw => ?_, hpoint⟩
  rw [hnone] at hw
  contradiction

/-- **One step** keeps the waiting answer and the shown device together. -/
theorem Step.waits (hstep : Step h e h') (hinv : Waits h) : Waits h' := by
  have hpt := hinv.point
  cases hstep
  case page p status s hpage => exact hinv.page (AppState.paged_page hpage)
  -- the branches of an answer
  case answered sdp fp pc hpoint hcurrent hviewer =>
    exact hinv.keeps (fun _ => id) rfl rfl rfl hviewer
  case known sdp fp pc o hpoint hknown paired hfps =>
    rw [hpoint] at hpt
    exact hinv.keeps (fun _ => id) rfl rfl rfl ⟨fp, hpt, by simp⟩
  case unknown sdp fp pc o hpoint hunknown =>
    rw [hpoint] at hpt
    refine ⟨fun w hw => ?_, trivial⟩
    obtain rfl := Option.some.inj hw
    exact ⟨hpt, rfl, rfl⟩
  case touchFailed sdp fp pc o hpoint hknown hfault paired hfps =>
    exact hinv.keeps (fun _ => id) rfl rfl rfl trivial
  case applied pc sdp n o hpoint => exact hinv.keeps (fun _ => id) rfl rfl rfl trivial
  -- the branches of a command: what is taken is the answer that waits
  case approving name w pc commands hpoint hcommand hw hcurrent hsession =>
    obtain ⟨hfp, hpending, -⟩ := hinv.waiting w hw
    exact Waits.unawaited rfl ⟨hfp, hpending, rfl⟩
  case rejecting w commands hpoint hcommand hw =>
    exact Waits.unawaited rfl ⟨(hinv.waiting w hw).2.1, rfl⟩
  case dropped name w commands hpoint hcommand hw hstale =>
    exact Waits.unawaited rfl (by simp only [hpoint]; trivial)
  case passed c commands hpoint hcommand hother hw =>
    exact hinv.keeps (fun _ => id) rfl rfl rfl (by simp only [hpoint]; trivial)
  case disconnecting fp commands hpoint hcommand =>
    exact hinv.keeps (fun _ => id) rfl rfl rfl trivial
  case approved name sdp fp pc o hpoint paired _ _ _ _ =>
    rw [hpoint] at hpt
    exact Waits.unawaited hpt.2.2 ⟨fp, hpt.1, by simp⟩
  case approveFailed name sdp fp pc o hpoint hfault paired hfps hothers =>
    rw [hpoint] at hpt
    exact Waits.unawaited hpt.2.2 trivial
  case rejected fp pc o hpoint hcurrent =>
    rw [hpoint] at hpt
    exact Waits.unawaited hpt.2 hpt.2
  case rejectedNone fp o hpoint hcurrent =>
    rw [hpoint] at hpt
    exact Waits.unawaited hpt.2 trivial
  case rejectClosed fp pc o hpoint =>
    rw [hpoint] at hpt
    exact Waits.unawaited hpt trivial
  case disconnected fp pc o hpoint hactive => exact hinv.keeps (fun _ => id) rfl rfl rfl trivial
  case disconnectedNone fp o hpoint hactive => exact hinv.keeps (fun _ => id) rfl rfl rfl trivial
  case disconnectClosed fp pc o hpoint => exact hinv.keeps (fun _ => id) rfl rfl rfl trivial
  -- the branches of a viewer that joins: no answer waits
  case joined hpoint => exact Waits.unawaited rfl rfl
  case joinedCurrent old o hpoint hcurrent =>
    rw [hpoint] at hpt
    exact Waits.unawaited hpt hpt
  case joinedNone o hpoint hcurrent =>
    rw [hpoint] at hpt
    exact Waits.unawaited hpt hpt
  case joinClosed old o hpoint =>
    rw [hpoint] at hpt
    exact Waits.unawaited hpt hpt
  case started offer o hpoint houtcome =>
    rw [hpoint] at hpt
    exact Waits.unawaited hpt trivial
  case startFailed o hpoint houtcome =>
    rw [hpoint] at hpt
    exact Waits.unawaited hpt trivial
  -- the messages that are not for it
  case skipped | ignored => exact hinv
  case configured ice hpoint => exact hinv.keeps (fun _ => id) rfl rfl rfl trivial
  case lost hpoint => exact hinv.keeps (fun _ => id) rfl rfl rfl trivial

theorem waits_of_run {key hostFp : Text} {paired : PairedDevices} {es : List (Event S)}
    (hrun : (machine S).Run (init key hostFp paired) es h) : Waits h :=
  hrun.invariant (waits_init key hostFp paired) fun _ _ _ hinv hstep =>
    (step_of_eq hstep).waits hinv

/-! ## Where the answer comes from -/

/-- A step the loop does not take part in. -/
def Event.IsPage : Event S → Prop
  | .page _ => True
  | _ => False

instance : (e : Event S) → Decidable e.IsPage
  | .page _ => inferInstanceAs (Decidable True)
  | .recv _ | .recvFailed | .command | .resume _ => inferInstanceAs (Decidable False)

/-- The loop holds this answer, for the session it was received in. -/
def Holds (h : Host S) (sdp : S) (n : UInt32) : Prop :=
  (∃ w, h.waiting = some w ∧ w.sdp = sdp ∧ w.session = n) ∨
  match h.point with
  | .approve _ held _ _ => held = sdp ∧ h.session = n
  | .answer held _ _ => held = sdp ∧ h.session = n
  | .apply _ held m => held = sdp ∧ m = n
  | _ => False

/-- The answer `sdp`, numbered `n`, is taken at the head of the loop. -/
def Receives (sdp : S) (n : UInt32) (h : Host S) (e : Event S) : Prop :=
  h.point = .head ∧ e = .recv (.answer sdp n)

theorem Step.holds {sdp : S} {n : UInt32} (hstep : Step h e h') (hpoint : Point.Waits h h.point)
    (hholds : Holds h' sdp n) : Holds h sdp n ∨ Receives sdp n h e := by
  cases hstep
  all_goals grind [Holds, Receives, leave, closePc, Point.Waits]

/-- What the loop holds was received, with that number. -/
theorem received_of_holds {key hostFp : Text} {paired : PairedDevices} {es : List (Event S)}
    {sdp : S} {n : UInt32} (hrun : (machine S).Run (init key hostFp paired) es h)
    (hholds : Holds h sdp n) :
    (machine S).Occurs (init key hostFp paired) es (Receives sdp n) := by
  have hnone : ¬ Holds (init key hostFp paired : Host S) sdp n := by simp [Holds, init]
  refine (hrun.origin (Q := fun h => Holds h sdp n) hholds ?_).resolve_left hnone
  rintro s e s' ⟨es', hs⟩ hstep hs'
  exact (step_of_eq hstep).holds (waits_of_run hs).point hs'

/-- `start_session` returns its `pc`-th connection, for session `n`. -/
def Starts (pc : ConnectionId) (n : UInt32) (h : Host S) (e : Event S) : Prop :=
  h.point = .start ∧ h.session = n ∧ h.pcs.length = pc ∧
    ∃ o, e = .resume o ∧ o.started.isSome

theorem Step.starts {pc : ConnectionId} {n : UInt32} (hstep : Step h e h')
    (hsession : sessionOf h'.pcs pc = some n) : sessionOf h.pcs pc = some n ∨ Starts pc n h e := by
  cases hstep
  case applied j sdp m o hpoint => exact .inl (sessionOf_setRemote.symm.trans hsession)
  case started offer o hpoint houtcome =>
    simp only [sessionOf, List.getElem?_append, List.getElem?_singleton] at hsession
    split at hsession
    · exact .inl hsession
    · refine .inr ⟨hpoint, ?_⟩
      grind
  all_goals grind [leave, closePc]

theorem started_of_sessionOf {key hostFp : Text} {paired : PairedDevices} {es : List (Event S)}
    {pc : ConnectionId} {n : UInt32} (hrun : (machine S).Run (init key hostFp paired) es h)
    (hsession : sessionOf h.pcs pc = some n) :
    (machine S).Occurs (init key hostFp paired) es (Starts pc n) := by
  have hnone : ¬ sessionOf (init key hostFp paired : Host S).pcs pc = some n := by
    simp [sessionOf, init]
  refine (hrun.origin (Q := fun h => sessionOf h.pcs pc = some n) hsession ?_).resolve_left hnone
  exact fun s e s' _ hstep hs' => (step_of_eq hstep).starts hs'

/-! ## Who is in the list -/

theorem Step.hostFingerprint (hstep : Step h e h') :
    h'.shared.hostFingerprint = h.shared.hostFingerprint := by
  cases hstep
  case page p status s hpage => exact (AppState.paged_page hpage).hostFingerprint
  all_goals rfl

theorem hostFingerprint_of_run {key hostFp : Text} {paired : PairedDevices} {es : List (Event S)}
    (hrun : (machine S).Run (init key hostFp paired) es h) :
    h.shared.hostFingerprint = hostFp := by
  refine hrun.invariant (I := fun h => h.shared.hostFingerprint = hostFp) rfl ?_
  intro s e s' hs hstep
  exact (step_of_eq hstep).hostFingerprint.trans hs

/-- An `Approve` of this device is handled while the page shows the device with
the code of the two fingerprints. -/
def Approves (hostFp fp : Text) (h : Host S) (e : Event S) : Prop :=
  h.point = .head ∧ e = .command ∧
    (∃ name commands, h.commands = .approve fp name :: commands) ∧
    h.shared.pending = some ⟨fp, Pairing.pairingCode hostFp fp⟩

/-- The loop is about to add this device. -/
def Approving (fp : Text) (h : Host S) : Prop :=
  match h.point with
  | .approve _ _ viewerFp _ => viewerFp = fp
  | _ => False

instance (fp : Text) (h : Host S) : Decidable (Approving fp h) :=
  decidable_of_iff ((match h.point with
    | .approve _ _ viewerFp _ => viewerFp == fp
    | _ => false) = true) (by
      unfold Approving
      split <;> simp)

/-- The loop adds this device. -/
def Admits (fp : Text) (h : Host S) (e : Event S) : Prop := Approving fp h ∧ ¬ e.IsPage

instance (fp : Text) (h : Host S) (e : Event S) : Decidable (Admits fp h e) :=
  inferInstanceAs (Decidable (_ ∧ _))

theorem Step.approves {hostFp fp : Text} (hstep : Step h e h') (hinv : Waits h)
    (hhost : h.shared.hostFingerprint = hostFp) (happroving : Approving fp h') :
    (Approving fp h ∧ e.IsPage) ∨ Approves hostFp fp h e := by
  have hwaiting := hinv.waiting
  cases hstep
  all_goals grind [Approving, Approves, Event.IsPage, leave, closePc, shown]

/-- The loop adds a device right after an `Approve` that names it. -/
theorem approves_of_approving {key hostFp fp : Text} {paired : PairedDevices}
    {es : List (Event S)} (hrun : (machine S).Run (init key hostFp paired) es h)
    (happroving : Approving fp h) :
    (machine S).Since (init key hostFp paired) es (Approves hostFp fp) Event.IsPage := by
  refine hrun.since happroving ?_ fun s e s' hs hstep hs' => ?_
  · simp [Approving, init]
  · obtain ⟨es', hs⟩ := hs
    exact (step_of_eq hstep).approves (waits_of_run hs) (hostFingerprint_of_run hs) hs'

/-- A device enters the list only where the loop adds it. -/
theorem Step.admits {fp : Text} (hstep : Step h e h')
    (hout : fp ∉ h.shared.paired.fingerprints) (hin : fp ∈ h'.shared.paired.fingerprints) :
    Admits fp h e := by
  cases hstep
  case page p status s hpage => exact absurd ((AppState.paged_page hpage).paired hin) hout
  all_goals grind [Admits, Approving, Event.IsPage, leave, closePc]

/-! ## The decision -/

/-- The section under the lock that decides to apply an answer: it leaves the
device in the list and records it as active. -/
def Decides (pc : ConnectionId) (sdp : S) (n : UInt32) (fp : Text) (h : Host S) (e : Event S) :
    Prop :=
  ∃ o h', e = .resume o ∧ (machine S).step h e = some h' ∧ h'.point = .apply pc sdp n ∧
    fp ∈ h'.shared.paired.fingerprints ∧ h'.shared.active = some (fp, pc)

theorem decides_of_step {pc : ConnectionId} {sdp : S} {n : UInt32} {fp : Text} (hinv : Waits h)
    (hfp : fingerprintOf sdp = some fp) (hstep : (machine S).step h e = some h')
    (hpoint : h'.point = .apply pc sdp n) :
    (h.point = .apply pc sdp n ∧ e.IsPage) ∨ Decides pc sdp n fp h e := by
  have hwaits := hinv.point
  cases step_of_eq hstep
  all_goals grind [Decides, Event.IsPage, Point.Waits, leave, closePc]

/-- An answer is applied right after the decision to apply it. -/
theorem decides_of_run {key hostFp : Text} {paired : PairedDevices} {es : List (Event S)}
    {pc : ConnectionId} {sdp : S} {n : UInt32} {fp : Text}
    (hrun : (machine S).Run (init key hostFp paired) es h) (hpoint : h.point = .apply pc sdp n)
    (hfp : fingerprintOf sdp = some fp) :
    (machine S).Since (init key hostFp paired) es (Decides pc sdp n fp) Event.IsPage := by
  refine hrun.since (Q := fun h => h.point = .apply pc sdp n) hpoint ?_ ?_
  · simp [init]
  · rintro s e s' ⟨es', hs⟩ hstep hs'
    exact decides_of_step (waits_of_run hs) hfp hstep hs'

/-! ## Every run -/

/-- Every device that enters the list does so right after an `Approve` that names
it, handled while the page shows it. -/
theorem enters_approved {key hostFp fp : Text} {paired : PairedDevices} {es : List (Event S)}
    (hrun : (machine S).Run (init key hostFp paired) es h)
    (hstep : (machine S).step h e = some h') (hout : fp ∉ h.shared.paired.fingerprints)
    (hin : fp ∈ h'.shared.paired.fingerprints) :
    (machine S).Since (init key hostFp paired) es (Approves hostFp fp) Event.IsPage :=
  approves_of_approving hrun ((step_of_eq hstep).admits hout hin).1

/-- A device in the list was in `paired.json` or was approved. -/
theorem approved_of_mem {key hostFp fp : Text} {paired : PairedDevices} {es : List (Event S)}
    (hrun : (machine S).Run (init key hostFp paired) es h)
    (hin : fp ∈ h.shared.paired.fingerprints) :
    fp ∈ paired.fingerprints ∨
      (machine S).Occurs (init key hostFp paired) es (Approves hostFp fp) := by
  refine hrun.rec_snoc (P := fun es h => fp ∈ h.shared.paired.fingerprints →
    fp ∈ paired.fingerprints ∨ (machine S).Occurs (init key hostFp paired) es (Approves hostFp fp))
    .inl (fun es e s s' hs ih hstep hin => ?_) hin
  by_cases hout : fp ∈ s.shared.paired.fingerprints
  · exact (ih hout).imp_right Occurs.append
  · exact .inr (enters_approved hs hstep hout hin).occurs.append

/-- What an applied answer is owed to: a device in the list when that was
decided, which had been approved unless `paired.json` named it; the number the
answer came with, which is the current session's; and the connection made for
that session. -/
structure Owed (key hostFp : Text) (paired : PairedDevices) (es : List (Event S)) (h : Host S)
    (pc : ConnectionId) (sdp : S) (n : UInt32) (fp : Text) : Prop where
  viewer : fingerprintOf sdp = some fp
  decided : (machine S).Since (init key hostFp paired) es (Decides pc sdp n fp) Event.IsPage
  origin : fp ∈ paired.fingerprints ∨
    (machine S).Occurs (init key hostFp paired) es (Approves hostFp fp)
  enters : ∀ es₁ e es₂ s s', es = es₁ ++ e :: es₂ →
    (machine S).Run (init key hostFp paired) es₁ s → (machine S).step s e = some s' →
    fp ∉ s.shared.paired.fingerprints → fp ∈ s'.shared.paired.fingerprints →
      (machine S).Since (init key hostFp paired) es₁ (Approves hostFp fp) Event.IsPage
  session : n = h.session
  received : (machine S).Occurs (init key hostFp paired) es (Receives sdp n)
  current : h.current = some pc
  started : sessionOf h.pcs pc = some n ∧
    (machine S).Occurs (init key hostFp paired) es (Starts pc n)

/-- **Only approved devices get an answer applied.** -/
theorem applied_only_approved {key hostFp : Text} {paired : PairedDevices} {es : List (Event S)}
    {pc : ConnectionId} {sdp : S} {n : UInt32}
    (hrun : (machine S).Run (init key hostFp paired) es h) (hpoint : h.point = .apply pc sdp n) :
    ∃ fp, Owed key hostFp paired es h pc sdp n fp := by
  have hwaits := (waits_of_run hrun).point
  rw [hpoint] at hwaits
  obtain ⟨fp, hfp, -⟩ := hwaits
  have hconn := connected_of_run hrun
  have hok := hconn.point
  rw [hpoint] at hok
  obtain ⟨hcurrent, hsession⟩ := hok
  have hdecided := decides_of_run hrun hpoint hfp
  have hsessionOf : sessionOf h.pcs pc = some n := by
    rw [hsession]
    exact (hconn.current pc hcurrent).2
  refine ⟨fp, hfp, hdecided, ?_, ?_, hsession, ?_, hcurrent, hsessionOf, ?_⟩
  · -- the list at the decision, whose run is a first part of this one
    obtain ⟨es₁, e, es₂, s, rfl, hs, ⟨o, s', -, hstep, -, hin, -⟩, -⟩ := hdecided
    have hs' := run_snoc.mpr ⟨s, hs, hstep⟩
    refine (approved_of_mem hs' hin).imp_right fun hoccurs => ?_
    rw [List.append_cons]
    exact hoccurs.append
  · intro es₁ e es₂ s s' _ hs hstep hout hin
    exact enters_approved hs hstep hout hin
  · exact received_of_holds hrun (.inr (by rw [hpoint]; exact ⟨rfl, rfl⟩))
  · exact started_of_sessionOf hrun hsessionOf

/-- `applied_only_approved` for a device that is approved in its first session. -/
theorem applied_only_approved_example :
    ∃ es h, (machine Text).Run (hostWith []) es h ∧ h.point = .apply 0 (answerOf "b1") 1 ∧
      ∃ fp, Owed [] (text "0a") ⟨[], ⟨none, none⟩⟩ es h 0 (answerOf "b1") 1 fp := by
  obtain ⟨h, hrun, hpoint⟩ := exists_run (machine Text) (hostWith [])
    (firstSession ++ newAnswer "b1" ++
      [.page (.approve (some []) (text "b1") []), .command, goOn])
    (fun h => h.point = .apply 0 (answerOf "b1") 1) (by decide +kernel)
  have hpoint : h.point = .apply 0 (answerOf "b1") 1 := of_decide_eq_true hpoint
  exact ⟨_, h, hrun, hpoint, applied_only_approved hrun hpoint⟩

end RemoteBridge.Host
