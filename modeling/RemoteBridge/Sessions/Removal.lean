import RemoteBridge.Sessions.Active

/-!
# Sessions.Removal

Removing a device ends its access.  The page's handler takes the device out of
the list and leaves a `Disconnect` to the loop, which closes the connection if
the device is the active one.  This closes what it should if the active device
is the connected one and the loop is there to take the command.
-/

namespace RemoteBridge.Host

open Unicode Machine

variable {S : Type} [Sdp S] {h h' : Host S} {e : Event S} {fp : Text}

/-- The device is connected: an open connection accepted its answer. -/
def Connects (h : Host S) (fp : Text) : Prop :=
  ∃ i, IsOpen h.pcs i ∧ acceptedFp h.pcs i = some fp

instance (h : Host S) (fp : Text) : Decidable (Connects h fp) :=
  decidable_of_iff (∃ i < h.pcs.length, IsOpen h.pcs i ∧ acceptedFp h.pcs i = some fp) (by
    constructor
    · rintro ⟨i, -, hi⟩
      exact ⟨i, hi⟩
    · rintro ⟨i, hi⟩
      exact ⟨i, hi.1.lt_length, hi⟩)

/-! ## The loop's end -/

/-- The loop returns in this step. -/
def Ends (h : Host S) : Event S → Prop
  | .recvFailed => True
  | .resume o =>
      match h.point with
      | .approve _ _ fp _ => fp ∉ h.shared.paired.fingerprints ∧ o.io.fault.isSome
      | .answer _ fp _ => fp ∈ h.shared.paired.fingerprints ∧ o.io.fault.isSome
      | _ => False
  | _ => False

instance (h : Host S) (e : Event S) : Decidable (Ends h e) :=
  decidable_of_iff ((match e, h.point with
    | .recvFailed, _ => true
    | .resume o, .approve _ _ fp _ => !h.shared.paired.contains fp && o.io.fault.isSome
    | .resume o, .answer _ fp _ => h.shared.paired.contains fp && o.io.fault.isSome
    | _, _ => false) = true) (by
      unfold Ends
      cases e <;> cases h.point <;> simp [← PairedDevices.contains_iff])

/-- A `remove` of this device is under way, or its command waits for the loop. -/
def Removing (h : Host S) (fp : Text) : Prop := fp ∈ h.removals ∨ .disconnect fp ∈ h.commands

/-- `remove` succeeds. -/
def Removes (h : Host S) (header : Option Text) (fp : Text) (io : Io) : Prop :=
  header = some h.key ∧ fp ∈ h.shared.paired.fingerprints ∧ io.fault = none

/-- The loop does not return while a connected device is being removed. -/
def EndsIdle (h : Host S) (e : Event S) : Prop :=
  Ends h e → ∀ i < h.pcs.length, IsOpen h.pcs i → ∀ fp ∈ acceptedFp h.pcs i, ¬ Removing h fp

/-- No connected device is removed after the loop returned. -/
def RemovesHeard (h : Host S) : Event S → Prop
  | .page (.remove header fp io) => h.point = .returned → Removes h header fp io → ¬ Connects h fp
  | _ => True

/-- The step leaves every removal its effect: no answer is applied to a
connection of another device, and no removal of a connected device misses the
loop. -/
def Effective (h : Host S) (e : Event S) : Prop := OneDevice h e ∧ EndsIdle h e ∧ RemovesHeard h e

instance (h : Host S) (fp : Text) : Decidable (Removing h fp) :=
  inferInstanceAs (Decidable (_ ∨ _))

instance (h : Host S) (e : Event S) : Decidable (EndsIdle h e) :=
  inferInstanceAs (Decidable (_ → _))

instance (h : Host S) (header : Option Text) (fp : Text) (io : Io) :
    Decidable (Removes h header fp io) :=
  inferInstanceAs (Decidable (_ ∧ _))

instance [DecidableEq S] (h : Host S) (e : Event S) : Decidable (RemovesHeard h e) :=
  decidable_of_iff ((match e with
    | .page (.remove header fp io) =>
        decide (h.point = .returned → Removes h header fp io → ¬ Connects h fp)
    | _ => true) = true) (by
      unfold RemovesHeard
      split
      · rw [decide_eq_true_iff]
      · simp)

instance [DecidableEq S] (h : Host S) (e : Event S) : Decidable (Effective h e) :=
  inferInstanceAs (Decidable (_ ∧ _))

/-! ## A removal in a run -/

/-- A `remove` of this device sends its command and answers success. -/
def Answers (fp : Text) (h : Host S) : Event S → Prop
  | .page (.finishRemove i) => h.removals[i]? = some fp
  | _ => False

instance (fp : Text) (h : Host S) (e : Event S) : Decidable (Answers fp h e) :=
  decidable_of_iff ((match e with
    | .page (.finishRemove i) => h.removals[i]? == some fp
    | _ => false) = true) (by
      unfold Answers
      split <;> simp)

/-- `remove(fp)` took the device out of the list and then answered success, and
since it did the first the device was not approved again. -/
def Removed (key hostFp : Text) (paired : PairedDevices) (fp : Text) (es : List (Event S)) : Prop :=
  ∃ es₀ header io es₁ h₀ h₁, es = es₀ ++ .page (.remove header fp io) :: es₁ ∧
    (machine S).Run (init key hostFp paired) es₀ h₀ ∧
    (h₀.toAppState.remove header fp io).1 = none ∧
    (machine S).step h₀ (.page (.remove header fp io)) = some h₁ ∧
    (machine S).Occurs h₁ es₁ (Answers fp) ∧ ¬ (machine S).Occurs h₁ es₁ (Admits fp)

/-! ## The command on its way -/

/-- An answer of this device was accepted or is being applied. -/
def Serves (h : Host S) (fp : Text) : Prop :=
  Connects h fp ∨ ∃ pc sdp n, h.point = .apply pc sdp n ∧ fingerprintOf sdp = some fp

/-- A `Disconnect` of this device waits for the loop or is carried out. -/
def Sent (h : Host S) (fp : Text) : Prop :=
  .disconnect fp ∈ h.commands ∨ h.point = .disconnect fp ∨ ∃ pc, h.point = .disconnectClose fp pc

/-- The device is out of the list; while it is served the loop goes on, and a
`remove` has yet to answer or its command is on its way. -/
structure Leaving (answered : Prop) (fp : Text) (h : Host S) : Prop where
  unlisted : fp ∉ h.shared.paired.fingerprints
  sent : Serves h fp → h.point ≠ .returned ∧ (¬ answered ∧ fp ∈ h.removals ∨ Sent h fp)

/-- The loop that goes on receives commands. -/
def Receiving (h : Host S) : Prop := h.point ≠ .returned → h.receiving

theorem Step.receiving (hstep : Step h e h') (hinv : Receiving h) : Receiving h' := by
  cases hstep
  case page p status s hpage =>
    have hs := (AppState.paged_page hpage).receiving
    exact fun hpoint => hs.trans (hinv hpoint)
  all_goals grind [Receiving, leave, closePc]

theorem Step.ends (hstep : Step h e h') (hpoint : h.point ≠ .returned)
    (hreturned : h'.point = .returned) : Ends h e := by
  cases hstep
  all_goals grind [Ends, leave, closePc]

/-- A connection that is open after a step was open before it, or is new. -/
theorem Step.isOpen (hstep : Step h e h') {i : ConnectionId} (hopen : IsOpen h'.pcs i) :
    IsOpen h.pcs i ∨ acceptedFp h'.pcs i = none := by
  cases hstep
  case applied pc sdp n o hpoint => exact .inl (isOpen_setRemote.mp hopen)
  case started offer o hpoint houtcome =>
    rcases (isOpen_concat rfl).mp hopen with hopen | rfl
    · exact .inl hopen
    · right
      rw [acceptedFp, accepted_concat rfl]
      simp [accepted]
  all_goals first
    | exact .inl hopen
    | exact .inl (isOpen_close.mp hopen).1

/-- A connected device was connected before the step, or its answer was applied
in it. -/
theorem Step.serves_of_connects (hstep : Step h e h') (hconnects : Connects h' fp) :
    Serves h fp := by
  obtain ⟨i, hopen, hfp⟩ := hconnects
  rcases hstep.isOpen hopen with hbefore | hnone
  · cases hstep
    case applied pc sdp n o hpoint =>
      by_cases hsdp : fingerprintOf sdp = some fp
      · exact .inr ⟨pc, sdp, n, hpoint, hsdp⟩
      · refine .inl ⟨i, hbefore, ?_⟩
        by_cases hi : i = pc
        · subst hi
          rw [acceptedFp, accepted_setRemote_self hbefore] at hfp
          split at hfp
          · exact absurd hfp hsdp
          · exact hfp
        · rwa [acceptedFp, accepted_setRemote_of_ne hi] at hfp
    case started offer o hpoint houtcome =>
      rw [acceptedFp, accepted_concat rfl] at hfp
      exact .inl ⟨i, hbefore, hfp⟩
    all_goals first
      | exact .inl ⟨i, hbefore, hfp⟩
      | exact .inl ⟨i, hbefore, by rwa [acceptedFp, closePc, accepted_close] at hfp⟩
  · simp [hnone] at hfp

/-- A device that is not in the list and not approved is not served anew. -/
theorem Step.serves (hstep : Step h e h') (hwaits : Waits h)
    (hout : fp ∉ h.shared.paired.fingerprints) (hnot : ¬ Admits fp h e)
    (hserves : Serves h' fp) : Serves h fp := by
  rcases hserves with hconnects | ⟨pc, sdp, n, hpoint, hsdp⟩
  · exact hstep.serves_of_connects hconnects
  · have hwaiting := hwaits.point
    cases hstep
    case approved name sdp viewerFp pc o hbefore paired _ _ _ _ =>
      rw [hbefore] at hwaiting
      cases hpoint
      obtain rfl : viewerFp = fp := Option.some.inj (hwaiting.1.symm.trans hsdp)
      exact absurd ⟨by simp [Approving, hbefore], id⟩ hnot
    case known sdp viewerFp pc o hbefore hknown paired _ =>
      rw [hbefore] at hwaiting
      cases hpoint
      obtain rfl : viewerFp = fp := Option.some.inj (hwaiting.symm.trans hsdp)
      exact absurd hknown hout
    case page => exact .inr ⟨pc, sdp, n, hpoint, hsdp⟩
    all_goals grind [Serves, leave, closePc]

/-- A connected device is recorded as active, outside the branches that change
this. -/
theorem active_of_connects (hconn : Connected h) (hrecorded : Recorded h)
    (hclosing : h.point.closing = none) (happly : ∀ pc sdp n, h.point ≠ .apply pc sdp n)
    (hconnects : Connects h fp) : ∃ i, h.shared.active = some (fp, i) := by
  obtain ⟨i, hopen, hfp⟩ := hconnects
  have hcurrent := hconn.others i hopen
  rw [hclosing] at hcurrent
  have hrecord := hrecorded fp i (hcurrent.resolve_right (by simp)) hfp
  rw [hclosing] at hrecord
  refine ⟨i, hrecord.resolve_right ?_⟩
  simp [happly]

/-- A command on its way stays so until its device is not served. -/
theorem Step.sent (hstep : Step h e h') (hconn : Connected h) (hrecorded : Recorded h)
    (hsent : Sent h fp) (hgoes : h'.point ≠ .returned) (hserves : Serves h' fp) : Sent h' fp := by
  have hok := hconn.point
  cases hstep
  case page p status s hpage =>
    rcases hsent with hcommand | hpoint
    · exact .inl ((AppState.paged_page hpage).commands.subset hcommand)
    · exact .inr hpoint
  case disconnectedNone fp' o hpoint hactive =>
    rcases hsent with hcommand | hdisconnect | ⟨pc, hclose⟩
    · exact .inl hcommand
    · -- its connection would be recorded as active
      rw [hpoint] at hdisconnect
      cases hdisconnect
      have hconnects : Connects h fp := hserves.resolve_right (by simp)
      obtain ⟨i, hi⟩ := active_of_connects hconn hrecorded (by simp [hpoint, Point.closing])
        (by simp [hpoint]) hconnects
      exact absurd hi (hactive i)
    · simp [hpoint] at hclose
  case disconnectClosed fp' pc o hpoint =>
    -- no other connection was open
    obtain ⟨i, hopen, -⟩ := hserves.resolve_right (by simp)
    obtain ⟨hbefore, hne⟩ := isOpen_close.mp hopen
    have hcurrent := hconn.others i hbefore
    rw [hpoint] at hcurrent hok
    exfalso
    rcases hok.1 with ⟨hnone, -⟩ | hsome
    · grind [Point.closing]
    · grind [Point.closing]
  all_goals grind [Sent, leave, closePc]

/-- A loop that returns while no connected device is being removed leaves none
that was. -/
theorem Leaving.not_ends {answered : Prop} (hinv : Leaving answered fp h) (hidle : EndsIdle h e)
    (hends : Ends h e) (hstep : Step h e h') : ¬ Serves h fp := by
  intro hserves
  have happly : ∀ pc sdp n, h.point ≠ .apply pc sdp n := by
    cases hstep <;> grind [Ends]
  obtain ⟨i, hopen, hfp⟩ : Connects h fp := hserves.resolve_right (by simp [happly])
  have hnot := hidle hends i hopen.lt_length hopen fp hfp
  rcases (hinv.sent hserves).2 with ⟨-, hremoval⟩ | hcommand | hdisconnect | ⟨pc, hclose⟩
  · exact hnot (.inl hremoval)
  · exact hnot (.inr hcommand)
  · cases hstep <;> grind [Ends]
  · cases hstep <;> grind [Ends]

/-- A `remove` under way goes on, or sends its command. -/
theorem Step.removals (hstep : Step h e h') (hreceiving : h.receiving) (hfp : fp ∈ h.removals)
    (hgoes : h'.point ≠ .returned) :
    (¬ Answers fp h e ∧ fp ∈ h'.removals) ∨ .disconnect fp ∈ h'.commands := by
  cases hstep
  case page p status s hpage =>
    by_cases hanswers : Answers fp h (.page p)
    · cases p with
      | finishRemove i => exact .inr (AppState.finishRemove_sent hpage hanswers hreceiving)
      | _ => exact hanswers.elim
    · exact (AppState.removals_page hpage hfp hreceiving).imp_left (⟨hanswers, ·⟩)
  all_goals exact .inl ⟨id, hfp⟩

/-- **One step** after a removal keeps its command on its way. -/
theorem Step.leaving {answered : Prop} (hstep : Step h e h') (hconn : Connected h)
    (hwaits : Waits h) (hrecorded : Recorded h) (hreceiving : Receiving h)
    (hinv : Leaving answered fp h) (heffective : Effective h e) (hnot : ¬ Admits fp h e) :
    Leaving (answered ∨ Answers fp h e) fp h' := by
  constructor
  · intro hin
    exact hnot (hstep.admits hinv.unlisted hin)
  · intro hserves'
    have hserves := hstep.serves hwaits hinv.unlisted hnot hserves'
    obtain ⟨hpoint, hsent⟩ := hinv.sent hserves
    have hgoes : h'.point ≠ .returned := fun hreturned =>
      hinv.not_ends heffective.2.1 (hstep.ends hpoint hreturned) hstep hserves
    refine ⟨hgoes, ?_⟩
    rcases hsent with ⟨hanswered, hremoval⟩ | hsent
    · rcases hstep.removals (hreceiving hpoint) hremoval hgoes with ⟨hanswers, hremoval⟩ | hcommand
      · exact .inl ⟨by simp [hanswered, hanswers], hremoval⟩
      · exact .inr (.inl hcommand)
    · exact .inr (hstep.sent hconn hrecorded hsent hgoes hserves')

/-! ## Every run -/

/-- The invariants a removal rests on. -/
structure Kept (h : Host S) : Prop where
  connected : Connected h
  waits : Waits h
  recorded : Recorded h
  receiving : Receiving h

theorem Step.kept (hstep : Step h e h') (hinv : Kept h) (hone : OneDevice h e) : Kept h' :=
  ⟨hstep.connected hinv.connected, hstep.waits hinv.waits,
    hstep.recorded hinv.connected hinv.waits hinv.recorded hone, hstep.receiving hinv.receiving⟩

theorem kept_of_run {key hostFp : Text} {paired : PairedDevices} {es : List (Event S)}
    (hrun : (machine S).Run (init key hostFp paired) es h)
    (heffective : (machine S).Along (init key hostFp paired) es Effective) : Kept h := by
  refine hrun.invariant_along heffective ⟨connected_init .., waits_init .., ?_, fun _ => rfl⟩ ?_
  · intro fp i hcurrent
    simp [init] at hcurrent
  · intro s e s' hinv heffective hstep
    exact (step_of_eq hstep).kept hinv heffective.1

/-- From a removal on, its command is on its way as long as it is needed. -/
theorem leaving_of_run {h₀ : Host S} {es : List (Event S)} (hrun : (machine S).Run h₀ es h)
    (hkept : Kept h₀) (hleaving : Leaving False fp h₀)
    (heffective : (machine S).Along h₀ es Effective)
    (hnot : ¬ (machine S).Occurs h₀ es (Admits fp)) :
    Kept h ∧ Leaving ((machine S).Occurs h₀ es (Answers fp)) fp h := by
  refine hrun.rec_snoc (P := fun es h => (machine S).Along h₀ es Effective →
    ¬ (machine S).Occurs h₀ es (Admits fp) →
    Kept h ∧ Leaving ((machine S).Occurs h₀ es (Answers fp)) fp h) ?_ ?_ heffective hnot
  · intro _ _
    simpa [not_occurs_nil] using And.intro hkept hleaving
  · intro es e s s' hs ih hstep heffective hnot
    rw [along_snoc hs] at heffective
    rw [occurs_snoc hs, not_or] at hnot
    rw [occurs_snoc hs]
    obtain ⟨hkept, hleaving⟩ := ih heffective.1 hnot.1
    have hstep := step_of_eq hstep
    exact ⟨hstep.kept hkept heffective.2.1, hstep.leaving hkept.connected hkept.waits
      hkept.recorded hkept.receiving hleaving heffective.2 hnot.2⟩

/-- After the first half of `remove` its second half is under way, and if the
loop has returned the device is not connected. -/
theorem leaving_of_remove {header : Option Text} {io : Io}
    (hremove : (h.toAppState.remove header fp io).1 = none)
    (hstep : (machine S).step h (.page (.remove header fp io)) = some h')
    (hheard : RemovesHeard h (.page (.remove header fp io))) : Leaving False fp h' := by
  obtain rfl : { h with toAppState := (h.toAppState.remove header fp io).2 } = h' := by
    simpa [machine, step, AppState.page] using hstep
  have hpage : h.toAppState.page (.remove header fp io) =
      some (none, (h.toAppState.remove header fp io).2) := by
    rw [AppState.page, ← hremove]
  obtain ⟨hout, hremovals⟩ := AppState.remove_pending hpage
  refine ⟨hout, fun hserves => ⟨fun hreturned => ?_, .inl ⟨id, by simp [hremovals]⟩⟩⟩
  have hreturned : h.point = .returned := hreturned
  exact hheard hreturned (AppState.remove_eq_none hremove)
    (hserves.resolve_right (by simp [hreturned]))

/-- **Removing a device ends its access.**  In a run whose steps all leave the
removals their effect, once `remove` of a device answered success and no command
is left that the loop will still handle, no open connection has an answer of the
device accepted, unless it was approved again. -/
theorem removal_ends_access {key hostFp : Text} {paired : PairedDevices} {es : List (Event S)}
    (hrun : (machine S).Run (init key hostFp paired) es h)
    (heffective : (machine S).Along (init key hostFp paired) es Effective)
    (hremoved : Removed key hostFp paired fp es) (hcommands : h.commands = [])
    (hbranch : ∀ pc, h.point ≠ .disconnect fp ∧ h.point ≠ .disconnectClose fp pc) :
    ¬ Connects h fp := by
  obtain ⟨es₀, header, io, es₁, h₀, h₁, rfl, hrun₀, hremove, hstep, hanswers, hnot⟩ := hremoved
  have hstep₀ := heffective es₀ _ es₁ h₀ rfl hrun₀
  have hkept := (step_of_eq hstep).kept (kept_of_run hrun₀ heffective.left) hstep₀.1
  -- the rest of the run, from the list without the device
  have hrun₁ : (machine S).Run (init key hostFp paired)
      (es₀ ++ [.page (.remove header fp io)]) h₁ := run_snoc.mpr ⟨h₀, hrun₀, hstep⟩
  rw [List.append_cons] at hrun heffective
  obtain ⟨h₁', hrun₁', hrun⟩ := run_append.mp hrun
  obtain rfl := hrun₁.unique hrun₁'
  have hleaving := (leaving_of_run hrun hkept (leaving_of_remove hremove hstep hstep₀.2.2)
    (heffective.right hrun₁) hnot).2
  intro hconnects
  rcases (hleaving.sent (.inl hconnects)).2 with ⟨hno, -⟩ | hcommand | hpoint | ⟨pc, hpoint⟩
  · exact hno hanswers
  · simp [hcommands] at hcommand
  · exact (hbranch 0).1 hpoint
  · exact (hbranch pc).2 hpoint

/-! ## Short runs -/

/-- A removal is found by executing it. -/
theorem exists_removed (key hostFp : Text) (paired : PairedDevices) (fp : Text)
    (header : Option Text) (io : Io) (es₀ es₁ : List (Event S)) (p : Host S → Bool)
    (hexec : ((machine S).exec (init key hostFp paired) es₀).any fun h₀ =>
      (h₀.toAppState.remove header fp io).1 = none &&
        ((machine S).step h₀ (.page (.remove header fp io))).any fun h₁ =>
          (machine S).Occurs h₁ es₁ (Answers fp) && ¬ (machine S).Occurs h₁ es₁ (Admits fp) &&
            ((machine S).exec h₁ es₁).any p) :
    ∃ h, (machine S).Run (init key hostFp paired) (es₀ ++ .page (.remove header fp io) :: es₁) h ∧
      Removed key hostFp paired fp (es₀ ++ .page (.remove header fp io) :: es₁) ∧ p h := by
  obtain ⟨h₀, hrun₀, hexec⟩ := exists_run _ _ _ _ hexec
  simp only [Bool.and_eq_true, decide_eq_true_eq] at hexec
  obtain ⟨hremove, hexec⟩ := hexec
  obtain ⟨h₁, hstep, hexec⟩ := (Option.any_eq_true _ _).mp hexec
  simp only [Bool.and_eq_true, decide_eq_true_eq] at hexec
  obtain ⟨⟨hanswers, hnot⟩, hexec⟩ := hexec
  obtain ⟨h, hrun, hp⟩ := exists_run _ _ _ _ hexec
  exact ⟨h, run_append.mpr ⟨h₀, hrun₀, run_cons.mpr ⟨h₁, hstep, hrun⟩⟩,
    ⟨es₀, header, io, es₁, h₀, h₁, rfl, hrun₀, hremove, hstep, hanswers, hnot⟩, hp⟩

/-- `removal_ends_access` for a paired device that is removed while connected. -/
theorem removal_ends_access_connected :
    ∃ es h, (machine Text).Run (hostWith ["b1"]) es h ∧
      Removed [] (text "0a") (hostWith ["b1"]).shared.paired (text "b1") es ∧
      acceptedFp h.pcs 0 = some (text "b1") ∧ ¬ Connects h (text "b1") := by
  let es₀ := firstSession ++ knownAnswer "b1"
  let es₁ : List (Event Text) := [.page (.finishRemove 0), .command, goOn, goOn]
  obtain ⟨h, hrun, hremoved, hend⟩ := exists_removed [] (text "0a")
    (hostWith ["b1"]).shared.paired (text "b1") (some []) ⟨fun _ => 0, none⟩ es₀ es₁
    (fun h => h.commands = [] ∧ h.point = .head ∧ acceptedFp h.pcs 0 = some (text "b1"))
    (by decide +kernel)
  obtain ⟨hcommands, hhead, haccepted⟩ := of_decide_eq_true hend
  have heffective : (machine Text).Along (hostWith ["b1"])
      (es₀ ++ .page (.remove (some []) (text "b1") ⟨fun _ => 0, none⟩) :: es₁) Effective := by
    decide +kernel
  exact ⟨_, h, hrun, hremoved, haccepted,
    removal_ends_access hrun heffective hremoved hcommands (by simp [hhead])⟩

/-- Two paired devices answer in one session: removing the first leaves it
connected. -/
theorem connected_after_removal :
    ∃ es h, (machine Text).Run (hostWith ["b1", "c2"]) es h ∧
      Removed [] (text "0a") (hostWith ["b1", "c2"]).shared.paired (text "b1") es ∧
      h.commands = [] ∧ h.point = .head ∧ Connects h (text "b1") := by
  obtain ⟨h, hrun, hremoved, hend⟩ := exists_removed [] (text "0a")
    (hostWith ["b1", "c2"]).shared.paired (text "b1") (some []) ⟨fun _ => 0, none⟩
    (firstSession ++ knownAnswer "b1" ++ knownAnswer "c2")
    [.page (.finishRemove 0), .command, goOn]
    (fun h => h.commands = [] ∧ h.point = .head ∧ Connects h (text "b1")) (by decide +kernel)
  exact ⟨_, h, hrun, hremoved, of_decide_eq_true hend⟩

/-- The signaling connection ends: removing the connected device leaves it
connected. -/
theorem connected_after_removal_lost :
    ∃ es h, (machine Text).Run (hostWith ["b1"]) es h ∧
      Removed [] (text "0a") (hostWith ["b1"]).shared.paired (text "b1") es ∧
      h.commands = [] ∧ h.point = .returned ∧ Connects h (text "b1") := by
  obtain ⟨h, hrun, hremoved, hend⟩ := exists_removed [] (text "0a")
    (hostWith ["b1"]).shared.paired (text "b1") (some []) ⟨fun _ => 0, none⟩
    (firstSession ++ knownAnswer "b1" ++ [.recvFailed]) [.page (.finishRemove 0)]
    (fun h => h.commands = [] ∧ h.point = .returned ∧ Connects h (text "b1")) (by decide +kernel)
  exact ⟨_, h, hrun, hremoved, of_decide_eq_true hend⟩

end RemoteBridge.Host
