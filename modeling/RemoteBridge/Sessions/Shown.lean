import RemoteBridge.Sessions.Approval

/-!
# Sessions.Shown

What the host page shows as waiting against the answer the loop holds.  Both are
set in one place and cleared in several; the one branch that leaves them without
a connection is `Disconnect`, which gives up the current connection whatever
waits.
-/

namespace RemoteBridge

variable {S : Type}

/-- The loop is about to clear what the page shows, or has returned. -/
def Point.clears : Point S → Bool
  | .approve _ _ _ _ | .reject _ | .join | .returned => true
  | _ => false

namespace Host

open Unicode Machine

variable [Sdp S] {h h' : Host S} {e : Event S}

/-- The page shows the device of the answer the loop holds, and that answer can
be applied: it is of the current session, which has a connection. -/
structure Actionable (h : Host S) : Prop where
  shown : h.shared.pending = h.waiting.map fun w => h.shown w.fingerprint
  current : ∀ w, h.waiting = some w → w.session = h.session ∧
    ∃ pc, h.current = some pc ∧ IsOpen h.pcs pc ∧ sessionOf h.pcs pc = some w.session

/-- No answer waits when `Disconnect` gives up the connection. -/
def NoneWaits (h : Host S) (e : Event S) : Prop :=
  match h.point, e with
  | .disconnectClose _ _, .resume _ => h.waiting = none
  | _, _ => True

instance (h : Host S) (e : Event S) : Decidable (NoneWaits h e) :=
  decidable_of_iff ((match h.point, e with
    | .disconnectClose _ _, .resume _ => h.waiting.isNone
    | _, _ => true) = true) (by
      unfold NoneWaits
      split <;> simp)

omit [Sdp S] in
theorem noneWaits_disconnectClose {fp : Text} {pc : ConnectionId} {o : Outcome S}
    (hpoint : h.point = .disconnectClose fp pc) :
    NoneWaits h (.resume o) ↔ h.waiting = none := by
  simp only [NoneWaits, hpoint]

/-- A waiting answer has a connection; without one the page shows none, or the
loop is about to clear it. -/
structure Held (h : Host S) : Prop where
  current : ∀ w, h.waiting = some w → h.current ≠ none
  shown : h.waiting = none → h.shared.pending = none ∨ h.point.clears

omit [Sdp S] in
theorem held_init (key hostFp : Text) (paired : PairedDevices) :
    Held (init key hostFp paired : Host S) :=
  ⟨by simp [init], fun _ => .inl rfl⟩

omit [Sdp S] in
/-- A branch that clears nothing, and changes neither what waits nor what is shown, nor whether
there is a connection. -/
theorem Held.keeps (hinv : Held h) (hclears : h.point.clears = false)
    (hwaiting : h'.waiting = h.waiting) (hcurrent : h'.current = h.current)
    (hpending : h'.shared.pending = h.shared.pending) : Held h' := by
  refine ⟨fun w hw => ?_, fun hw => ?_⟩
  · rw [hcurrent]
    exact hinv.current w (hwaiting ▸ hw)
  · have hshown := hinv.shown (hwaiting ▸ hw)
    rw [hclears] at hshown
    rw [hpending]
    exact .inl (hshown.resolve_right (by simp))

omit [Sdp S] in
/-- Where no answer waits, none is shown or the branch clears it. -/
theorem Held.unawaited (hnone : h'.waiting = none)
    (hshown : h'.shared.pending = none ∨ h'.point.clears) : Held h' := by
  refine ⟨fun w hw => ?_, fun _ => hshown⟩
  rw [hnone] at hw
  contradiction

omit [Sdp S] in
/-- What was shown without an answer that waits is gone after a branch that clears nothing. -/
theorem Held.pending_eq_none (hinv : Held h) (hclears : h.point.clears = false)
    (hnone : h.waiting = none) : h.shared.pending = none :=
  (hinv.shown hnone).resolve_right (by simp [hclears])

/-- **One step** that gives up no waiting answer's connection. -/
theorem Step.held (hstep : Step h e h') (hconn : Connected h) (hwaits : Waits h) (hinv : Held h)
    (hnone : NoneWaits h e) : Held h' := by
  have hok := hconn.point
  have hpt := hwaits.point
  cases hstep
  case page p status s hpage =>
    have hpaged := AppState.paged_page hpage
    refine ⟨hinv.current, fun hw => ?_⟩
    rw [hpaged.pending]
    exact hinv.shown hw
  -- the branches of an answer
  case answered sdp fp pc hpoint hcurrent hviewer =>
    exact hinv.keeps (by rw [hpoint]; rfl) rfl rfl rfl
  case known sdp fp pc o hpoint hknown paired hfps =>
    exact hinv.keeps (by rw [hpoint]; rfl) rfl rfl rfl
  case unknown sdp fp pc o hpoint hunknown =>
    rw [hpoint] at hok
    refine ⟨fun w _ => ?_, fun hw => by contradiction⟩
    rw [show h.current = some pc from hok]
    exact Option.some_ne_none pc
  case touchFailed sdp fp pc o hpoint hknown hfault paired hfps =>
    exact hinv.keeps (by rw [hpoint]; rfl) rfl rfl rfl
  case applied pc sdp n o hpoint => exact hinv.keeps (by rw [hpoint]; rfl) rfl rfl rfl
  -- the branches of a command
  case approving name w pc commands hpoint hcommand hw hcurrent hsession =>
    exact Held.unawaited rfl (.inr rfl)
  case rejecting w commands hpoint hcommand hw => exact Held.unawaited rfl (.inr rfl)
  case dropped name w commands hpoint hcommand hw hstale =>
    -- a waiting answer is of the current session, which has a connection
    obtain hcurrent | hsession := hstale
    · exact absurd hcurrent (hinv.current w hw)
    · exact absurd (hwaits.waiting w hw).2.2 hsession
  case passed c commands hpoint hcommand hother hw =>
    exact hinv.keeps (by rw [hpoint]; rfl) rfl rfl rfl
  case disconnecting fp commands hpoint hcommand =>
    exact hinv.keeps (by rw [hpoint]; rfl) rfl rfl rfl
  case approved name sdp fp pc o hpoint paired _ _ _ _ =>
    rw [hpoint] at hpt
    exact Held.unawaited hpt.2.2 (.inl rfl)
  case approveFailed name sdp fp pc o hpoint hfault paired hfps hothers =>
    rw [hpoint] at hpt
    exact Held.unawaited hpt.2.2 (.inr rfl)
  case rejected fp pc o hpoint hcurrent =>
    rw [hpoint] at hpt
    exact Held.unawaited hpt.2 (.inl rfl)
  case rejectedNone fp o hpoint hcurrent =>
    rw [hpoint] at hpt
    exact Held.unawaited hpt.2 (.inl rfl)
  case rejectClosed fp pc o hpoint =>
    have hclears : h.point.clears = false := by rw [hpoint]; rfl
    rw [hpoint] at hpt
    exact Held.unawaited hpt (.inl (hinv.pending_eq_none hclears hpt))
  case disconnected fp pc o hpoint hactive =>
    exact hinv.keeps (by rw [hpoint]; rfl) rfl rfl rfl
  case disconnectedNone fp o hpoint hactive =>
    exact hinv.keeps (by rw [hpoint]; rfl) rfl rfl rfl
  case disconnectClosed fp pc o hpoint =>
    have hclears : h.point.clears = false := by rw [hpoint]; rfl
    rw [noneWaits_disconnectClose hpoint] at hnone
    exact Held.unawaited hnone (.inl (hinv.pending_eq_none hclears hnone))
  -- the branches of a viewer that joins
  case joined hpoint => exact Held.unawaited rfl (.inr rfl)
  case joinedCurrent old o hpoint hcurrent =>
    rw [hpoint] at hpt
    exact Held.unawaited hpt (.inl rfl)
  case joinedNone o hpoint hcurrent =>
    rw [hpoint] at hpt
    exact Held.unawaited hpt (.inl rfl)
  case joinClosed old o hpoint =>
    have hclears : h.point.clears = false := by rw [hpoint]; rfl
    rw [hpoint] at hpt
    exact Held.unawaited hpt (.inl (hinv.pending_eq_none hclears hpt))
  case started offer o hpoint houtcome =>
    have hclears : h.point.clears = false := by rw [hpoint]; rfl
    rw [hpoint] at hpt
    exact Held.unawaited hpt (.inl (hinv.pending_eq_none hclears hpt))
  case startFailed o hpoint houtcome => exact hinv.keeps (by rw [hpoint]; rfl) rfl rfl rfl
  -- the messages that are not for it
  case skipped | ignored => exact hinv
  case configured ice hpoint => exact hinv.keeps (by rw [hpoint]; rfl) rfl rfl rfl
  case lost hpoint =>
    exact hinv.keeps (by rcases hpoint with hp | hp <;> rw [hp] <;> rfl) rfl rfl rfl

/-- What holds in a run that gives up no waiting answer's connection. -/
theorem actionable_of_run {key hostFp : Text} {paired : PairedDevices} {es : List (Event S)}
    (hrun : (machine S).Run (init key hostFp paired) es h)
    (hnone : (machine S).Along (init key hostFp paired) es NoneWaits) (hhead : h.point = .head) :
    Actionable h := by
  have hinv : (Connected h ∧ Waits h) ∧ Held h := by
    refine hrun.invariant_along (I := fun h => (Connected h ∧ Waits h) ∧ Held h) hnone
      ⟨⟨connected_init .., waits_init ..⟩, held_init ..⟩ ?_
    rintro s e s' ⟨⟨hconn, hwaits⟩, hheld⟩ hnone hstep
    have hstep := step_of_eq hstep
    exact ⟨⟨hstep.connected hconn, hstep.waits hwaits⟩, hstep.held hconn hwaits hheld hnone⟩
  obtain ⟨⟨hconn, hwaits⟩, hheld⟩ := hinv
  constructor
  · cases hw : h.waiting with
    | none => exact (hheld.shown hw).resolve_right (by simp [hhead, Point.clears])
    | some w => exact (hwaits.waiting w hw).2.1
  · intro w hw
    obtain ⟨pc, hpc⟩ := Option.ne_none_iff_exists'.mp (hheld.current w hw)
    obtain ⟨hopen, hsession⟩ := hconn.current pc hpc
    have hw := (hwaits.waiting w hw).2.2
    exact ⟨hw, pc, hpc, hopen, hw ▸ hsession⟩

/-- **What the page shows as waiting is what the loop can act on**, at the head
of the loop, throughout the runs in which `Disconnect` never gives up the
connection of a waiting answer, and in no others. -/
theorem actionable_iff_noneWaits {key hostFp : Text} {paired : PairedDevices}
    {es : List (Event S)} (hrun : (machine S).Run (init key hostFp paired) es h) :
    (machine S).Throughout (init key hostFp paired) es (fun h => h.point = .head → Actionable h) ↔
      (machine S).Along (init key hostFp paired) es NoneWaits := by
  refine hrun.throughout_iff_along (by simp [init]) fun es s e s' hs _ hnone hstep => ?_
  constructor
  · intro hactionable
    unfold NoneWaits
    split
    · next fp pc o hpoint =>
      obtain rfl : { s.closePc pc with current := none, point := .head } = s' := by
        simpa [machine, step, resume, hpoint] using hstep
      -- the step leaves no connection, so no answer may wait
      by_contra hwaiting
      obtain ⟨w, hw⟩ := Option.ne_none_iff_exists'.mp hwaiting
      obtain ⟨-, i, hi, -⟩ := (hactionable rfl).current w hw
      simp at hi
    · trivial
  · intro hstepOk
    exact actionable_of_run (run_snoc.mpr ⟨s, hs, hstep⟩) ((along_snoc hs).mpr ⟨hnone, hstepOk⟩)

/-- `actionable_iff_noneWaits` for a device that answers and is then rejected. -/
theorem actionable_iff_noneWaits_rejected :
    ∃ es h, (machine Text).Run (hostWith []) es h ∧ h.waiting = none ∧ h.shared.pending = none ∧
      (machine Text).Throughout (hostWith []) es fun h => h.point = .head → Actionable h := by
  let es : List (Event Text) := firstSession ++ newAnswer "b1" ++
    [.page (.reject (some []) (text "b1")), .command, goOn, goOn]
  obtain ⟨h, hrun, hend⟩ := exists_run (machine Text) (hostWith []) es
    (fun h => h.waiting = none ∧ h.shared.pending = none) (by decide +kernel)
  obtain ⟨hwaiting, hpending⟩ := of_decide_eq_true hend
  exact ⟨es, h, hrun, hwaiting, hpending, (actionable_iff_noneWaits hrun).mpr (by decide +kernel)⟩

/-- The connected device is removed while a new device waits: the page goes on
showing the new device, and approving it only drops its answer. -/
theorem shown_not_actionable :
    ∃ es h h', (machine Text).Run (hostWith ["b1"]) es h ∧ h.point = .head ∧
      h.shared.pending = some (h.shown (text "c2")) ∧ h.current = none ∧ ¬ Actionable h ∧
      (machine Text).Run h [.page (.approve (some []) (text "c2") []), .command] h' ∧
      h'.point = .head ∧ h'.waiting = none ∧ h'.shared = h.shared := by
  let approval : List (Event Text) := [.page (.approve (some []) (text "c2") []), .command]
  obtain ⟨h, hrun, hend⟩ := exists_run (machine Text) (hostWith ["b1"])
    (firstSession ++ knownAnswer "b1" ++ newAnswer "c2" ++
      [.page (.remove (some []) (text "b1") ⟨fun _ => 0, none⟩), .page (.finishRemove 0),
        .command, goOn, goOn])
    (fun h => (h.point = .head ∧ h.shared.pending = some (h.shown (text "c2")) ∧
      h.current = none) ∧ ((machine Text).exec h approval).any fun h' =>
        h'.point = .head ∧ h'.waiting = none ∧ h'.shared = h.shared) (by decide +kernel)
  obtain ⟨⟨hhead, hpending, hcurrent⟩, happroval⟩ := of_decide_eq_true hend
  obtain ⟨h', hrun', hend'⟩ := exists_run _ _ _ _ happroval
  obtain ⟨hhead', hwaiting', hshared'⟩ := of_decide_eq_true hend'
  refine ⟨_, h, h', hrun, hhead, hpending, hcurrent, ?_, hrun', hhead', hwaiting', hshared'⟩
  intro hactionable
  have hshown := hactionable.shown
  rw [hpending, eq_comm, Option.map_eq_some_iff] at hshown
  obtain ⟨w, hw, -⟩ := hshown
  obtain ⟨-, i, hi, -⟩ := hactionable.current w hw
  simp [hcurrent] at hi

end Host

end RemoteBridge
