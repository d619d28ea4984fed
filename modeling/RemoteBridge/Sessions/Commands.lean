import RemoteBridge.Sessions.Active

/-!
# Sessions.Commands

The host page's commands against the devices they name.  A command is matched by
fingerprint with the waiting answer or the active device, and what it closes is
the current connection; these are of one device as long as every answer taken up
in a session is of the device the session already belongs to.
-/

namespace RemoteBridge

open Unicode

variable {S : Type}

/-- The device named by the command this point carries out. -/
def Point.named : Point S → Option Text
  | .approve _ _ fp _ | .reject fp | .rejectClose fp _ | .disconnect fp | .disconnectClose fp _ =>
      some fp
  | _ => none

namespace Host

open Machine

variable [Sdp S] {h h' : Host S} {e : Event S}

/-- The device named by the command that this step carries out. -/
def acting (h : Host S) : Event S → Option Text
  | .command => h.commands.head?.map Command.fingerprint
  | .resume _ => h.point.named
  | _ => none

/-- What a step for the device `fp` may do: apply an answer of this device,
change its entry in the list, close a connection that accepted no other's answer,
and leave another's answer waiting, shown and with its connection. -/
structure ActsOn (fp : Text) (h h' : Host S) : Prop where
  applies : ∀ pc sdp n, h'.point = .apply pc sdp n → fingerprintOf sdp = some fp
  devices : h'.shared.paired.others fp = h.shared.paired.others fp
  closes : ∀ i fp', IsOpen h.pcs i → ¬ IsOpen h'.pcs i → acceptedFp h.pcs i = some fp' → fp' = fp
  waiting : ∀ w, h.waiting = some w → w.fingerprint ≠ fp → h'.waiting = some w ∧
    h'.current = h.current ∧ ∀ i, h.current = some i → IsOpen h'.pcs i
  pending : ∀ p, h.shared.pending = some p → p.fingerprint ≠ fp → h'.shared.pending = some p

/-- An answer is taken up in a session of no other device: a paired device's if
the connection accepted none of another device and none of another device waits,
an unpaired device's if no other device is active. -/
def SameDevice (h : Host S) (e : Event S) : Prop :=
  match h.point, e with
  | .answer _ fp pc, .resume _ =>
      if fp ∈ h.shared.paired.fingerprints then
        (∀ fp' ∈ acceptedFp h.pcs pc, fp' = fp) ∧ ∀ w ∈ h.waiting, w.fingerprint = fp
      else ∀ device ∈ h.shared.active, device.1 = fp
  | _, _ => True

instance (h : Host S) (e : Event S) : Decidable (SameDevice h e) :=
  decidable_of_iff ((match h.point, e with
    | .answer _ fp pc, .resume _ =>
        decide (if fp ∈ h.shared.paired.fingerprints then
          (∀ fp' ∈ acceptedFp h.pcs pc, fp' = fp) ∧ ∀ w ∈ h.waiting, w.fingerprint = fp
        else ∀ device ∈ h.shared.active, device.1 = fp)
    | _, _ => true) = true) (by
      unfold SameDevice
      split
      · rw [decide_eq_true_iff]
      · simp)

theorem sameDevice_answer {sdp : S} {fp : Text} {pc : ConnectionId} {o : Outcome S}
    (hpoint : h.point = .answer sdp fp pc) :
    SameDevice h (.resume o) ↔
      if fp ∈ h.shared.paired.fingerprints then
        (∀ fp', acceptedFp h.pcs pc = some fp' → fp' = fp) ∧
          ∀ w, h.waiting = some w → w.fingerprint = fp
      else ∀ device, h.shared.active = some device → device.1 = fp := by
  simp only [SameDevice, hpoint, Option.mem_def]

/-! ## One device to a session -/

/-- What the device a branch is about has to do with the session's. -/
def Point.Own (h : Host S) : Point S → Prop
  | .approve _ _ fp pc => ∀ fp', h.shared.active = some (fp', pc) → fp' = fp
  | .apply pc sdp _ => ∀ fp, acceptedFp h.pcs pc = some fp → fingerprintOf sdp = some fp
  | .reject fp => ∀ fp' i, h.current = some i → h.shared.active = some (fp', i) → fp' = fp
  | .rejectClose fp pc => ∀ fp', acceptedFp h.pcs pc = some fp' → fp' = fp
  | .disconnectClose fp pc => h.current = some pc →
      (∀ fp', acceptedFp h.pcs pc = some fp' → fp' = fp) ∧
        ∀ w, h.waiting = some w → w.fingerprint = fp
  | _ => True

/-- The current connection, the active device and the waiting answer are of one
device. -/
structure Own (h : Host S) : Prop where
  record : ∀ fp i, h.current = some i → acceptedFp h.pcs i = some fp →
    h.shared.active = some (fp, i) ∨ h.point.closing = some i
  waiting : ∀ w fp i, h.waiting = some w → h.current = some i → h.shared.active = some (fp, i) →
    fp = w.fingerprint
  point : Point.Own h h.point

theorem own_init (key hostFp : Text) (paired : PairedDevices) :
    Own (init key hostFp paired : Host S) :=
  ⟨by simp [init], by simp [init], trivial⟩

theorem Own.page {s : AppState} (hinv : Own h) (hs : h.toAppState.Paged s) :
    Own { h with toAppState := s } := by
  obtain ⟨hrecord, hwaiting, hpoint⟩ := hinv
  refine ⟨?_, ?_, ?_⟩
  · simpa only [hs.active] using hrecord
  · simpa only [hs.active] using hwaiting
  · cases hp : h.point <;> simp_all [Point.Own, hs.active]

/-- A session without a connection is of no device. -/
theorem Own.unconnected (hcurrent : h'.current = none) (hpoint : Point.Own h' h'.point) : Own h' := by
  refine ⟨fun fp i hi => ?_, fun w fp i _ hi => ?_, hpoint⟩
  · rw [hcurrent] at hi
    contradiction
  · rw [hcurrent] at hi
    contradiction

/-- A branch that closes no connection, and changes neither what is connected nor who is active,
keeps the devices as they are; an answer may stop waiting. -/
theorem Own.keeps (hinv : Own h) (hclosing : h.point.closing = none)
    (hcurrent : h'.current = h.current) (hpcs : h'.pcs = h.pcs)
    (hactive : h'.shared.active = h.shared.active)
    (hwaiting : ∀ w, h'.waiting = some w → h.waiting = some w)
    (hpoint : Point.Own h' h'.point) : Own h' := by
  refine ⟨fun fp i hi hfp => ?_, fun w fp i hw hi ha => ?_, hpoint⟩
  · rw [hcurrent] at hi
    rw [hpcs] at hfp
    have hrecord := hinv.record fp i hi hfp
    rw [hclosing] at hrecord
    rw [hactive]
    exact .inl (hrecord.resolve_right (by simp))
  · rw [hcurrent] at hi
    rw [hactive] at ha
    exact hinv.waiting w fp i (hwaiting w hw) hi ha

/-- The device that is accepted is the active one, unless its connection is being closed. -/
theorem Own.active_of_accepted {fp : Text} {i : ConnectionId} (hinv : Own h)
    (hclosing : h.point.closing = none) (hcurrent : h.current = some i)
    (hfp : acceptedFp h.pcs i = some fp) : h.shared.active = some (fp, i) := by
  have hrecord := hinv.record fp i hcurrent hfp
  rw [hclosing] at hrecord
  exact hrecord.resolve_right (by simp)

/-- The answer that a branch is about to apply makes its device the active one. -/
theorem Own.decide {shared : Shared} {sdp : S} {fp : Text} {pc : ConnectionId}
    (hcurrent : h.current = some pc) (hactive : shared.active = some (fp, pc))
    (hsdp : fingerprintOf sdp = some fp)
    (haccepted : ∀ fp', acceptedFp h.pcs pc = some fp' → fp' = fp)
    (hwaiting : ∀ w, h.waiting = some w → w.fingerprint = fp) :
    Own { h with shared, point := .apply pc sdp h.session } := by
  refine ⟨fun fp' i hi hfp' => .inl ?_, fun w fp' i hw hi ha => ?_, fun fp' hfp' => ?_⟩
  · obtain rfl : i = pc := Option.some.inj (hi.symm.trans hcurrent)
    rw [hactive, haccepted fp' hfp']
  · obtain ⟨rfl, -⟩ := Prod.ext_iff.mp (Option.some.inj (hactive.symm.trans ha))
    exact (hwaiting w hw).symm
  · rw [hsdp, haccepted fp' hfp']

/-- **One step** whose answer is of the session's device keeps the session to one
device. -/
theorem Step.own (hstep : Step h e h') (hconn : Connected h) (hwaits : Waits h) (hinv : Own h)
    (hsame : SameDevice h e) : Own h' := by
  have hok := hconn.point
  have hwaiting := hwaits.point
  have hpt := hinv.point
  cases hstep
  case page p status s hpage => exact hinv.page (AppState.paged_page hpage)
  case applied pc sdp n o hpoint =>
    rw [hpoint] at hok hpt
    obtain ⟨fp, hfp, hactive⟩ := active_of_apply hconn hwaits hpoint
    refine ⟨fun fp' i hi hfp' => ?_, hinv.waiting, trivial⟩
    obtain rfl : i = pc := Option.some.inj (hi.symm.trans hok.1)
    have hold : ∀ fp', acceptedFp h.pcs i = some fp' → fp' = fp := by
      intro fp' hfp'
      exact Option.some.inj ((hpt fp' hfp').symm.trans hfp)
    obtain rfl := acceptedFp_applied (hconn.current i hok.1).1 hfp hold hfp'
    exact .inl hactive
  case started offer o hpoint houtcome =>
    rw [hpoint] at hok hwaiting
    refine ⟨fun fp i hi hfp => ?_, fun w fp i hw => ?_, trivial⟩
    · obtain rfl := Option.some.inj hi
      rw [acceptedFp, accepted_concat rfl] at hfp
      simp [accepted] at hfp
    · rw [hwaiting] at hw
      contradiction
  case known sdp fp pc o hpoint hknown paired _ =>
    rw [sameDevice_answer hpoint, if_pos hknown] at hsame
    rw [hpoint] at hok hwaiting
    exact Own.decide hok rfl hwaiting hsame.1 hsame.2
  case unknown sdp fp pc o hpoint hunknown =>
    rw [sameDevice_answer hpoint, if_neg hunknown] at hsame
    have hclosing : h.point.closing = none := by rw [hpoint]; rfl
    refine ⟨fun fp' i hi hfp' => .inl (hinv.active_of_accepted hclosing hi hfp'),
      fun w fp' i hw _ ha => ?_, trivial⟩
    obtain rfl := Option.some.inj hw
    exact hsame (fp', i) ha
  -- branches that keep the connection and its device
  case skipped | ignored => exact hinv
  case configured ice hpoint =>
    exact hinv.keeps (by rw [hpoint]; rfl) rfl rfl rfl (fun _ => id) trivial
  case lost hpoint =>
    exact hinv.keeps (by rcases hpoint with hp | hp <;> rw [hp] <;> rfl) rfl rfl rfl
      (fun _ => id) trivial
  case joined hpoint =>
    exact hinv.keeps (by rw [hpoint]; rfl) rfl rfl rfl (fun _ hw => by contradiction) trivial
  case answered sdp fp pc hpoint hcurrent hviewer =>
    exact hinv.keeps (by rw [hpoint]; rfl) rfl rfl rfl (fun _ => id) trivial
  case dropped name w commands hpoint hcommand hw hstale =>
    exact hinv.keeps (by rw [hpoint]; rfl) rfl rfl rfl (fun _ hw => by contradiction)
      (by simp only [hpoint]; trivial)
  case disconnecting fp commands hpoint hcommand =>
    exact hinv.keeps (by rw [hpoint]; rfl) rfl rfl rfl (fun _ => id) trivial
  case passed c commands hpoint hcommand hother hw =>
    exact hinv.keeps (by rw [hpoint]; rfl) rfl rfl rfl (fun _ => id)
      (by simp only [hpoint]; trivial)
  case approveFailed name sdp fp pc o hpoint hfault paired hfps hothers =>
    exact hinv.keeps (by rw [hpoint]; rfl) rfl rfl rfl (fun _ => id) trivial
  case touchFailed sdp fp pc o hpoint hknown hfault paired hfps =>
    exact hinv.keeps (by rw [hpoint]; rfl) rfl rfl rfl (fun _ => id) trivial
  case rejectedNone fp o hpoint hcurrent =>
    exact hinv.keeps (by rw [hpoint]; rfl) rfl rfl rfl (fun _ => id) trivial
  case disconnectedNone fp o hpoint hactive =>
    exact hinv.keeps (by rw [hpoint]; rfl) rfl rfl rfl (fun _ => id) trivial
  case startFailed o hpoint houtcome =>
    exact hinv.keeps (by rw [hpoint]; rfl) rfl rfl rfl (fun _ => id) trivial
  -- the device that is approved or rejected is the one that waits
  case approving name w pc commands hpoint hcommand hw hcurrent hsession =>
    exact hinv.keeps (by rw [hpoint]; rfl) rfl rfl rfl (fun _ hw => by contradiction)
      fun fp ha => hinv.waiting w fp pc hw hcurrent ha
  case rejecting w commands hpoint hcommand hw =>
    exact hinv.keeps (by rw [hpoint]; rfl) rfl rfl rfl (fun _ hw => by contradiction)
      fun fp i hi ha => hinv.waiting w fp i hw hi ha
  case approved name sdp fp pc o hpoint paired _ _ _ _ =>
    rw [hpoint] at hok hpt hwaiting
    have hclosing : h.point.closing = none := by rw [hpoint]; rfl
    exact Own.decide hok rfl hwaiting.1
      (fun fp' hfp' => hpt fp' (hinv.active_of_accepted hclosing hok hfp'))
      fun w hw => by simp [hwaiting.2.2] at hw
  -- the connection whose branch closes it is no longer current
  case rejected fp pc o hpoint hcurrent =>
    rw [hpoint] at hpt
    have hclosing : h.point.closing = none := by rw [hpoint]; rfl
    exact Own.unconnected rfl fun fp' hfp' =>
      hpt fp' pc hcurrent (hinv.active_of_accepted hclosing hcurrent hfp')
  case rejectClosed fp pc o hpoint =>
    rw [hpoint] at hok
    exact Own.unconnected hok trivial
  case disconnectClosed fp pc o hpoint => exact Own.unconnected rfl trivial
  case joinedCurrent old o hpoint hcurrent => exact Own.unconnected rfl trivial
  case joinedNone o hpoint hcurrent => exact Own.unconnected hcurrent trivial
  case joinClosed old o hpoint =>
    rw [hpoint] at hok
    exact Own.unconnected hok.1 trivial
  case disconnected fp pc o hpoint hactive =>
    have hclosing : h.point.closing = none := by rw [hpoint]; rfl
    have hsame {fp' : Text} {i : ConnectionId} (hi : h.current = some i)
        (hfp' : acceptedFp h.pcs i = some fp') : (fp, pc) = (fp', i) :=
      Option.some.inj (hactive.symm.trans (hinv.active_of_accepted hclosing hi hfp'))
    refine ⟨fun fp' i hi hfp' => .inr ?_, fun w fp' i _ _ ha => by contradiction,
      fun hcurrent => ⟨fun fp' hfp' => ?_, fun w hw => ?_⟩⟩
    · obtain ⟨-, rfl⟩ := Prod.mk.inj (hsame hi hfp')
      rfl
    · exact (Prod.mk.inj (hsame hcurrent hfp')).1.symm
    · exact (hinv.waiting w fp pc hw hcurrent hactive).symm

/-! ## What a command does -/

omit [Sdp S] in
/-- No other device's answer waits. -/
theorem eq_of_waiting {w : Waiting S} {fp : Text} (hfp : w.fingerprint = fp)
    (hwaiting : h.waiting = some w) : ∀ w', h.waiting = some w' → w'.fingerprint = fp := by
  intro w' hw'
  rwa [← Option.some.inj (hwaiting.symm.trans hw')]

/-- A step for a device that closes no connection acts on this device only if it
leaves the rest alone. -/
theorem actsOn_of_pcs {fp : Text} (hconn : Connected h) (hpcs : h'.pcs = h.pcs)
    (hpoint : ∀ pc sdp n, h'.point = .apply pc sdp n → fingerprintOf sdp = some fp)
    (hdevices : h'.shared.paired.others fp = h.shared.paired.others fp)
    (hwaiting : ∀ w, h.waiting = some w → w.fingerprint ≠ fp →
      h'.waiting = some w ∧ h'.current = h.current)
    (hpending : ∀ p, h.shared.pending = some p → p.fingerprint ≠ fp →
      h'.shared.pending = some p) : ActsOn fp h h' where
  applies := hpoint
  devices := hdevices
  closes i fp' hopen hclosed := by
    rw [hpcs] at hclosed
    exact absurd hopen hclosed
  waiting w hw hne := by
    obtain ⟨hw', hcurrent⟩ := hwaiting w hw hne
    refine ⟨hw', hcurrent, fun i hi => ?_⟩
    rw [hpcs]
    exact (hconn.current i hi).1
  pending := hpending

/-- A step for a device that closes a connection acts on this device only if the
connection accepted no other's answer, and no other's answer waits. -/
theorem actsOn_of_close {fp : Text} {pc : ConnectionId} (hpcs : h'.pcs = h.pcs.modify pc .close)
    (hshared : h'.shared = h.shared) (hpoint : h'.point = .head)
    (hown : ∀ fp', IsOpen h.pcs pc → acceptedFp h.pcs pc = some fp' → fp' = fp)
    (hwaiting : ∀ w, h.waiting = some w → w.fingerprint ≠ fp →
      h'.waiting = some w ∧ h'.current = h.current ∧ h.current ≠ some pc)
    (hopen : ∀ i, h.current = some i → IsOpen h.pcs i) : ActsOn fp h h' where
  applies pc sdp n happly := by simp [hpoint] at happly
  devices := by rw [hshared]
  closes i fp' hbefore hclosed hfp' := by
    rw [hpcs, isOpen_close] at hclosed
    obtain rfl : i = pc := by
      by_contra hne
      exact hclosed ⟨hbefore, hne⟩
    exact hown fp' hbefore hfp'
  waiting w hw hne := by
    obtain ⟨hw', hcurrent, hpc⟩ := hwaiting w hw hne
    refine ⟨hw', hcurrent, fun i hi => ?_⟩
    rw [hpcs, isOpen_close]
    refine ⟨hopen i hi, ?_⟩
    rintro rfl
    exact hpc hi
  pending p hp _ := by rw [hshared, hp]

/-- **One step** for a device acts on this device only. -/
theorem Step.actsOn {fp : Text} (hstep : Step h e h') (hconn : Connected h) (hwaits : Waits h)
    (hinv : Own h) (hacting : acting h e = some fp) : ActsOn fp h h' := by
  have hok := hconn.point
  have hopen : ∀ i, h.current = some i → IsOpen h.pcs i := fun i hi => (hconn.current i hi).1
  have hwaiting := hwaits.point
  have hpt := hinv.point
  cases hstep
  case approving name w pc commands hpoint hcommand hw _ _ =>
    obtain rfl : w.fingerprint = fp := by
      simpa [acting, hcommand, Command.fingerprint] using hacting
    have hmine := eq_of_waiting rfl hw
    refine actsOn_of_pcs hconn rfl (by simp) rfl ?_ fun p hp _ => hp
    exact fun w' hw' hne => absurd (hmine w' hw') hne
  case dropped name w commands hpoint hcommand hw _ =>
    obtain rfl : w.fingerprint = fp := by
      simpa [acting, hcommand, Command.fingerprint] using hacting
    have hmine := eq_of_waiting rfl hw
    refine actsOn_of_pcs hconn rfl (by simp [hpoint]) rfl ?_ fun p hp _ => hp
    exact fun w' hw' hne => absurd (hmine w' hw') hne
  case rejecting w commands hpoint hcommand hw =>
    obtain rfl : w.fingerprint = fp := by
      simpa [acting, hcommand, Command.fingerprint] using hacting
    have hmine := eq_of_waiting rfl hw
    refine actsOn_of_pcs hconn rfl (by simp) rfl ?_ fun p hp _ => hp
    exact fun w' hw' hne => absurd (hmine w' hw') hne
  case disconnecting fp' commands hpoint hcommand =>
    exact actsOn_of_pcs hconn rfl (by simp) rfl (fun w hw _ => ⟨hw, rfl⟩) fun p hp _ => hp
  case passed c commands hpoint hcommand _ _ =>
    exact actsOn_of_pcs hconn rfl (by simp [hpoint]) rfl (fun w hw _ => ⟨hw, rfl⟩) fun p hp _ => hp
  case approveFailed name sdp viewerFp pc o hpoint _ paired _ hothers =>
    obtain rfl : viewerFp = fp := by simpa [acting, hpoint, Point.named] using hacting
    exact actsOn_of_pcs hconn rfl (by simp [leave]) hothers (fun w hw _ => ⟨hw, rfl⟩)
      fun p hp _ => hp
  case approved name sdp viewerFp pc o hpoint paired _ _ _ hothers =>
    obtain rfl : viewerFp = fp := by simpa [acting, hpoint, Point.named] using hacting
    rw [hpoint] at hwaiting
    obtain ⟨hfp, hpending, hnone⟩ := hwaiting
    refine actsOn_of_pcs hconn rfl ?_ hothers (by simp [hnone]) (by simp [hpending, shown])
    intro pc' sdp' n happly
    obtain ⟨-, rfl, -⟩ := Point.apply.inj happly
    exact hfp
  case rejected fp' pc o hpoint _ =>
    obtain rfl : fp' = fp := by simpa [acting, hpoint, Point.named] using hacting
    rw [hpoint] at hwaiting
    obtain ⟨hpending, hnone⟩ := hwaiting
    exact actsOn_of_pcs hconn rfl (by simp) rfl (by simp [hnone]) (by simp [hpending, shown])
  case rejectedNone fp' o hpoint _ =>
    obtain rfl : fp' = fp := by simpa [acting, hpoint, Point.named] using hacting
    rw [hpoint] at hwaiting
    obtain ⟨hpending, hnone⟩ := hwaiting
    exact actsOn_of_pcs hconn rfl (by simp) rfl (by simp [hnone]) (by simp [hpending, shown])
  case rejectClosed fp' pc o hpoint =>
    obtain rfl : fp' = fp := by simpa [acting, hpoint, Point.named] using hacting
    rw [hpoint] at hwaiting hpt
    have hnone : h.waiting = none := hwaiting
    exact actsOn_of_close rfl rfl rfl (fun fp _ => hpt fp) (by simp [hnone]) hopen
  case disconnected fp' pc o hpoint _ =>
    exact actsOn_of_pcs hconn rfl (by simp) rfl (fun w hw _ => ⟨hw, rfl⟩) fun p hp _ => hp
  case disconnectedNone fp' o hpoint _ =>
    exact actsOn_of_pcs hconn rfl (by simp) rfl (fun w hw _ => ⟨hw, rfl⟩) fun p hp _ => hp
  case disconnectClosed fp' pc o hpoint =>
    obtain rfl : fp' = fp := by simpa [acting, hpoint, Point.named] using hacting
    rw [hpoint] at hok hpt
    rcases hok.1 with ⟨hnone, hclosed⟩ | hcurrent
    · -- another branch had given up the connection
      refine actsOn_of_close rfl rfl rfl (fun fp hpc => absurd hpc hclosed) ?_ hopen
      exact fun w hw _ => ⟨hw, hnone.symm, by simp [hnone]⟩
    · obtain ⟨hmine, hwaits⟩ := hpt hcurrent
      refine actsOn_of_close rfl rfl rfl (fun fp _ => hmine fp) ?_ hopen
      exact fun w hw hne => absurd (hwaits w hw) hne
  -- the other steps carry out no command
  all_goals simp_all [acting, Point.named]

/-- The session stays with one device in runs in which every answer taken up is
of that device. -/
theorem own_of_run {key hostFp : Text} {paired : PairedDevices} {es : List (Event S)}
    (hrun : (machine S).Run (init key hostFp paired) es h)
    (hsame : (machine S).Along (init key hostFp paired) es SameDevice) : Own h := by
  have hinv : (Connected h ∧ Waits h) ∧ Own h := by
    refine hrun.invariant_along (I := fun h => (Connected h ∧ Waits h) ∧ Own h) hsame
      ⟨⟨connected_init .., waits_init ..⟩, own_init ..⟩ ?_
    rintro s e s' ⟨⟨hconn, hwaits⟩, hown⟩ hsame hstep
    have hstep := step_of_eq hstep
    exact ⟨⟨hstep.connected hconn, hstep.waits hwaits⟩, hstep.own hconn hwaits hown hsame⟩
  exact hinv.2

/-- **A command acts only on the device it names**, in every run in which every
answer taken up in a session is of the device the session belongs to. -/
theorem acts_on_named {key hostFp fp : Text} {paired : PairedDevices} {es : List (Event S)}
    (hrun : (machine S).Run (init key hostFp paired) es h)
    (hsame : (machine S).Along (init key hostFp paired) es SameDevice)
    (hstep : (machine S).step h e = some h') (hacting : acting h e = some fp) :
    ActsOn fp h h' :=
  (step_of_eq hstep).actsOn (connected_of_run hrun) (waits_of_run hrun) (own_of_run hrun hsame)
    hacting

/-- `acts_on_named` for a paired device that connects and is then removed. -/
theorem acts_on_named_removed :
    ∃ es h h', (machine Text).Run (hostWith ["b1"]) es h ∧
      h.point = .disconnectClose (text "b1") 0 ∧ IsOpen h.pcs 0 ∧
      (machine Text).step h goOn = some h' ∧ ActsOn (text "b1") h h' := by
  let es : List (Event Text) := firstSession ++ knownAnswer "b1" ++
    [.page (.remove (some []) (text "b1") ⟨fun _ => 0, none⟩), .page (.finishRemove 0),
      .command, goOn]
  have hsame : (machine Text).Along (hostWith ["b1"]) es SameDevice := by decide +kernel
  obtain ⟨h, hrun, hend⟩ := exists_run (machine Text) (hostWith ["b1"]) es
    (fun h => h.point = .disconnectClose (text "b1") 0 ∧ IsOpen h.pcs 0) (by decide +kernel)
  obtain ⟨hpoint, hopen⟩ := of_decide_eq_true hend
  have hstep : (machine Text).step h goOn =
      some { h.closePc 0 with current := none, point := .head } := by
    simp [machine, step, goOn, resume, hpoint]
  refine ⟨es, h, _, hrun, hpoint, hopen, hstep, acts_on_named hrun hsame hstep ?_⟩
  simp [acting, goOn, hpoint, Point.named]

/-- A new device answers in the session of a paired one, and rejecting it closes
the connection of the paired device. -/
theorem reject_closes_other :
    ∃ es h h', (machine Text).Run (hostWith ["b1"]) es h ∧ (machine Text).step h goOn = some h' ∧
      acting h (goOn : Event Text) = some (text "c2") ∧ IsOpen h.pcs 0 ∧
      acceptedFp h.pcs 0 = some (text "b1") ∧ ¬ IsOpen h'.pcs 0 ∧ ¬ ActsOn (text "c2") h h' := by
  obtain ⟨h, hrun, hend⟩ := exists_run (machine Text) (hostWith ["b1"])
    (firstSession ++ knownAnswer "b1" ++ newAnswer "c2" ++
      [.page (.reject (some []) (text "c2")), .command, goOn])
    (fun h => h.point = .rejectClose (text "c2") 0 ∧ IsOpen h.pcs 0 ∧
      acceptedFp h.pcs 0 = some (text "b1")) (by decide +kernel)
  obtain ⟨hpoint, hopen, haccepted⟩ := of_decide_eq_true hend
  have hclosed : ¬ IsOpen (h.closePc 0).pcs 0 := by simp [closePc, isOpen_close]
  refine ⟨_, h, { h.closePc 0 with point := .head }, hrun, ?_, ?_, hopen, haccepted, hclosed, ?_⟩
  · simp [machine, step, goOn, resume, hpoint]
  · simp [acting, goOn, hpoint, Point.named]
  · intro hacts
    have hfp := hacts.closes 0 _ hopen hclosed haccepted
    exact absurd hfp (by decide)

end Host

end RemoteBridge
