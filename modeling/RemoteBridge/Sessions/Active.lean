import RemoteBridge.Sessions.Approval

/-!
# Sessions.Active

The device recorded as active against the one whose answer its connection
accepted.  The loop records a device before it applies the answer and does not
look at what comes of that, so the two are the same exactly in the runs in which
every answer that is applied settles the connection on the device it is from.
-/

namespace RemoteBridge

open Unicode

variable {S : Type}

/-! ## Accepted answers -/

/-- The answer the `i`-th connection accepted. -/
def accepted (pcs : List (PeerConnection S)) (i : ConnectionId) : Option S :=
  pcs[i]?.bind (·.remote)

theorem accepted_close {pcs : List (PeerConnection S)} {i j : ConnectionId} :
    accepted (pcs.modify j .close) i = accepted pcs i := by
  simp only [accepted, List.getElem?_modify]
  cases pcs[i]? with
  | none => rfl
  | some pc => by_cases hij : j = i <;> simp [hij, PeerConnection.close]

theorem accepted_concat {pcs : List (PeerConnection S)} {i : ConnectionId} {pc : PeerConnection S}
    (hpc : pc.remote = none) : accepted (pcs ++ [pc]) i = accepted pcs i := by
  simp only [accepted, List.getElem?_append, List.getElem?_singleton]
  grind

theorem accepted_setRemote_of_ne {pcs : List (PeerConnection S)} {i j : ConnectionId} {sdp : S}
    {wellFormed : Bool} (hij : i ≠ j) :
    accepted (pcs.modify j (·.setRemote sdp wellFormed)) i = accepted pcs i := by
  simp [accepted, hij.symm]

/-- An open connection accepts a first answer that is well-formed, and no other. -/
theorem accepted_setRemote_self {pcs : List (PeerConnection S)} {i : ConnectionId} {sdp : S}
    {wellFormed : Bool} (hopen : IsOpen pcs i) :
    accepted (pcs.modify i (·.setRemote sdp wellFormed)) i =
      if (accepted pcs i).isNone && wellFormed then some sdp else accepted pcs i := by
  obtain ⟨pc, hpc, hclosed⟩ := hopen
  cases hr : pc.remote <;> cases wellFormed <;>
    simp [accepted, hpc, PeerConnection.setRemote, hclosed, hr]

/-- The device whose answer the `i`-th connection accepted. -/
def acceptedFp [Sdp S] (pcs : List (PeerConnection S)) (i : ConnectionId) : Option Text :=
  (accepted pcs i).bind fingerprintOf

namespace Host

open Machine

variable [Sdp S] {h h' : Host S} {e : Event S}

/-! ## One device to a connection -/

/-- No answer is applied to a connection that has one of another device. -/
def OneDevice (h : Host S) (e : Event S) : Prop :=
  match h.point, e with
  | .apply pc sdp _, .resume _ => ∀ fp ∈ acceptedFp h.pcs pc, fingerprintOf sdp = some fp
  | _, _ => True

instance (h : Host S) (e : Event S) : Decidable (OneDevice h e) :=
  decidable_of_iff ((match h.point, e with
    | .apply pc sdp _, .resume _ =>
        decide (∀ fp ∈ acceptedFp h.pcs pc, fingerprintOf sdp = some fp)
    | _, _ => true) = true) (by
      unfold OneDevice
      split <;> simp)

theorem oneDevice_apply {pc : ConnectionId} {sdp : S} {n : UInt32} {o : Outcome S}
    (hpoint : h.point = .apply pc sdp n) :
    OneDevice h (.resume o) ↔
      ∀ fp, acceptedFp h.pcs pc = some fp → fingerprintOf sdp = some fp := by
  simp only [OneDevice, hpoint, Option.mem_def]

/-- The device whose answer the current connection accepted is the active one,
but between the lock and `apply_answer`, and while its connection is being
closed. -/
def Recorded (h : Host S) : Prop :=
  ∀ fp i, h.current = some i → acceptedFp h.pcs i = some fp →
    h.shared.active = some (fp, i) ∨ h.point.closing = some i ∨ ∃ sdp n, h.point = .apply i sdp n

/-- At `apply_answer` the device of the answer is the active one. -/
theorem active_of_apply {pc : ConnectionId} {sdp : S} {n : UInt32} (hconn : Connected h)
    (hwaits : Waits h) (hpoint : h.point = .apply pc sdp n) :
    ∃ fp, fingerprintOf sdp = some fp ∧ h.shared.active = some (fp, pc) := by
  have hok := hconn.point
  have hpt := hwaits.point
  rw [hpoint] at hok hpt
  obtain ⟨fp, hfp, hactive⟩ := hpt
  obtain ⟨⟨fp', i⟩, hsome, rfl⟩ := Option.mem_map.mp hactive
  have hcurrent := (hconn.active fp' i hsome).2
  rw [hok.1] at hcurrent
  obtain rfl := Option.some.inj (hcurrent.resolve_left (by simp))
  exact ⟨fp', hfp, hsome⟩

/-- Applying an answer to a connection of no other device leaves that connection
with an answer of this device or with none. -/
theorem acceptedFp_applied {pcs : List (PeerConnection S)} {pc : ConnectionId} {sdp : S}
    {fp fp' : Text} {wellFormed : Bool} (hopen : IsOpen pcs pc) (hfp : fingerprintOf sdp = some fp)
    (hone : ∀ fp', acceptedFp pcs pc = some fp' → fp' = fp)
    (hfp' : acceptedFp (pcs.modify pc (·.setRemote sdp wellFormed)) pc = some fp') :
    fp' = fp := by
  rw [acceptedFp, accepted_setRemote_self hopen] at hfp'
  split at hfp'
  · rw [Option.bind_some, hfp] at hfp'
    exact (Option.some.inj hfp').symm
  · exact hone fp' hfp'

/-- **One step** that keeps each connection to one device keeps the record. -/
theorem Step.recorded (hstep : Step h e h') (hconn : Connected h) (hwaits : Waits h)
    (hinv : Recorded h) (hone : OneDevice h e) : Recorded h' := by
  have hok := hconn.point
  intro fp i hcurrent hfp
  cases hstep
  case applied pc sdp n o hpoint =>
    rw [hpoint] at hok
    obtain ⟨fp', hfp', hactive⟩ := active_of_apply hconn hwaits hpoint
    obtain rfl : i = pc := Option.some.inj (hcurrent.symm.trans hok.1)
    have hsame : ∀ fp, acceptedFp h.pcs i = some fp → fp = fp' := by
      intro fp hfp
      have hsdp := (oneDevice_apply hpoint).mp hone fp hfp
      exact Option.some.inj (hsdp.symm.trans hfp')
    obtain rfl := acceptedFp_applied (hconn.current i hok.1).1 hfp' hsame hfp
    exact .inl hactive
  case started offer o hpoint houtcome =>
    -- nothing was applied to the new connection
    obtain rfl := Option.some.inj hcurrent
    rw [acceptedFp, accepted_concat rfl] at hfp
    simp [accepted] at hfp
  case page p status s hpage =>
    rw [(AppState.paged_page hpage).active]
    exact hinv fp i hcurrent hfp
  all_goals grind [Recorded, Point.Ok, Point.closing, leave, closePc]

/-! ## The active device is the connected one -/

/-- The device recorded as active is the device that is connected. -/
structure Marked (h : Host S) : Prop where
  active : ∀ fp i, h.shared.active = some (fp, i) → IsOpen h.pcs i →
    acceptedFp h.pcs i = some fp
  current : ∀ fp i, h.current = some i → acceptedFp h.pcs i = some fp →
    h.shared.active = some (fp, i)

/-- An answer is applied to a connection that accepts it, as its first and being
well-formed, or that has one of the same device. -/
def Settles (h : Host S) (e : Event S) : Prop :=
  match h.point, e with
  | .apply pc sdp _, .resume o =>
      (accepted h.pcs pc = none ∧ o.wellFormed) ∨ acceptedFp h.pcs pc = fingerprintOf sdp
  | _, _ => True

theorem settles_apply {pc : ConnectionId} {sdp : S} {n : UInt32} {o : Outcome S}
    (hpoint : h.point = .apply pc sdp n) :
    Settles h (.resume o) ↔
      (accepted h.pcs pc = none ∧ o.wellFormed) ∨ acceptedFp h.pcs pc = fingerprintOf sdp := by
  simp only [Settles, hpoint]

theorem Settles.oneDevice (hsettles : Settles h e) : OneDevice h e := by
  unfold OneDevice
  split
  · next pc sdp n o hpoint =>
    intro fp hfp
    rcases (settles_apply hpoint).mp hsettles with ⟨hnone, -⟩ | hsame
    · simp [acceptedFp, hnone] at hfp
    · exact hsame.symm.trans hfp
  · trivial

/-- The active device's connection, if open, accepted its answer or is about to. -/
def Accepts (h : Host S) : Prop :=
  ∀ fp i, h.shared.active = some (fp, i) → IsOpen h.pcs i →
    acceptedFp h.pcs i = some fp ∨ ∃ sdp n, h.point = .apply i sdp n

/-- After an answer is applied its device is connected exactly if the step
settled that. -/
theorem acceptedFp_applied_iff {pc : ConnectionId} {sdp : S} {n : UInt32} {fp : Text}
    {o : Outcome S} (hopen : IsOpen h.pcs pc) (hfp : fingerprintOf sdp = some fp)
    (hpoint : h.point = .apply pc sdp n) :
    acceptedFp (h.pcs.modify pc (·.setRemote sdp o.wellFormed)) pc = some fp ↔
      Settles h (.resume o) := by
  rw [settles_apply hpoint, acceptedFp, acceptedFp, accepted_setRemote_self hopen]
  cases haccepted : accepted h.pcs pc with
  | none => cases o.wellFormed <;> simp [hfp]
  | some answer => simp [hfp]

/-- **One step** that settles its answer keeps the active device's connection
its own. -/
theorem Step.accepts (hstep : Step h e h') (hconn : Connected h) (hwaits : Waits h)
    (hinv : Accepts h) (hsettles : Settles h e) : Accepts h' := by
  have hok := hconn.point
  intro fp i hactive hopen
  cases hstep
  case applied pc sdp n o hpoint =>
    rw [hpoint] at hok
    obtain ⟨fp', hfp', hactive'⟩ := active_of_apply hconn hwaits hpoint
    cases hactive'.symm.trans hactive
    exact .inl ((acceptedFp_applied_iff (hconn.current i hok.1).1 hfp' hpoint).mpr hsettles)
  case approved =>
    cases hactive
    exact .inr ⟨_, _, rfl⟩
  case known =>
    cases hactive
    exact .inr ⟨_, _, rfl⟩
  case page p status s hpage =>
    rw [(AppState.paged_page hpage).active] at hactive
    exact hinv fp i hactive hopen
  case rejectClosed fp' pc o hpoint =>
    rw [acceptedFp, closePc, accepted_close]
    have hopen := (isOpen_close.mp hopen).1
    exact (hinv fp i hactive hopen).imp_right (by simp [hpoint])
  all_goals grind [Accepts, Point.Ok, leave, closePc]

/-- What holds at the head of the loop in a run in which every step settled its
answer. -/
theorem marked_of_run {key hostFp : Text} {paired : PairedDevices} {es : List (Event S)}
    (hrun : (machine S).Run (init key hostFp paired) es h)
    (hsettles : (machine S).Along (init key hostFp paired) es Settles) (hhead : h.point = .head) :
    Marked h := by
  have hinv : (Connected h ∧ Waits h) ∧ Recorded h ∧ Accepts h := by
    refine hrun.invariant_along (I := fun h => (Connected h ∧ Waits h) ∧ Recorded h ∧ Accepts h)
      hsettles ⟨⟨connected_init .., waits_init ..⟩, ?_, ?_⟩ ?_
    · intro fp i hcurrent
      simp [init] at hcurrent
    · intro fp i hactive
      simp [init] at hactive
    · rintro s e s' ⟨⟨hconn, hwaits⟩, hrecorded, haccepts⟩ hsettles hstep
      have hstep := step_of_eq hstep
      exact ⟨⟨hstep.connected hconn, hstep.waits hwaits⟩,
        hstep.recorded hconn hwaits hrecorded hsettles.oneDevice,
        hstep.accepts hconn hwaits haccepts hsettles⟩
  constructor
  · intro fp i hactive hopen
    exact (hinv.2.2 fp i hactive hopen).resolve_right (by simp [hhead])
  · intro fp i hcurrent hfp
    exact (hinv.2.1 fp i hcurrent hfp).resolve_right (by simp [hhead, Point.closing])

/-- **The device recorded as active is the device that is connected**, at the
head of the loop, throughout the runs in which every step settled its answer,
and in no others. -/
theorem marked_iff_settles {key hostFp : Text} {paired : PairedDevices} {es : List (Event S)}
    (hrun : (machine S).Run (init key hostFp paired) es h) :
    (machine S).Throughout (init key hostFp paired) es (fun h => h.point = .head → Marked h) ↔
      (machine S).Along (init key hostFp paired) es Settles := by
  refine hrun.throughout_iff_along (by simp [init]) fun es s e s' hs _ hes hstep => ?_
  have hs' := run_snoc.mpr ⟨s, hs, hstep⟩
  constructor
  · intro hmarked
    unfold Settles
    split
    · next pc sdp n o hpoint =>
      -- the step is `apply_answer`, which ends at the head of the loop
      obtain rfl :
          { s with pcs := s.pcs.modify pc (·.setRemote sdp o.wellFormed), point := .head } = s' := by
        simpa [machine, step, resume, hpoint] using hstep
      have hconn := connected_of_run hs
      have hok := hconn.point
      rw [hpoint] at hok
      have hopen := (hconn.current pc hok.1).1
      obtain ⟨fp, hfp, hactive⟩ := active_of_apply hconn (waits_of_run hs) hpoint
      have haccepted := (hmarked rfl).active fp pc hactive (isOpen_setRemote.mpr hopen)
      exact (settles_apply hpoint).mp ((acceptedFp_applied_iff hopen hfp hpoint).mp haccepted)
    · trivial
  · intro hsettles
    exact marked_of_run hs' ((along_snoc hs).mpr ⟨hes, hsettles⟩)

/-- `marked_iff_settles` for a paired device that connects. -/
theorem marked_iff_settles_connected :
    ∃ es h, (machine Text).Run (hostWith ["b1"]) es h ∧ acceptedFp h.pcs 0 = some (text "b1") ∧
      ((machine Text).Throughout (hostWith ["b1"]) es (fun h => h.point = .head → Marked h) ↔
        (machine Text).Along (hostWith ["b1"]) es Settles) := by
  obtain ⟨h, hrun, haccepted⟩ := exists_run (machine Text) (hostWith ["b1"])
    (firstSession ++ knownAnswer "b1") (fun h => acceptedFp h.pcs 0 = some (text "b1"))
    (by decide +kernel)
  exact ⟨_, h, hrun, of_decide_eq_true haccepted, marked_iff_settles hrun⟩

/-- Two paired devices answer in one session: the second is recorded as active on
the connection of the first. -/
theorem not_marked_two_answers :
    ∃ es h, (machine Text).Run (hostWith ["b1", "c2"]) es h ∧ h.point = .head ∧
      h.shared.active = some (text "c2", 0) ∧ IsOpen h.pcs 0 ∧
      acceptedFp h.pcs 0 = some (text "b1") ∧ ¬ Marked h := by
  obtain ⟨h, hrun, hend⟩ := exists_run (machine Text) (hostWith ["b1", "c2"])
    (firstSession ++ knownAnswer "b1" ++ knownAnswer "c2")
    (fun h => h.point = .head ∧ h.shared.active = some (text "c2", 0) ∧ IsOpen h.pcs 0 ∧
      acceptedFp h.pcs 0 = some (text "b1")) (by decide +kernel)
  obtain ⟨hhead, hactive, hopen, haccepted⟩ := of_decide_eq_true hend
  refine ⟨_, h, hrun, hhead, hactive, hopen, haccepted, fun hmarked => ?_⟩
  have hc2 := hmarked.active _ _ hactive hopen
  rw [haccepted] at hc2
  exact absurd hc2 (by decide)

end Host

end RemoteBridge
