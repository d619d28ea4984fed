import RemoteBridge.Dtls.Reader.Steps

/-!
# Dtls.Reader.Deliveries

Whatever comes, the reader gives no application data twice, and none of the first epoch.
-/

namespace RemoteBridge.Dtls

open Wire Bytes

variable {D M : Type}

/-- What is relied on of a detector: a number that was accepted is refused from then on. -/
structure ReplayDetector.Lawful (detector : ReplayDetector D) (Seen : D → Nat → Prop) : Prop where
  refused : ∀ {d n}, Seen d n → (detector.check d n).1 = false
  check : ∀ {d n} m, Seen d n → Seen (detector.check d m).2 n
  accept : ∀ {d n}, Seen d n → Seen (detector.accept d) n
  accepted : ∀ {d n}, (detector.check d n).1 = true →
    Seen (detector.accept (detector.check d n).2) n

/-- A window of 64 numbers below the latest one.  Its mask is kept as the list of the numbers
that were accepted. -/
structure SlidingWindow where
  accepted : List Nat
  latest : Nat
  checked : Option Nat
deriving DecidableEq, Repr

def slidingWindow : ReplayDetector SlidingWindow where
  new := ⟨[], 0, none⟩
  check w seq :=
    if seq > maxSequenceNumber ∨ (seq ≤ w.latest ∧ (64 + seq ≤ w.latest ∨ seq ∈ w.accepted)) then
      (false, { w with checked := none })
    else (true, { w with checked := some seq })
  accept w :=
    match w.checked with
    | none => w
    | some seq => { w with accepted := seq :: w.accepted, latest := max seq w.latest }

/-- The number was accepted, and is not after the latest one. -/
def SlidingWindow.Seen (w : SlidingWindow) (n : Nat) : Prop := n ∈ w.accepted ∧ n ≤ w.latest

theorem lawful_slidingWindow : slidingWindow.Lawful SlidingWindow.Seen where
  refused h := by simp [slidingWindow, h.1, h.2]
  check m h := by
    simp only [slidingWindow]
    split <;> exact h
  accept {w n} h := by
    simp only [slidingWindow]
    split
    · exact h
    · exact ⟨List.mem_cons_of_mem _ h.1, h.2.trans (Nat.le_max_right ..)⟩
  accepted {w n} h := by
    simp only [slidingWindow] at h ⊢
    split at h
    · cases h
    · next hok =>
        rw [if_neg hok]
        exact ⟨List.mem_cons_self .., Nat.le_max_left ..⟩

/-! ## Detectors of epochs -/

namespace ReaderContext

section

variable {detector : ReplayDetector D} {ctx : ReaderContext D M} {e e' : UInt16} {d : D}

theorem detectorAt_growDetectors :
    (ctx.growDetectors detector e).detectorAt detector e' = ctx.detectorAt detector e' := by
  rw [detectorAt, detectorAt, growDetectors, List.getD_eq_getElem?_getD,
    List.getD_eq_getElem?_getD, List.getElem?_append]
  split
  · rfl
  · next hle =>
      rw [List.getElem?_eq_none (Nat.le_of_not_lt hle), List.getElem?_replicate]
      split <;> rfl

theorem length_growDetectors :
    (ctx.growDetectors detector e).replayDetector.length =
      max ctx.replayDetector.length (e.toNat + 1) := by
  rw [growDetectors, List.length_append, List.length_replicate]
  omega

theorem length_setDetector :
    (ctx.setDetector e d).replayDetector.length = ctx.replayDetector.length :=
  List.length_set ..

theorem detectorAt_setDetector (h : e.toNat < ctx.replayDetector.length) :
    (ctx.setDetector e d).detectorAt detector e' =
      if e' = e then d else ctx.detectorAt detector e' := by
  rw [detectorAt, setDetector, List.getD_eq_getElem?_getD, List.getElem?_set]
  by_cases heq : e' = e
  · rw [if_pos heq, heq, if_pos rfl, if_pos h, Option.getD_some]
  · have hne : ¬ e.toNat = e'.toNat := fun h => heq (UInt16.toNat_inj.mp h).symm
    rw [if_neg heq, if_neg hne, detectorAt, List.getD_eq_getElem?_getD]

end

/-- The number was accepted in its epoch. -/
def SeenAt (detector : ReplayDetector D) (Seen : D → Nat → Prop) (ctx : ReaderContext D M)
    (epoch : UInt16) (n : Nat) : Prop :=
  epoch.toNat < ctx.replayDetector.length ∧ Seen (ctx.detectorAt detector epoch) n

section

variable {detector : ReplayDetector D} {Seen : D → Nat → Prop} {ctx : ReaderContext D M}
  {h : RecordLayerHeader} {epoch : UInt16} {n : Nat}

theorem length_check : (ctx.check detector h).2.replayDetector.length =
    max ctx.replayDetector.length (h.epoch.toNat + 1) := by
  rw [check]
  simp only [length_setDetector, length_growDetectors]

theorem length_accept : (ctx.accept detector h).replayDetector.length = ctx.replayDetector.length :=
  length_setDetector

theorem lt_length_check :
    h.epoch.toNat < (ctx.check detector h).2.replayDetector.length := by
  rw [length_check]
  omega

theorem check_fst : (ctx.check detector h).1 =
    (detector.check (ctx.detectorAt detector h.epoch) h.sequenceNumber).1 := by
  rw [check]
  simp only [detectorAt_growDetectors]

theorem detectorAt_check : (ctx.check detector h).2.detectorAt detector epoch =
    if epoch = h.epoch then
      (detector.check (ctx.detectorAt detector h.epoch) h.sequenceNumber).2
    else ctx.detectorAt detector epoch := by
  have hlen : h.epoch.toNat < (ctx.growDetectors detector h.epoch).replayDetector.length := by
    rw [length_growDetectors]
    omega
  rw [check]
  simp only [detectorAt_setDetector hlen, detectorAt_growDetectors]

theorem SeenAt.check (hlaw : detector.Lawful Seen) (hseen : ctx.SeenAt detector Seen epoch n) :
    (ctx.check detector h).2.SeenAt detector Seen epoch n := by
  refine ⟨?_, ?_⟩
  · have hlt := hseen.1
    rw [length_check]
    omega
  · rw [detectorAt_check]
    split
    · next heq => exact hlaw.check _ (heq ▸ hseen.2)
    · exact hseen.2

theorem SeenAt.accept (hlaw : detector.Lawful Seen) (hseen : ctx.SeenAt detector Seen epoch n)
    (hlen : h.epoch.toNat < ctx.replayDetector.length) :
    (ctx.accept detector h).SeenAt detector Seen epoch n := by
  refine ⟨?_, ?_⟩
  · rw [length_accept]
    exact hseen.1
  · rw [ReaderContext.accept, detectorAt_setDetector hlen]
    split
    · next heq => exact hlaw.accept (heq ▸ hseen.2)
    · exact hseen.2

/-- A number that was accepted is not let through again. -/
theorem SeenAt.check_eq_false (hlaw : detector.Lawful Seen)
    (hseen : ctx.SeenAt detector Seen h.epoch h.sequenceNumber) :
    (ctx.check detector h).1 = false := by
  rw [check_fst]
  exact hlaw.refused hseen.2

/-- What is let through and accepted was accepted. -/
theorem seenAt_accept (hlaw : detector.Lawful Seen) (hcheck : (ctx.check detector h).1 = true) :
    ((ctx.check detector h).2.accept detector h).SeenAt detector Seen h.epoch
      h.sequenceNumber := by
  refine ⟨?_, ?_⟩
  · rw [length_accept]
    exact lt_length_check
  · rw [ReaderContext.accept, detectorAt_setDetector lt_length_check, if_pos rfl,
      detectorAt_check, if_pos rfl]
    rw [check_fst] at hcheck
    exact hlaw.accepted hcheck

end

end ReaderContext

/-! ## Deliveries -/

namespace Reader

/-- The record the data came in. -/
def deliveryNumber (d : Delivery) : UInt16 × Nat := (d.epoch, d.sequenceNumber)

/-- Every record gave its data once, and is known to its detector. -/
structure Once (setup : Setup D M) (Seen : D → Nat → Prop) (ctx : ReaderContext D M) : Prop where
  nodup : (ctx.decryptedTx.map deliveryNumber).Nodup
  seen : ∀ d ∈ ctx.decryptedTx, ctx.SeenAt setup.detector Seen d.epoch d.sequenceNumber
  epoch : ∀ d ∈ ctx.decryptedTx, d.epoch ≠ 0

section

variable {setup : Setup D M} {Seen : D → Nat → Prop} {ctx ctx' : ReaderContext D M}
  {cipherSuite : Option CipherSuite} {pkt : List UInt8} {out : Handled}

/-- Nothing is delivered and no detector forgets. -/
theorem Once.of_seen (hctx : Once setup Seen ctx) (htx : ctx'.decryptedTx = ctx.decryptedTx)
    (hseen : ∀ epoch n, ctx.SeenAt setup.detector Seen epoch n →
      ctx'.SeenAt setup.detector Seen epoch n) : Once setup Seen ctx' where
  nodup := htx ▸ hctx.nodup
  seen d hd := hseen _ _ (hctx.seen d (htx ▸ hd))
  epoch d hd := hctx.epoch d (htx ▸ hd)

theorem Once.handles (hlaw : setup.detector.Lawful Seen) (hctx : Once setup Seen ctx)
    (hstep : Handles setup cipherSuite ctx pkt ctx' out) : Once setup Seen ctx' := by
  cases hstep with
  | ignored => exact hctx
  | early => exact hctx.of_seen rfl fun _ _ hseen => hseen
  | dropped => exact hctx.of_seen rfl fun _ _ hseen => hseen.check hlaw
  | late => exact hctx.of_seen rfl fun _ _ hseen => hseen.check hlaw
  | broken => exact hctx.of_seen rfl fun _ _ hseen => hseen.check hlaw
  | handshake =>
      exact hctx.of_seen rfl fun _ _ hseen =>
        (hseen.check hlaw).accept hlaw ReaderContext.lt_length_check
  | alert =>
      exact hctx.of_seen rfl fun _ _ hseen =>
        (hseen.check hlaw).accept hlaw ReaderContext.lt_length_check
  | changeCipherSpec =>
      exact hctx.of_seen rfl fun _ _ hseen =>
        (hseen.check hlaw).accept hlaw ReaderContext.lt_length_check
  | @applicationData h _ _ data _ hfresh _ hne _ =>
      have hmono (epoch : UInt16) (n : Nat) (hseen : ctx.SeenAt setup.detector Seen epoch n) :
          ((ctx.check setup.detector h).2.accept setup.detector h).SeenAt setup.detector Seen
            epoch n := (hseen.check hlaw).accept hlaw ReaderContext.lt_length_check
      have hnew := ReaderContext.seenAt_accept hlaw hfresh.check
      refine ⟨?_, ?_, ?_⟩
      · rw [List.map_append, List.nodup_append]
        refine ⟨hctx.nodup, List.nodup_singleton _, ?_⟩
        -- an old delivery with this number would have been known to the detector
        intro k hk k' hk' heq
        obtain ⟨d, hd, rfl⟩ := List.mem_map.mp hk
        obtain rfl := List.mem_singleton.mp hk'
        obtain ⟨hepoch, hnumber⟩ := Prod.mk.inj heq
        have hseen := hctx.seen d hd
        rw [hepoch, hnumber] at hseen
        have hfalse := hseen.check_eq_false (h := h) hlaw
        rw [hfresh.check] at hfalse
        cases hfalse
      · intro d hd
        rcases List.mem_append.mp hd with hd | hd
        · exact hmono _ _ (hctx.seen d hd)
        · obtain rfl := List.mem_singleton.mp hd
          exact hnew
      · intro d hd
        rcases List.mem_append.mp hd with hd | hd
        · exact hctx.epoch d hd
        · obtain rfl := List.mem_singleton.mp hd
          exact hne

theorem kept_once (hlaw : setup.detector.Lawful Seen) :
    Kept setup (fun _ => True) (fun _ => True) (Once setup Seen) (Once setup Seen) :=
  .of_handles (fun _ _ hctx hstep => hctx.handles hlaw hstep)
    (fun _ hctx => hctx.of_seen rfl fun _ _ hseen => hseen) (fun _ _ _ => trivial)
    fun hctx => hctx.of_seen rfl fun _ _ hseen => hseen

theorem once_new : Once setup Seen (ReaderContext.new : ReaderContext D M) where
  nodup := List.nodup_nil
  seen _ hd := absurd hd List.not_mem_nil
  epoch _ hd := absurd hd List.not_mem_nil

theorem once_of_run (hlaw : setup.detector.Lawful Seen) {ds : List Datagram} {s : State D M}
    (hrun : (machine setup).Run .new ds s) : Once setup Seen s.ctx := by
  refine hrun.invariant (I := fun s => Once setup Seen s.ctx) once_new fun s d s' hs hstep => ?_
  rw [(of_step hstep).2.1]
  exact ((kept_once hlaw).readAndBuffer (fun _ _ => trivial) (fun _ _ _ _ => trivial) hs).1

/-- **Nothing is replayed**: from whatever datagrams come, and whatever the keys are meanwhile,
`read` gets the data of a record at most once, and never of the first epoch. -/
theorem delivered_once (hlaw : setup.detector.Lawful Seen) {ds : List Datagram} {s : State D M}
    (hrun : (machine setup).Run .new ds s) :
    (s.ctx.decryptedTx.map deliveryNumber).Nodup ∧ ∀ d ∈ s.ctx.decryptedTx, d.epoch ≠ 0 :=
  ⟨(once_of_run hlaw hrun).nodup, (once_of_run hlaw hrun).epoch⟩

end

/-! ## A replay -/

def windowed : Setup SlidingWindow (List UInt8) := ⟨false, slidingWindow, handshakeMessageFinished⟩

/-- The reader when the other half has the keys of the two answers. -/
def keyed : Env := ⟨some zeroSuite, 1, true⟩

/-- A change of the cipher and a record that is encrypted after it, in one datagram. -/
def changeAndData : List UInt8 :=
  [20, 0xfe, 0xfd, 0, 0, 0, 0, 0, 0, 0, 0, 0, 1, 1,
    23, 0xfe, 0xfd, 0, 1, 0, 0, 0, 0, 0, 0, 0, 26, 0, 0, 0, 0, 0, 0, 0, 23,
    215, 88, 102, 56, 3, 147, 226, 46, 172, 100, 219, 48, 224, 10, 216, 102, 245, 155]

/-- The datagram comes twice, and its second record once more. -/
theorem delivered_once_replayed : ∃ s : State SlidingWindow (List UInt8),
    (machine windowed).Run .new [⟨keyed, [], changeAndData⟩, ⟨keyed, [], changeAndData⟩,
      ⟨keyed, [], changeAndData.drop 14⟩] s ∧
    s.ctx.decryptedTx = [⟨1, 0, [104, 105]⟩] ∧
    (s.ctx.decryptedTx.map deliveryNumber).Nodup ∧ ∀ d ∈ s.ctx.decryptedTx, d.epoch ≠ 0 := by
  obtain ⟨s, hrun, hdelivered⟩ := (machine windowed).exists_run .new
    [⟨keyed, [], changeAndData⟩, ⟨keyed, [], changeAndData⟩, ⟨keyed, [], changeAndData.drop 14⟩]
    (fun s => s.ctx.decryptedTx = [⟨1, 0, [104, 105]⟩]) (by decide +kernel)
  exact ⟨s, hrun, by simpa using hdelivered, delivered_once lawful_slidingWindow hrun⟩

end Reader

end RemoteBridge.Dtls
