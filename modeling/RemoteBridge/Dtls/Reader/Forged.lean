import RemoteBridge.Dtls.Fragments.Bounds
import RemoteBridge.Dtls.Reader.Deliveries

/-!
# Dtls.Reader.Forged

A change of the cipher is not authenticated: nothing of it is encrypted, in no epoch.  Whoever
can send datagrams moves the reader's epoch on, as far as it goes.

The numbers of epochs wrap here, as they do in a release build.
-/

namespace RemoteBridge.Dtls

open Wire Bytes

variable {D M : Type}

/-! ## Changes anyone can write -/

/-- The header of a change of the cipher. -/
def changeHeader (epoch : UInt16) (seq : Nat) : RecordLayerHeader :=
  ⟨.changeCipherSpec, protocolVersion12, epoch, seq, 1⟩

/-- A change of the cipher as a record. -/
def changeRecord (epoch : UInt16) (seq : Nat) : List UInt8 := (changeHeader epoch seq).bytes ++ [1]

/-- One change for each epoch from this one on, the first under the number `seq`. -/
def changeRecords (epoch : UInt16) (seq : Nat) : Nat → List (List UInt8)
  | 0 => []
  | n + 1 => changeRecord epoch seq :: changeRecords (epoch + 1) 0 n

section

variable {epoch : UInt16} {seq : Nat}

theorem unmarshal_changeRecord (epoch : UInt16) (hseq : seq ≤ maxSequenceNumber) :
    RecordLayerHeader.unmarshal (changeRecord epoch seq) = .ok (changeHeader epoch seq, [1]) :=
  RecordLayerHeader.reads_bytes (.inr rfl) hseq [1]

theorem length_changeRecord : (changeRecord epoch seq).length = 14 := by
  rw [changeRecord, List.length_append, RecordLayerHeader.length_bytes]
  rfl

theorem unpackDatagram_changeRecord :
    unpackDatagram (changeRecord epoch seq) = .ok [changeRecord epoch seq] := by
  have hfield : ((changeRecord epoch seq).drop (recordLayerHeaderSize - 2)).take 2 = [0, 1] := by
    simp [changeRecord, changeHeader, RecordLayerHeader.bytes, recordLayerHeaderSize, toBigEndian]
  have hwhole : Whole (changeRecord epoch seq) := by
    rw [Whole, hfield, length_changeRecord]
    decide
  have hgroup : unpackDatagram [changeRecord epoch seq].flatten = .ok [changeRecord epoch seq] :=
    unpackDatagram_flatten (by simpa using hwhole)
      (by simp [Carries, length_changeRecord, recordLayerHeaderSize])
  rwa [List.flatten_singleton] at hgroup

theorem unmarshal_content_changeRecord (codec : MessageCodec M) (hseq : seq ≤ maxSequenceNumber) :
    RecordLayer.unmarshal codec (changeRecord epoch seq) =
      .ok (⟨changeHeader epoch seq, .changeCipherSpec⟩, []) := by
  rw [RecordLayer.unmarshal, bind_apply, unmarshal_changeRecord _ hseq]
  rfl

/-- A change of the cipher passes the keys unchanged. -/
theorem decrypt_changeRecord (gcm : CryptoGcm) (hseq : seq ≤ maxSequenceNumber) :
    gcm.decrypt (changeRecord epoch seq) = .ok (changeRecord epoch seq) := by
  rw [CryptoGcm.decrypt, unmarshal_changeRecord _ hseq]
  rfl

end

namespace Reader

/-! ## The detectors there are -/

/-- There is no detector of a later epoch, unless the epochs started again. -/
def Steady (ctx : ReaderContext D M) : Prop :=
  ctx.replayDetector.length ≤ ctx.remoteEpoch.toNat + 1 ∨ ctx.replayDetector.length = 65536

section

variable {setup : Setup D M} {ctx ctx' : ReaderContext D M} {cipherSuite : Option CipherSuite}
  {pkt : List UInt8} {out : Handled} {h : RecordLayerHeader}

/-- The detector of an epoch that is reached is made. -/
theorem Steady.check (hctx : Steady ctx) (hreached : h.epoch ≤ ctx.remoteEpoch) :
    Steady (ctx.check setup.detector h).2 := by
  rw [UInt16.le_iff_toNat_le] at hreached
  have hepoch : (ctx.check setup.detector h).2.remoteEpoch = ctx.remoteEpoch := rfl
  have hlt := h.epoch.toNat_lt
  rw [Steady, ReaderContext.length_check, hepoch]
  rcases hctx with hle | heq <;> omega

theorem Steady.accept (hctx : Steady ctx) : Steady (ctx.accept setup.detector h) := by
  rw [Steady, ReaderContext.length_accept]
  exact hctx

/-- A change moves the epoch on, or ends the last one, whose detector is there. -/
theorem Steady.change (hctx : Steady ctx) (hmove : ctx.remoteEpoch + 1 = h.epoch + 1) :
    Steady (({ (ctx.check setup.detector h).2 with remoteEpoch := h.epoch + 1 }).accept
      setup.detector h) := by
  have hsame : h.epoch.toNat = ctx.remoteEpoch.toNat := by
    rw [(UInt16.add_left_inj 1).mp hmove]
  have hlen : (({ (ctx.check setup.detector h).2 with remoteEpoch := h.epoch + 1 }).accept
      setup.detector h).replayDetector.length = (ctx.check setup.detector h).2.replayDetector.length :=
    ReaderContext.length_accept
  have hepoch : (h.epoch + 1).toNat = (h.epoch.toNat + 1) % 65536 := UInt16.toNat_add ..
  have hlt := h.epoch.toNat_lt
  rw [Steady, hlen, ReaderContext.length_check]
  show _ ≤ (h.epoch + 1).toNat + 1 ∨ _
  rcases hctx with hle | heq <;> omega

theorem Steady.handles (hctx : Steady ctx) (hstep : Handles setup cipherSuite ctx pkt ctx' out) :
    Steady ctx' := by
  cases hstep with
  | ignored | early => exact hctx
  | dropped _ hreached | late hreached => exact hctx.check hreached
  | broken hfresh => exact hctx.check hfresh.epoch
  | handshake hfresh | alert _ hfresh | applicationData hfresh =>
      exact (hctx.check hfresh.epoch).accept
  | changeCipherSpec _ _ _ hmove => exact hctx.change hmove

theorem kept_steady : Kept setup (fun _ => True) (fun _ => True) Steady Steady :=
  .of_handles (fun _ _ hctx hstep => hctx.handles hstep) (fun _ hctx => hctx)
    (fun _ _ _ => trivial) fun hctx => hctx

theorem steady_of_run {ds : List Datagram} {s : State D M}
    (hrun : (machine setup).Run .new ds s) : Steady s.ctx := by
  refine hrun.invariant (I := fun s => Steady s.ctx) (.inl (Nat.zero_le _)) fun s d s' hs hstep => ?_
  rw [(of_step hstep).2.1]
  exact (kept_steady.readAndBuffer (fun _ _ => trivial) (fun _ _ _ _ => trivial) hs).1

end

/-! ## The reader's epoch -/

/-- The reader has room for a packet, and lets a number of its epoch through. -/
structure Movable (setup : Setup D M) (seq : Nat) (ctx : ReaderContext D M) : Prop where
  room : ctx.fragmentBuffer.size + 14 < fragmentBufferMaxSize
  small : seq ≤ maxSequenceNumber
  check : (setup.detector.check (ctx.detectorAt setup.detector ctx.remoteEpoch) seq).1 = true

section

variable {setup : Setup D M} {seq : Nat} {ctx : ReaderContext D M} {gcm : CryptoGcm}
  {suite : CipherSuite} {env : Env}

theorem push_changeRecord {fb : FragmentBuffer} {epoch : UInt16}
    (hroom : fb.size + 14 < fragmentBufferMaxSize) (hseq : seq ≤ maxSequenceNumber) :
    fb.push (changeRecord epoch seq) = (fb, .ok false) := by
  rw [FragmentBuffer.push, length_changeRecord, if_neg (by omega), unmarshal_changeRecord _ hseq]
  rfl

/-- A change of the current epoch moves the reader on by one. -/
theorem handleIncomingPacket_changeRecord (hmovable : Movable setup seq ctx)
    (hinit : suite.isInitialized = true) (hdecrypt : suite.decrypt = gcm.decrypt) :
    ∃ ctx', handleIncomingPacket setup (some suite) ctx (changeRecord ctx.remoteEpoch seq) true =
        (ctx', .nothing) ∧
      ctx'.remoteEpoch = ctx.remoteEpoch + 1 ∧ ctx'.fragmentBuffer = ctx.fragmentBuffer ∧
      ctx'.decryptedTx = ctx.decryptedTx ∧ ctx'.packetTx = ctx.packetTx ∧
      ctx'.replayDetector.length = max ctx.replayDetector.length (ctx.remoteEpoch.toNat + 1) := by
  set pkt := changeRecord ctx.remoteEpoch seq
  set h := changeHeader ctx.remoteEpoch seq with hh
  have hread := unmarshal_changeRecord ctx.remoteEpoch hmovable.small
  have hvalid : invalidCipherSuite (some suite) = false := by simp [invalidCipherSuite, hinit]
  have hcheck : (ctx.check setup.detector h).1 = true := by
    rw [ReaderContext.check_fst]
    exact hmovable.check
  -- whatever the epoch, the record reaches the content unchanged
  have hplain : handlePlain setup (some suite) (ctx.check setup.detector h).2 h ctx.remoteEpoch pkt
      true = (({ (ctx.check setup.detector h).2 with remoteEpoch := ctx.remoteEpoch + 1 }).accept
        setup.detector h, .nothing) := by
    have hbuffer : (ctx.check setup.detector h).2.fragmentBuffer = ctx.fragmentBuffer := rfl
    rw [handlePlain, hbuffer, push_changeRecord hmovable.room hmovable.small]
    simp only
    rw [handleContent, unmarshal_content_changeRecord setup.codec hmovable.small]
    simp only [hvalid, Bool.false_eq_true, if_false]
    rw [if_pos (show ctx.remoteEpoch + 1 = h.epoch + 1 from rfl)]
    rfl
  refine ⟨({ (ctx.check setup.detector h).2 with remoteEpoch := ctx.remoteEpoch + 1 }).accept
    setup.detector h, ?_, rfl, rfl, rfl, rfl,
    ReaderContext.length_accept.trans ReaderContext.length_check⟩
  rw [handleIncomingPacket, hread]
  simp only
  have hreached : ¬ (changeHeader ctx.remoteEpoch seq).epoch > ctx.remoteEpoch :=
    UInt16.lt_irrefl _
  rw [if_neg hreached]
  simp only [← hh, hcheck, Bool.not_true, Bool.false_eq_true, if_false]
  split
  · have hopened : gcm.decrypt pkt = .ok pkt := decrypt_changeRecord gcm hmovable.small
    simp only [hvalid, Bool.false_eq_true, if_false, hdecrypt, hopened]
    exact hplain
  · exact hplain

theorem step_changeRecord (hmovable : Movable setup seq ctx)
    (hsuite : env.cipherSuite = some suite) (hinit : suite.isInitialized = true)
    (hdecrypt : suite.decrypt = gcm.decrypt) :
    ∃ ctx', (machine setup).step ⟨ctx, false⟩ ⟨env, [], changeRecord ctx.remoteEpoch seq⟩ =
        some ⟨ctx', false⟩ ∧
      ctx'.remoteEpoch = ctx.remoteEpoch + 1 ∧ ctx'.fragmentBuffer = ctx.fragmentBuffer ∧
      ctx'.decryptedTx = ctx.decryptedTx ∧
      ctx'.replayDetector.length = max ctx.replayDetector.length (ctx.remoteEpoch.toNat + 1) := by
  obtain ⟨ctx', hhandle, hepoch, hfb, htx, hpackets, hlen⟩ :=
    handleIncomingPacket_changeRecord hmovable hinit hdecrypt
  refine ⟨ctx', ?_, hepoch, hfb, htx, hlen⟩
  have hpacketTx : ({ ctx' with packetTx := ctx'.packetTx ++
      (Handled.nothing.alert.toList.map (alertPacket env)) } : ReaderContext D M) = ctx' := by
    simp [Handled.nothing]
  rw [machine]
  simp only [Bool.false_eq_true, if_false, readAndBuffer, unpackDatagram_changeRecord,
    handlePackets, hsuite, hhandle, hpacketTx]
  rfl

/-- **Anyone can move the reader's epoch**: a reader that has keys, room in its buffer and none of
the records of the last epoch yet takes `n` records that are written without any key, the first
of them under a number that its detector lets through.  Its epoch is `n` further, and the first
one again for as many as there are epochs left. -/
theorem remoteEpoch_of_changeRecords (n : Nat) {ds : List Datagram}
    (hreach : (machine setup).Run .new ds ⟨ctx, false⟩) (hlast : ctx.replayDetector.length < 65536)
    (hmovable : Movable setup seq ctx)
    (hnew : (setup.detector.check setup.detector.new 0).1 = true)
    (hsuite : env.cipherSuite = some suite) (hinit : suite.isInitialized = true)
    (hdecrypt : suite.decrypt = gcm.decrypt) (hn : ctx.remoteEpoch.toNat + n ≤ 65536) :
    ∃ ctx', (machine setup).Run ⟨ctx, false⟩
        ((changeRecords ctx.remoteEpoch seq n).map fun buf => ⟨env, [], buf⟩) ⟨ctx', false⟩ ∧
      ctx'.remoteEpoch = ctx.remoteEpoch + UInt16.ofNat n ∧
      ctx'.decryptedTx = ctx.decryptedTx := by
  have hsteady : ctx.replayDetector.length ≤ ctx.remoteEpoch.toNat + 1 :=
    (steady_of_run hreach).resolve_right hlast.ne
  clear hreach hlast
  induction n generalizing ctx seq with
  | zero => exact ⟨ctx, Machine.run_nil.mpr rfl, by simp, rfl⟩
  | succ n ih =>
      obtain ⟨ctx₁, hstep, hepoch, hfb, htx, hlen⟩ :=
        step_changeRecord hmovable hsuite hinit hdecrypt
      rw [changeRecords, List.map_cons]
      cases n with
      | zero =>
          refine ⟨ctx₁, Machine.run_cons.mpr ⟨_, hstep, Machine.run_nil.mpr rfl⟩, ?_, htx⟩
          rw [hepoch]
          rfl
      | succ n =>
          have hnext : ctx₁.remoteEpoch.toNat = ctx.remoteEpoch.toNat + 1 := by
            rw [hepoch, UInt16.toNat_add]
            exact Nat.mod_eq_of_lt (by simp; omega)
          -- the next epoch has no detector yet
          have hdetector : ctx₁.detectorAt setup.detector ctx₁.remoteEpoch =
              setup.detector.new := by
            rw [ReaderContext.detectorAt, List.getD_eq_getElem?_getD,
              List.getElem?_eq_none (by omega), Option.getD_none]
          have hmovable₁ : Movable setup 0 ctx₁ :=
            ⟨hfb ▸ hmovable.room, Nat.zero_le _, by rw [hdetector]; exact hnew⟩
          obtain ⟨ctx', hrun, hepoch', htx'⟩ := ih hmovable₁ (by omega) (by omega)
          refine ⟨ctx', Machine.run_cons.mpr ⟨_, hstep, ?_⟩, ?_, htx'.trans htx⟩
          · rw [← hepoch]
            exact hrun
          · rw [hepoch', hepoch, UInt16.add_assoc, UInt16.add_comm 1, UInt16.ofNat_add (n + 1) 1]
            rfl

end

/-- A record for each epoch brings a new reader round to the first one. -/
theorem remoteEpoch_of_changeRecords_round : ∃ ctx' : ReaderContext SlidingWindow (List UInt8),
    (machine windowed).Run .new ((changeRecords 0 0 65536).map fun buf => ⟨keyed, [], buf⟩)
      ⟨ctx', false⟩ ∧
    ctx'.remoteEpoch = 0 + UInt16.ofNat 65536 ∧ ctx'.decryptedTx = [] :=
  remoteEpoch_of_changeRecords 65536 (Machine.run_nil.mpr rfl) (by decide)
    ⟨by decide, by decide, by decide⟩ (by decide) rfl rfl
    (rfl : zeroSuite.decrypt = CryptoGcm.zeroKeys.decrypt) (by decide)

end Reader

end RemoteBridge.Dtls
