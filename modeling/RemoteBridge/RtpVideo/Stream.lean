import Mathlib.Algebra.Order.Field.Basic
import Mathlib.Data.Int.ModEq
import Mathlib.Tactic.Linarith
import Mathlib.Tactic.NormNum
import RemoteBridge.RtpVideo

/-!
# RtpVideo.Stream

How the packets of a stream are numbered and stamped, whichever frames give packets and
whichever writes fail: what the receiver's loss detection and its jitter buffer go by.
-/

namespace RemoteBridge.RtpVideo

/-! ## Numbers -/

/-- The packets are numbered one after another, from `n` on. -/
def Numbered (n : UInt16) : List Written → Prop
  | [] => True
  | w :: ws => w.sequenceNumber = n ∧ Numbered (n + 1) ws

theorem ofNat_succ (n : UInt16) (k : Nat) : n + 1 + UInt16.ofNat k = n + UInt16.ofNat (k + 1) := by
  rw [UInt16.ofNat_add, UInt16.add_assoc, UInt16.add_comm (UInt16.ofNat k)]
  rfl

theorem numbered_append {n : UInt16} {xs ys : List Written} :
    Numbered n (xs ++ ys) ↔ Numbered n xs ∧ Numbered (n + UInt16.ofNat xs.length) ys := by
  induction xs generalizing n with
  | nil => simp [Numbered]
  | cons x xs ih =>
      simp only [List.cons_append, Numbered, ih, List.length_cons, and_assoc, ofNat_succ]

/-- How far the numbers of two packets are apart. -/
theorem Numbered.apart {n : UInt16} {xs ys zs : List Written} {a b : Written}
    (h : Numbered n (xs ++ a :: (ys ++ b :: zs))) :
    b.sequenceNumber = a.sequenceNumber + 1 + UInt16.ofNat ys.length := by
  obtain ⟨-, ha, hrest⟩ := numbered_append.mp h
  obtain ⟨-, hb, -⟩ := numbered_append.mp hrest
  rw [ha, hb]

/-- There is no gap between two packets exactly if a multiple of 2¹⁶ stands between
them. -/
theorem noGap_iff (n : UInt16) (k : Nat) : n + 1 + UInt16.ofNat k = n + 1 ↔ 2 ^ 16 ∣ k := by
  rw [← UInt16.toNat_inj, UInt16.toNat_add, UInt16.toNat_ofNat']
  have := (n + 1).toNat_lt
  omega

/-! ## One frame -/

/-- What one call of `write_frame` hands to the track: the packets of its frame up to
the first that cannot be written. -/
structure FrameOf (start : Instant) (call : Call) (ws : List Written) : Prop where
  carried : ws.map (·.packet.payload) <+: call.payloads.getD []
  timestamp : ∀ w ∈ ws, w.timestamp = rtpTimestamp start call.captured
  marker : ∀ k (h : k < ws.length), ws[k].marker ↔ k + 1 = (call.payloads.getD []).length
  delivered : ∀ k (h : k < ws.length), ws[k].delivered = call.succeeds k
  unfinished : ∀ w ∈ ws.dropLast, w.delivered
  finished : (∀ w ∈ ws, w.delivered) → ws.length = (call.payloads.getD []).length

/-- What the loop of `write_frame` does from the packet `i` on. -/
structure Loop (timestamp : UInt32) (count : Nat) (succeeds : Nat → Bool) (sequence : UInt16)
    (i : Nat) (payloads : List (List UInt8)) (result : List Written × UInt16 × Bool) : Prop where
  numbered : Numbered sequence result.1
  sequence : result.2.1 = sequence + UInt16.ofNat result.1.length
  carried : result.1.map (·.packet.payload) <+: payloads
  timestamp : ∀ w ∈ result.1, w.timestamp = timestamp
  marker : ∀ k (h : k < result.1.length), result.1[k].marker = (i + k == count - 1)
  delivered : ∀ k (h : k < result.1.length), result.1[k].delivered = succeeds (i + k)
  unfinished : ∀ w ∈ result.1.dropLast, w.delivered
  finished : (∀ w ∈ result.1, w.delivered) → result.1.length = payloads.length
  ok : result.2.2 ↔ ∀ w ∈ result.1, w.delivered

theorem loop_writePackets (timestamp : UInt32) (count : Nat) (succeeds : Nat → Bool)
    (sequence : UInt16) (i : Nat) (payloads : List (List UInt8)) :
    Loop timestamp count succeeds sequence i payloads
      (writePackets timestamp count succeeds sequence i payloads) := by
  induction payloads generalizing sequence i with
  | nil => constructor <;> simp [writePackets, Numbered]
  | cons payload payloads ih =>
      unfold writePackets
      dsimp only
      split
      next hsucceeds =>
        obtain ⟨hnumbered, hsequence, hcarried, htimestamp, hmarker, hdelivered, hunfinished,
          hfinished, hok⟩ := ih (sequence + 1) (i + 1)
        generalize writePackets timestamp count succeeds (sequence + 1) (i + 1) payloads = result
          at *
        constructor
        · exact ⟨rfl, hnumbered⟩
        · rw [hsequence, ofNat_succ]
          rfl
        · simpa using hcarried
        · simpa [Written.timestamp] using htimestamp
        · rintro (_ | k) hk
          · rfl
          · have hk' : k < result.1.length := by simpa using hk
            rw [List.getElem_cons_succ, hmarker k hk', Nat.add_right_comm, Nat.add_assoc]
        · rintro (_ | k) hk
          · exact hsucceeds.symm
          · have hk' : k < result.1.length := by simpa using hk
            rw [List.getElem_cons_succ, hdelivered k hk', Nat.add_right_comm, Nat.add_assoc]
        · intro w hw
          cases hresult : result.1 with
          | nil => simp [hresult] at hw
          | cons w' ws =>
              simp only [hresult, List.dropLast_cons_cons, List.mem_cons] at hw hunfinished
              rcases hw with rfl | hw
              · rfl
              · exact hunfinished w hw
        · intro h
          simpa using hfinished fun w hw => h w (List.mem_cons_of_mem _ hw)
        · simpa using hok
      next hsucceeds =>
        constructor <;> simp [Numbered, Written.sequenceNumber, Written.timestamp, Written.marker, hsucceeds]

theorem Loop.frameOf {start : Instant} {call : Call} {payloads : List (List UInt8)}
    {sequence : UInt16} {result : List Written × UInt16 × Bool}
    (hpayloads : call.payloads = some payloads)
    (h : Loop (rtpTimestamp start call.captured) payloads.length call.succeeds sequence 0 payloads
      result) : FrameOf start call result.1 := by
  have hlength : result.1.length ≤ payloads.length := by
    rw [← List.length_map (·.packet.payload)]
    exact h.carried.length_le
  constructor
  · rw [hpayloads]
    exact h.carried
  · exact h.timestamp
  · intro k hk
    rw [h.marker k hk, hpayloads, Option.getD_some, beq_iff_eq]
    omega
  · intro k hk
    rw [h.delivered k hk, Nat.zero_add]
  · exact h.unfinished
  · rw [hpayloads]
    exact h.finished

/-- What a call of `write_frame` does, whatever becomes of it. -/
theorem writeFrame_spec (s : VideoSender) (call : Call) :
    ∃ ws, (s.writeFrame call).2 = { s with
        track := s.track ++ [ws], sequence := s.sequence + UInt16.ofNat ws.length } ∧
      FrameOf s.start call ws ∧ Numbered s.sequence ws := by
  cases hpayloads : call.payloads with
  | none =>
      refine ⟨[], by simp [VideoSender.writeFrame, hpayloads], ?_, trivial⟩
      constructor <;> simp [hpayloads]
  | some payloads =>
      have h := loop_writePackets (rtpTimestamp s.start call.captured) payloads.length call.succeeds
        s.sequence 0 payloads
      refine ⟨_, ?_, h.frameOf hpayloads, h.numbered⟩
      simp only [VideoSender.writeFrame, hpayloads, h.sequence]

/-- A call reports a write exactly if one of the frame's packets was not delivered. -/
theorem writeFrame_write_iff {s : VideoSender} {call : Call} {ws : List Written}
    (h : (s.writeFrame call).2.track = s.track ++ [ws]) :
    (s.writeFrame call).1 = .error .write ↔ ∃ w ∈ ws, ¬ w.delivered := by
  cases hpayloads : call.payloads with
  | none =>
      obtain rfl : ws = [] := by simpa [VideoSender.writeFrame, hpayloads] using h.symm
      simp [VideoSender.writeFrame, hpayloads]
  | some payloads =>
      have hloop := loop_writePackets (rtpTimestamp s.start call.captured) payloads.length
        call.succeeds s.sequence 0 payloads
      simp only [VideoSender.writeFrame, hpayloads] at h ⊢
      obtain rfl := List.singleton_injective (List.append_cancel_left h)
      have hok := hloop.ok
      split
      next hresult => simpa using hok.mp hresult
      next hresult => simpa [hresult] using hok

/-! ## The stream -/

/-- The stream after some calls. -/
structure Stream (start : Instant) (calls : List Call) (s : VideoSender) : Prop where
  frames : List.Forall₂ (FrameOf start) calls s.track
  numbered : Numbered 0 s.track.flatten
  sequence : s.sequence = UInt16.ofNat s.track.flatten.length
  start : s.start = start

theorem stream_of_run {start : Instant} {calls : List Call} {s : VideoSender}
    (hrun : machine.Run (new start) calls s) : Stream start calls s := by
  refine hrun.rec_snoc (P := fun calls s => Stream start calls s) ⟨.nil, trivial, rfl, rfl⟩
    fun calls call s s' _ ih hstep => ?_
  obtain ⟨ws, heq, hframe, hnumbered⟩ := writeFrame_spec s call
  obtain rfl : s' = _ := (Option.some.inj hstep).symm.trans heq
  rw [ih.start] at hframe
  rw [ih.sequence] at hnumbered
  constructor
  · exact List.rel_append ih.frames (.cons hframe .nil)
  · rw [List.flatten_append, List.flatten_singleton, numbered_append, UInt16.zero_add]
    exact ⟨ih.numbered, hnumbered⟩
  · simp [ih.sequence, UInt16.ofNat_add]
  · exact ih.start

/-! ## Timestamps -/

/-- The ticks of the clock from `start` to `captured`. -/
def ticks (start captured : Instant) : ℚ := 90000 * ((captured : ℚ) - start) / 10 ^ 9

/-- The timestamps of two frames are as far apart as their captures, but for less than a
tick, up to a multiple of 2³². -/
def WithinTick (start c₁ c₂ : Instant) : Prop :=
  ∃ n : ℤ, ((rtpTimestamp start c₂ - rtpTimestamp start c₁).toNat : ℤ) ≡ n [ZMOD 2 ^ 32] ∧
    |n - ticks c₁ c₂| < 1

/-- Of the ticks since the start the whole ones are sent, modulo 2³². -/
theorem toNat_rtpTimestamp {start captured : Instant} (hstart : start ≤ captured)
    (hsmall : ticks start captured < 2 ^ 64) :
    ((rtpTimestamp start captured).toNat : ℤ) = ⌊ticks start captured⌋ % 2 ^ 32 := by
  have hticks : asSecs (captured - start) * clockRate = ticks start captured := by
    rw [asSecs, clockRate, ticks, Nat.cast_sub hstart]
    ring
  have hpos : 0 ≤ ticks start captured := by
    rw [ticks]
    have : (start : ℚ) ≤ captured := Nat.cast_le.mpr hstart
    exact div_nonneg (mul_nonneg (by norm_num) (by linarith)) (by positivity)
  have hfloor : 0 ≤ ⌊ticks start captured⌋ := Int.floor_nonneg.mpr hpos
  have hlt : ⌊ticks start captured⌋ < 2 ^ 64 := Int.floor_lt.mpr (by exact_mod_cast hsmall)
  simp only [rtpTimestamp, hticks, asU64]
  generalize ⌊ticks start captured⌋ = n at *
  have hn : (UInt64.ofNat n.toNat).toNat = n.toNat := by
    rw [UInt64.toNat_ofNat', Nat.mod_eq_of_lt (by omega)]
  rw [min_eq_left (by omega), UInt64.toNat_toUInt32, UInt64.toNat_and, hn,
    show (0xffffffff : UInt64).toNat = 2 ^ 32 - 1 from rfl, Nat.and_two_pow_sub_one_eq_mod]
  omega

theorem withinTick {start c₁ c₂ : Instant} (h₁ : start ≤ c₁) (h₂ : start ≤ c₂)
    (hsmall₁ : ticks start c₁ < 2 ^ 64) (hsmall₂ : ticks start c₂ < 2 ^ 64) :
    WithinTick start c₁ c₂ := by
  refine ⟨⌊ticks start c₂⌋ - ⌊ticks start c₁⌋, ?_, ?_⟩
  · rw [UInt32.toNat_sub]
    have ht₁ := toNat_rtpTimestamp h₁ hsmall₁
    have ht₂ := toNat_rtpTimestamp h₂ hsmall₂
    have := (rtpTimestamp start c₁).toNat_lt
    unfold Int.ModEq
    omega
  · have hgap : ticks c₁ c₂ = ticks start c₂ - ticks start c₁ := by
      simp only [ticks]
      ring
    have hlow₁ := Int.floor_le (ticks start c₁)
    have hlow₂ := Int.floor_le (ticks start c₂)
    have hhigh₁ := Int.lt_floor_add_one (ticks start c₁)
    have hhigh₂ := Int.lt_floor_add_one (ticks start c₂)
    rw [hgap, abs_lt]
    push_cast
    constructor <;> linarith

/-! ## The whole -/

/-- **The stream is well numbered and stamped**: each frame's packets have its timestamp,
and the marker is its last packet's; packets are numbered one after another, so two that
are delivered are apart by one and the writes that failed between them; after a frame
whose write failed there is a gap, unless a multiple of 2¹⁶ writes failed; and timestamps
follow the capture times, for captures less than 2⁶⁴ ticks after the start. -/
theorem stream_numbered {start : Instant} {calls : List Call} {s : VideoSender}
    (hrun : machine.Run (new start) calls s) :
    List.Forall₂ (FrameOf start) calls s.track ∧
    (∀ xs a b zs, s.track.flatten = xs ++ a :: b :: zs →
      b.sequenceNumber = a.sequenceNumber + 1) ∧
    (∀ xs a ys b zs, s.track.flatten = xs ++ a :: (ys ++ b :: zs) → a.delivered → b.delivered →
      (∀ w ∈ ys, ¬ w.delivered) →
      b.sequenceNumber = a.sequenceNumber + 1 + UInt16.ofNat ys.length) ∧
    (∀ fs f gs xs a ys zs b rest, s.track = fs ++ f :: gs → (∃ w ∈ f, ¬ w.delivered) →
      f = xs ++ a :: ys → gs.flatten = zs ++ b :: rest → a.delivered → b.delivered →
      (∀ w ∈ ys ++ zs, ¬ w.delivered) →
      0 < (ys ++ zs).length ∧
      (b.sequenceNumber = a.sequenceNumber + 1 ↔ 2 ^ 16 ∣ (ys ++ zs).length)) ∧
    ∀ c₁ ∈ calls, ∀ c₂ ∈ calls, start ≤ c₁.captured → start ≤ c₂.captured →
      ticks start c₁.captured < 2 ^ 64 → ticks start c₂.captured < 2 ^ 64 →
      WithinTick start c₁.captured c₂.captured := by
  obtain ⟨hframes, hnumbered, -, -⟩ := stream_of_run hrun
  have hapart (xs : List Written) (a : Written) (ys : List Written) (b : Written)
      (zs : List Written) (heq : s.track.flatten = xs ++ a :: (ys ++ b :: zs)) :
      b.sequenceNumber = a.sequenceNumber + 1 + UInt16.ofNat ys.length :=
    Numbered.apart (heq ▸ hnumbered)
  refine ⟨hframes, fun xs a b zs heq => ?_, fun xs a ys b zs heq _ _ _ => hapart xs a ys b zs heq,
    ?_, fun c₁ _ c₂ _ => withinTick⟩
  · simpa using hapart xs a [] b zs heq
  · intro fs f gs xs a ys zs b rest htrack hfailed hf hgs ha hb hbetween
    have hnum := hapart (fs.flatten ++ xs) a (ys ++ zs) b rest (by simp [htrack, hf, hgs])
    refine ⟨?_, hnum ▸ noGap_iff _ _⟩
    rw [htrack] at hframes
    obtain ⟨call, _, hframe, -⟩ :=
      List.forall₂_cons_right_iff.mp (List.forall₂_drop_append _ _ _ hframes)
    -- Were `a` the frame's last packet, all of it would have been delivered.
    rw [List.length_pos_iff]
    intro hnone
    obtain ⟨rfl, rfl⟩ := List.append_eq_nil_iff.mp hnone
    obtain ⟨w, hw, hlost⟩ := hfailed
    rw [hf] at hw hframe
    rcases List.mem_append.mp hw with hw | hw
    · exact hlost (hframe.unfinished w (by rwa [List.dropLast_concat]))
    · exact hlost (List.mem_singleton.mp hw ▸ ha)

/-- Three calls: the second write of the first frame fails, the second frame has no
packets. -/
def cutShort : List Call :=
  [⟨10 ^ 9, some [[1], [2], [3]], fun i => i != 1⟩, ⟨2 * 10 ^ 9, some [], fun _ => true⟩,
    ⟨3 * 10 ^ 9, some [[4]], fun _ => true⟩]

/-- The stream of `cutShort`, where the third frame follows the first after a gap. -/
theorem stream_numbered_cutShort :
    ∃ s, machine.Run (new 0) cutShort s ∧ s.track.map (·.map (·.delivered)) =
      [[true, false], [], [true]] ∧ List.Forall₂ (FrameOf 0) cutShort s.track ∧
      WithinTick 0 (10 ^ 9) (3 * 10 ^ 9) := by
  obtain ⟨s, hrun, hdelivered⟩ := machine.exists_run (new 0) cutShort
    (fun s => decide (s.track.map (·.map (·.delivered)) = [[true, false], [], [true]]))
    (by decide +kernel)
  have h := stream_numbered hrun
  refine ⟨s, hrun, of_decide_eq_true hdelivered, h.1, ?_⟩
  have hwithin := h.2.2.2.2 ⟨10 ^ 9, some [[1], [2], [3]], fun i => i != 1⟩ (.head _)
    ⟨3 * 10 ^ 9, some [[4]], fun _ => true⟩ (.tail _ (.tail _ (.head _)))
  exact hwithin (Nat.zero_le _) (Nat.zero_le _) (by norm_num [ticks]) (by norm_num [ticks])

/-- From 2⁶⁴ ticks on the conversion saturates, and the timestamp stays where it is. -/
theorem timestamp_saturates :
    rtpTimestamp 0 (10 ^ 24) = 0xffffffff ∧ rtpTimestamp 0 (10 ^ 24 + 10 ^ 9) = 0xffffffff ∧
      ticks (10 ^ 24) (10 ^ 24 + 10 ^ 9) = 90000 ∧ ¬ WithinTick 0 (10 ^ 24) (10 ^ 24 + 10 ^ 9) := by
  have h₁ : rtpTimestamp 0 (10 ^ 24) = 0xffffffff := by decide +kernel
  have h₂ : rtpTimestamp 0 (10 ^ 24 + 10 ^ 9) = 0xffffffff := by decide +kernel
  have hticks : ticks (10 ^ 24) (10 ^ 24 + 10 ^ 9) = 90000 := by norm_num [ticks]
  refine ⟨h₁, h₂, hticks, ?_⟩
  rintro ⟨n, hn, hgap⟩
  rw [h₁, h₂] at hn
  have hn' : n % 2 ^ 32 = 0 := hn.symm
  rw [hticks, abs_lt] at hgap
  have hlow : (89999 : ℤ) < n := by
    have : ((89999 : ℤ) : ℚ) < n := by push_cast; linarith
    exact_mod_cast this
  have hhigh : n < 90001 := by
    have : (n : ℚ) < ((90001 : ℤ) : ℚ) := by push_cast; linarith
    exact_mod_cast this
  omega

end RemoteBridge.RtpVideo
