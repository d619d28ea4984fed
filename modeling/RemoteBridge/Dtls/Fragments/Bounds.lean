import Mathlib.Algebra.Order.BigOperators.Group.List
import Mathlib.Data.UInt
import RemoteBridge.Dtls.Fragments
import RemoteBridge.Machine

/-!
# Dtls.Fragments.Bounds

How much the fragment buffer holds: never more than its limit, but what comes late for a
message that is already out stays for good.
-/

namespace RemoteBridge.Dtls

open Wire Bytes

/-! ## Weights of a cache -/

/-- The weights of the entries of a cache, added up. -/
def FragmentCache.weight (w : UInt16 → List Fragment → Nat) (cache : FragmentCache) : Nat :=
  (cache.entries.map fun e => w e.1 e.2).sum

namespace FragmentCache

variable {w : UInt16 → List Fragment → Nat} {cache : FragmentCache} {seq : UInt16}
  {frags : List Fragment} {f : Fragment}

theorem weight_erase (h : cache.lookup seq = some frags) :
    weight w cache = w seq frags + weight w (cache.erase seq) := by
  obtain ⟨l₁, l₂, heq, herase⟩ := FragmentBuffer.entries_erase h
  rw [weight, weight, heq, herase]
  simp only [List.map_append, List.map_cons, List.sum_append, List.sum_cons]
  omega

theorem weight_singleton : weight w (AList.singleton seq frags) = w seq frags := Nat.add_zero _

theorem weight_mono {w' : UInt16 → List Fragment → Nat} (h : ∀ seq frags, w seq frags ≤ w' seq frags) :
    weight w cache ≤ weight w' cache :=
  List.sum_le_sum fun e _ => h e.1 e.2

theorem erase_eq_self (h : cache.lookup seq = none) : cache.erase seq = cache := by
  refine AList.ext ?_
  exact List.kerase_of_notMem_keys (List.dlookup_eq_none.mp h)

/-- A pushed fragment adds what it weighs under its number. -/
theorem weight_push (cache : FragmentCache) (f : Fragment) (hnil : ∀ seq, w seq [] = 0) :
    weight w (cache.push f) + w f.handshakeHeader.messageSequence
        ((cache.lookup f.handshakeHeader.messageSequence).getD []) =
      weight w cache + w f.handshakeHeader.messageSequence
        ((cache.lookup f.handshakeHeader.messageSequence).getD [] ++ [f]) := by
  set seq := f.handshakeHeader.messageSequence with hseq
  have hinsert : weight w (cache.push f) =
      w seq ((cache.lookup seq).getD [] ++ [f]) + weight w (cache.erase seq) := by
    rw [weight, push, AList.entries_insert, List.map_cons, List.sum_cons]
    rfl
  cases hlookup : cache.lookup seq with
  | none =>
      rw [hinsert, hlookup, erase_eq_self hlookup, Option.getD_none, hnil]
      omega
  | some frags =>
      have herase := weight_erase (w := w) hlookup
      rw [hinsert, hlookup, Option.getD_some]
      omega

end FragmentCache

namespace FragmentBuffer

open FragmentCache

theorem held_append (frags : List Fragment) (f : Fragment) :
    held (frags ++ [f]) = held frags + f.data.length := by
  simp [held]

/-! ## The limit -/

theorem size_eq (fb : FragmentBuffer) : fb.size = weight (fun _ => held) fb.cache := rfl

theorem weight_held_push (cache : FragmentCache) (f : Fragment) :
    weight (fun _ => held) (cache.push f) = weight (fun _ => held) cache + f.data.length := by
  have h := weight_push cache f (w := fun _ => held) fun _ => rfl
  rw [held_append] at h
  omega

/-- The fragments of a record are no longer than the record. -/
theorem weight_pushFragments (h : RecordLayerHeader) (cache : FragmentCache) (buf : List UInt8) :
    weight (fun _ => held) (pushFragments h cache buf).1 ≤
      weight (fun _ => held) cache + buf.length := by
  induction cache, buf using pushFragments.induct (h := h) with
  | case1 cache => simp [pushFragments_nil]
  | case2 cache buf hne e hread => simp [pushFragments_error hne hread]
  | case3 cache buf hne hs tail hread data ih =>
      have hstop : stop hs buf ≤ buf.length := Nat.min_le_right ..
      simp only [data, weight_held_push, List.length_drop, List.length_take] at ih
      rw [pushFragments_ok hread]
      omega

theorem size_push (fb : FragmentBuffer) (buf : List UInt8) :
    (fb.push buf).1.size ≤ fb.size + buf.length ∧
      (fb.size < fragmentBufferMaxSize → (fb.push buf).1.size < fragmentBufferMaxSize) := by
  rw [push]
  split
  · exact ⟨Nat.le_add_right .., id⟩
  · next hroom =>
      split
      · exact ⟨Nat.le_add_right .., id⟩
      · next h _ _ =>
          split
          · exact ⟨Nat.le_add_right .., id⟩
          · have hle := weight_pushFragments h fb.cache (buf.drop recordLayerHeaderSize)
            rw [List.length_drop] at hle
            simp only [size_eq] at hroom ⊢
            exact ⟨by omega, fun _ => by omega⟩

theorem size_pop (fb : FragmentBuffer) : fb.pop.1.size ≤ fb.size := by
  cases h : fb.pop with
  | mk fb' r =>
      cases r with
      | error e => rw [pop_eq_error h]
      | ok out =>
          obtain ⟨first, rest, _, hlookup, _, rfl, _⟩ := pop_eq_ok h
          have herase := weight_erase (w := fun _ => held) hlookup
          rw [size_eq, size_eq, herase]
          exact Nat.le_add_left ..

/-! ## Runs -/

/-- What can happen to a buffer. -/
inductive Op
  | push (buf : List UInt8)
  | pop

def machine : Machine FragmentBuffer Op where
  step fb
    | .push buf => some (fb.push buf).1
    | .pop => some fb.pop.1

/-- **The buffer is bounded**: whatever is pushed and popped, in any order, it holds less
than its limit. -/
theorem size_lt_of_run {ops : List Op} {fb : FragmentBuffer} (h : machine.Run new ops fb) :
    fb.size < fragmentBufferMaxSize := by
  refine h.invariant (I := fun fb => fb.size < fragmentBufferMaxSize) (by decide) ?_
  rintro fb (buf | _) fb' hlt hstep
  · obtain rfl := Option.some.inj hstep
    exact (size_push fb buf).2 hlt
  · obtain rfl := Option.some.inj hstep
    exact lt_of_le_of_lt (size_pop fb) hlt

/-- Two bytes of a message of three, which `pop` does not give out. -/
theorem size_lt_of_run_waiting : ∃ fb,
    machine.Run new [.push [22, 0xfe, 0xfd, 0, 0, 0, 0, 0, 0, 0, 0, 0, 14,
      20, 0, 0, 3, 0, 0, 0, 0, 0, 0, 0, 2, 7, 8], .pop] fb ∧
      fb.size = 2 ∧ fb.size < fragmentBufferMaxSize := by
  obtain ⟨fb, hrun, hsize⟩ := machine.exists_run new
    [.push [22, 0xfe, 0xfd, 0, 0, 0, 0, 0, 0, 0, 0, 0, 14,
      20, 0, 0, 3, 0, 0, 0, 0, 0, 0, 0, 2, 7, 8], .pop]
    (fun fb => fb.size = 2) (by decide +kernel)
  exact ⟨fb, hrun, by simpa using hsize, size_lt_of_run hrun⟩

/-! ## Late fragments -/

/-- What is held for messages that are already out. -/
def late (fb : FragmentBuffer) : Nat :=
  weight (fun seq frags => if seq < fb.currentMessageSequenceNumber then held frags else 0) fb.cache

theorem late_le_size (fb : FragmentBuffer) : fb.late ≤ fb.size := by
  rw [late, size_eq]
  refine weight_mono fun seq frags => ?_
  split
  · exact Nat.le_refl _
  · exact Nat.zero_le _

theorem late_pushFragments (c : UInt16) (h : RecordLayerHeader) (cache : FragmentCache)
    (buf : List UInt8) :
    weight (fun seq frags => if seq < c then held frags else 0) cache ≤
      weight (fun seq frags => if seq < c then held frags else 0) (pushFragments h cache buf).1 := by
  induction cache, buf using pushFragments.induct (h := h) with
  | case1 cache => rw [pushFragments_nil]
  | case2 cache buf hne e hread => rw [pushFragments_error hne hread]
  | case3 cache buf hne hs tail hread data ih =>
      rw [pushFragments_ok hread]
      refine Nat.le_trans ?_ ih
      have hpush := weight_push cache ⟨h, hs, data⟩
        (w := fun seq frags => if seq < c then held frags else 0) fun seq => by simp [held]
      split at hpush
      · rw [held_append] at hpush
        omega
      · omega

/-- A push takes no late fragments away. -/
theorem late_push (fb : FragmentBuffer) (buf : List UInt8) :
    fb.late ≤ (fb.push buf).1.late ∧
      (fb.push buf).1.currentMessageSequenceNumber = fb.currentMessageSequenceNumber := by
  rw [push]
  split
  · exact ⟨Nat.le_refl _, rfl⟩
  · split
    · exact ⟨Nat.le_refl _, rfl⟩
    · split
      · exact ⟨Nat.le_refl _, rfl⟩
      · exact ⟨late_pushFragments .., rfl⟩

/-- A pop forgets the current message, which is not a late one; the counter moves on by one at
most, unless it starts again. -/
theorem late_pop (fb : FragmentBuffer) (hwrap : fb.currentMessageSequenceNumber.toNat < 65535) :
    fb.late ≤ fb.pop.1.late ∧ fb.pop.1.currentMessageSequenceNumber.toNat ≤
      fb.currentMessageSequenceNumber.toNat + 1 := by
  cases h : fb.pop with
  | mk fb' r =>
      cases r with
      | error e =>
          rw [pop_eq_error h]
          exact ⟨Nat.le_refl _, Nat.le_add_right ..⟩
      | ok out =>
          obtain ⟨first, rest, _, hlookup, _, rfl, _⟩ := pop_eq_ok h
          have hnext : (fb.currentMessageSequenceNumber + 1).toNat =
              fb.currentMessageSequenceNumber.toNat + 1 := by
            rw [UInt16.toNat_add]
            simp
            omega
          refine ⟨?_, hnext.le⟩
          rw [late, weight_erase hlookup, if_neg (UInt16.lt_irrefl _), Nat.zero_add, late]
          refine weight_mono fun seq frags => ?_
          by_cases hlt : seq < fb.currentMessageSequenceNumber
          · have hlt' : seq < fb.currentMessageSequenceNumber + 1 := by
              rw [UInt16.lt_iff_toNat_lt] at hlt ⊢
              omega
            rw [if_pos hlt, if_pos hlt']
          · rw [if_neg hlt]
            exact Nat.zero_le _

/-- How often a run pops. -/
def pops (ops : List Op) : Nat := (ops.filter fun | .push _ => false | .pop => true).length

theorem late_of_run {fb fb' : FragmentBuffer} {ops : List Op} (h : machine.Run fb ops fb')
    (hwrap : fb.currentMessageSequenceNumber.toNat + pops ops < 65536) :
    fb.late ≤ fb'.late := by
  suffices hgen : fb.late ≤ fb'.late ∧ fb'.currentMessageSequenceNumber.toNat ≤
      fb.currentMessageSequenceNumber.toNat + pops ops from hgen.1
  refine h.rec_snoc (P := fun ops fb' =>
    fb.currentMessageSequenceNumber.toNat + pops ops < 65536 → fb.late ≤ fb'.late ∧
      fb'.currentMessageSequenceNumber.toNat ≤
        fb.currentMessageSequenceNumber.toNat + pops ops) ?_ ?_ hwrap
  · exact fun _ => ⟨Nat.le_refl _, Nat.le_add_right ..⟩
  · rintro ops (buf | _) s s' _ ih hstep hwrap
    · obtain rfl := Option.some.inj hstep
      have hpops : pops (ops ++ [.push buf]) = pops ops := by simp [pops]
      rw [hpops] at hwrap ⊢
      obtain ⟨hlate, hcur⟩ := ih hwrap
      have hpush := late_push s buf
      exact ⟨hlate.trans hpush.1, hpush.2 ▸ hcur⟩
    · obtain rfl := Option.some.inj hstep
      have hpops : pops (ops ++ [.pop]) = pops ops + 1 := by simp [pops]
      rw [hpops] at hwrap ⊢
      obtain ⟨hlate, hcur⟩ := ih (by omega)
      have hpop := late_pop s (by omega)
      exact ⟨hlate.trans hpop.1, by omega⟩

/-- **Late fragments stay for good**: once what came late and a packet together reach the
limit, the buffer refuses every packet of this length or longer from then on, of whatever
content type. -/
theorem refused_of_late {fb fb' : FragmentBuffer} {ops : List Op} {buf : List UInt8}
    (hrun : machine.Run fb ops fb')
    (hwrap : fb.currentMessageSequenceNumber.toNat + pops ops < 65536)
    (hfull : fragmentBufferMaxSize ≤ fb.late + buf.length) :
    fb'.push buf = (fb', .error (.err
      (.fragmentBufferOverflow (fb'.size + buf.length) fragmentBufferMaxSize))) := by
  have hlate := (late_of_run hrun hwrap).trans fb'.late_le_size
  rw [push, if_pos (by omega)]

/-- A buffer with thirty late fragments of 65000 bytes. -/
def overfull : FragmentBuffer :=
  ⟨AList.singleton 0 (List.replicate 30 ⟨⟨.handshake, protocolVersion12, 0, 1, 65012⟩,
    ⟨.finished, 65000, 0, 0, 65000⟩, List.replicate 65000 0⟩), 1⟩

theorem refused_of_late_overfull : overfull.push (List.replicate 60000 0) =
    (overfull, .error (.err (.fragmentBufferOverflow
      (overfull.size + (List.replicate 60000 (0 : UInt8)).length) fragmentBufferMaxSize))) := by
  have hlate : overfull.late = 1950000 := by
    rw [late, overfull, weight_singleton, if_pos (by decide)]
    simp [held, -List.reduceReplicate]
  -- the message that is next is not there
  have hrun : machine.Run overfull [.pop] overfull := rfl
  exact refused_of_late hrun (by decide) (by rw [hlate, List.length_replicate]; decide)

end FragmentBuffer

end RemoteBridge.Dtls
