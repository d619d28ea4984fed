import Mathlib.Data.Nat.Bitwise
import Mathlib.Tactic.Ring

/-!
# Bytes

Numbers in big-endian bytes, and the bits of a byte string in reading order.
-/

namespace Bytes

/-- The number a list of bytes stands for, most significant byte first. -/
def bigEndian : List UInt8 → Nat
  | [] => 0
  | b :: bs => 2 ^ (8 * bs.length) * b.toNat + bigEndian bs

/-- The `n` bytes of a number, most significant first. -/
def toBigEndian : (n : Nat) → Nat → List UInt8
  | 0, _ => []
  | n + 1, v => UInt8.ofNat (v / 256 ^ n) :: toBigEndian n v

/-- The bits of a byte, most significant first. -/
def bitsOf (b : UInt8) : List Bool := (List.range 8).map fun i => b.toNat.testBit (7 - i)

/-- The first `n` bits of a byte string. -/
def firstBits (n : Nat) (bytes : List UInt8) : List Bool := (bytes.flatMap bitsOf).take n

@[simp] theorem length_toBigEndian (n v : Nat) : (toBigEndian n v).length = n := by
  induction n with
  | zero => rfl
  | succ n ih => simp [toBigEndian, ih]

/-- The upper bytes and the lower ones. -/
theorem toBigEndian_add (n m v : Nat) :
    toBigEndian (n + m) v = toBigEndian n (v / 256 ^ m) ++ toBigEndian m v := by
  induction n with
  | zero => rw [Nat.zero_add, toBigEndian, List.nil_append]
  | succ n ih =>
      rw [Nat.add_right_comm, toBigEndian, ih, toBigEndian, List.cons_append,
        Nat.div_div_eq_div_mul, ← Nat.pow_add, Nat.add_comm m n]

/-- Bytes see nothing of what is above them. -/
theorem toBigEndian_mod {n m : Nat} (h : n ≤ m) (v : Nat) :
    toBigEndian n (v % 256 ^ m) = toBigEndian n v := by
  induction n with
  | zero => rfl
  | succ n ih =>
      have hpow : 256 ^ m = 256 ^ n * 256 ^ (m - n) := by
        rw [← Nat.pow_add, Nat.add_sub_cancel' (by omega)]
      have hdvd : 256 ∣ 256 ^ (m - n) := dvd_pow_self 256 (by omega)
      have hbyte : UInt8.ofNat (v % 256 ^ m / 256 ^ n) = UInt8.ofNat (v / 256 ^ n) := by
        rw [← UInt8.toNat_inj, UInt8.toNat_ofNat', UInt8.toNat_ofNat', hpow,
          Nat.mod_mul_right_div_self, Nat.mod_mod_of_dvd _ hdvd]
      rw [toBigEndian, hbyte, ih (by omega), toBigEndian]

theorem bigEndian_lt (bs : List UInt8) : bigEndian bs < 2 ^ (8 * bs.length) := by
  induction bs with
  | nil => simp [bigEndian]
  | cons b bs ih =>
      have hb : b.toNat < 256 := b.toNat_lt
      calc bigEndian (b :: bs) < 2 ^ (8 * bs.length) * b.toNat + 2 ^ (8 * bs.length) :=
            Nat.add_lt_add_left ih _
        _ = 2 ^ (8 * bs.length) * (b.toNat + 1) := by ring
        _ ≤ 2 ^ (8 * bs.length) * 256 := Nat.mul_le_mul_left _ hb
        _ = 2 ^ (8 * (b :: bs).length) := by rw [List.length_cons, Nat.mul_add 8, pow_add]; rfl

/-- Reading bytes one by one, shifting what was read so far: this computes
`bigEndian`. -/
theorem foldl_shiftLeft_or (bs : List UInt8) (acc : Nat) :
    bs.foldl (fun acc b => (acc <<< 8) ||| b.toNat) acc =
      2 ^ (8 * bs.length) * acc + bigEndian bs := by
  induction bs generalizing acc with
  | nil => simp [bigEndian]
  | cons b bs ih =>
      have hb : b.toNat < 2 ^ 8 := b.toNat_lt
      rw [List.foldl_cons, ih, ← Nat.shiftLeft_add_eq_or_of_lt hb, Nat.shiftLeft_eq, bigEndian,
        List.length_cons, Nat.mul_add 8, pow_add]
      ring

/-- The bits of a byte string are those of the number it stands for. -/
theorem flatMap_bitsOf (bs : List UInt8) :
    bs.flatMap bitsOf =
      (List.range (8 * bs.length)).map fun i => (bigEndian bs).testBit (8 * bs.length - 1 - i) := by
  induction bs with
  | nil => rfl
  | cons b bs ih =>
      have hlen : 8 * (b :: bs).length = 8 + 8 * bs.length := by
        rw [List.length_cons]; omega
      rw [List.flatMap_cons, hlen, List.range_add, List.map_append, ih]
      congr 1
      · refine List.map_congr_left fun i hi => ?_
        have hi : i < 8 := List.mem_range.mp hi
        rw [bigEndian, Nat.testBit_two_pow_mul_add _ (bigEndian_lt bs), if_neg (by omega)]
        congr 1
        omega
      · rw [List.map_map]
        refine List.map_congr_left fun i hi => ?_
        have hi : i < 8 * bs.length := List.mem_range.mp hi
        rw [Function.comp_apply, bigEndian, Nat.testBit_two_pow_mul_add _ (bigEndian_lt bs),
          if_pos (by omega)]
        congr 1
        omega

/-- The bits of a byte string up to the end of a whole number of bytes depend on
these bytes only. -/
theorem firstBits_take {n m : Nat} {bytes : List UInt8} (h : n ≤ 8 * m) :
    firstBits n bytes = firstBits n (bytes.take m) := by
  induction bytes generalizing n m with
  | nil => simp
  | cons b bytes ih =>
      cases m with
      | zero => simp [firstBits, Nat.le_zero.mp h]
      | succ m =>
          have hlen : (bitsOf b).length = 8 := by simp [bitsOf]
          simp only [firstBits] at ih
          simp only [firstBits, List.take_succ_cons, List.flatMap_cons, List.take_append, hlen]
          rw [ih (n := n - 8) (m := m) (by omega)]

/-- Numbers that agree above bit `k` have byte strings with the same first bits. -/
theorem firstBits_eq_of_shiftRight_eq {k : Nat} {bs bs' : List UInt8}
    (hlen : bs.length = bs'.length) (h : bigEndian bs >>> k = bigEndian bs' >>> k) :
    firstBits (8 * bs.length - k) bs = firstBits (8 * bs.length - k) bs' := by
  rw [firstBits, firstBits, flatMap_bitsOf, flatMap_bitsOf, ← hlen, ← List.map_take,
    ← List.map_take, List.take_range]
  refine List.map_congr_left fun i hi => ?_
  have hi : i < 8 * bs.length - k := by have := List.mem_range.mp hi; omega
  have hbit := congrArg (fun v => v.testBit (8 * bs.length - 1 - i - k)) h
  simpa only [Nat.testBit_shiftRight, show k + (8 * bs.length - 1 - i - k) =
    8 * bs.length - 1 - i by omega] using hbit

/-- Two numbers below `2 ^ (w * n)` with the same `n` groups of `w` bits are
equal. -/
theorem eq_of_groups_eq {w n u v : Nat} (hw : 0 < w) (hu : u < 2 ^ (w * n)) (hv : v < 2 ^ (w * n))
    (h : ∀ i < n, u >>> (w * i) % 2 ^ w = v >>> (w * i) % 2 ^ w) : u = v := by
  refine Nat.eq_of_testBit_eq fun j => ?_
  by_cases hj : j < w * n
  · have hi : j / w < n := Nat.div_lt_of_lt_mul hj
    have hbit := congrArg (fun x => x.testBit (j % w)) (h (j / w) hi)
    simpa only [Nat.testBit_mod_two_pow, Nat.mod_lt j hw, decide_true, Bool.true_and,
      Nat.testBit_shiftRight, Nat.div_add_mod] using hbit
  · have hle : 2 ^ (w * n) ≤ 2 ^ j := Nat.pow_le_pow_right (by omega) (by omega)
    rw [Nat.testBit_lt_two_pow (by omega), Nat.testBit_lt_two_pow (by omega)]

end Bytes
