import Mathlib.Algebra.Order.Round
import Mathlib.Tactic.Linarith
import RemoteBridge.Double

/-!
# Exact arithmetic

The operations of a `Number` without rounding, over any ordered field whose
numbers have an integer part, with the facts about rounding to points that
everything on positions and distances rests on.
-/

namespace Exact

variable {K : Type} [Field K] [LinearOrder K] [FloorRing K] {x y lo hi : K} {n m : ℤ}

/-- Towards zero. -/
def trunc (x : K) : ℤ := if 0 ≤ x then ⌊x⌋ else ⌈x⌉

/-- To the nearest integer, halves away from zero. -/
def roundAway (x : K) : ℤ := if 0 ≤ x then round x else -round (-x)

/-- The nearest 32-bit integer. -/
def saturate (n : ℤ) : Int32 :=
  if n < -2 ^ 31 then Int32.ofInt (-2 ^ 31)
  else if 2 ^ 31 - 1 < n then Int32.ofInt (2 ^ 31 - 1)
  else Int32.ofInt n

def clamp (x lo hi : K) : K := if x < lo then lo else if hi < x then hi else x

end Exact

/-- Exact arithmetic; `hypot` is that of a movement along an axis. -/
@[reducible] def Number.exact (K : Type) [Field K] [LinearOrder K] [FloorRing K] : Number K where
  add := (· + ·)
  sub := (· - ·)
  mul := (· * ·)
  div := (· / ·)
  neg := (- ·)
  ofInt n := n
  lt x y := decide (x < y)
  min x y := if x ≤ y then x else y
  max x y := if x ≤ y then y else x
  hypot x y := |x| + |y|
  trunc x := Exact.trunc x
  round x := Exact.roundAway x
  clamp := Exact.clamp
  toInt32 x := Exact.saturate (Exact.trunc x)

namespace Exact

variable {K : Type} [Field K] [LinearOrder K] [FloorRing K] {x y lo hi : K} {n m : ℤ}

theorem lt_iff : (Number.exact K).lt x y ↔ x < y := decide_eq_true_iff

/-! ## Rounding -/

theorem roundAway_of_nonneg (hx : 0 ≤ x) : roundAway x = round x := if_pos hx

theorem roundAway_of_neg (hx : x < 0) : roundAway x = -round (-x) := if_neg (not_le.mpr hx)

section

variable [IsStrictOrderedRing K]

theorem round_le_round (h : x ≤ y) : round x ≤ round y := by
  rw [round_eq, round_eq]
  exact Int.floor_mono (add_le_add_left h _)

/-- Rounding keeps the order. -/
theorem roundAway_mono (h : x ≤ y) : roundAway x ≤ roundAway y := by
  by_cases hx : 0 ≤ x
  · rw [roundAway_of_nonneg hx, roundAway_of_nonneg (hx.trans h)]
    exact round_le_round h
  · rw [not_le] at hx
    rw [roundAway_of_neg hx]
    by_cases hy : 0 ≤ y
    · have hleft := round_le_round (neg_nonneg.mpr hx.le)
      have hright := round_le_round hy
      rw [round_zero] at hleft hright
      rw [roundAway_of_nonneg hy]
      omega
    · rw [not_le] at hy
      rw [roundAway_of_neg hy]
      exact neg_le_neg (round_le_round (neg_le_neg h))

/-- An integer is not rounded. -/
theorem roundAway_intCast : roundAway (n : K) = n := by
  unfold roundAway
  split
  · exact round_intCast n
  · rw [← Int.cast_neg, round_intCast, neg_neg]

/-- Between two integers it stays there. -/
theorem roundAway_mem (hn : (n : K) ≤ x) (hm : x ≤ m) : n ≤ roundAway x ∧ roundAway x ≤ m := by
  refine ⟨?_, ?_⟩
  · rw [← roundAway_intCast (K := K) (n := n)]
    exact roundAway_mono hn
  · rw [← roundAway_intCast (K := K) (n := m)]
    exact roundAway_mono hm

theorem trunc_intCast : trunc (n : K) = n := by
  unfold trunc
  split
  · exact Int.floor_intCast n
  · exact Int.ceil_intCast n

/-- A positive integer is above a number as soon as it is above its whole part. -/
theorem trunc_lt_iff (hn : 0 < n) : trunc x < n ↔ x < n := by
  unfold trunc
  split
  case isTrue hx => exact Int.floor_lt
  case isFalse hx =>
    have hn' : (0 : K) < n := by exact_mod_cast hn
    have hceil : ⌈x⌉ ≤ 0 := Int.ceil_le.mpr (by rw [Int.cast_zero]; exact (not_le.mp hx).le)
    exact iff_of_true (by omega) ((not_le.mp hx).trans hn')

/-- What is cut off is less than one. -/
theorem sub_trunc_mem : -1 < x - trunc x ∧ x - trunc x < 1 := by
  unfold trunc
  split
  · have hle := Int.floor_le x
    have hlt := Int.lt_floor_add_one x
    constructor <;> linarith
  · have hle := Int.le_ceil x
    have hlt := Int.ceil_lt_add_one x
    constructor <;> linarith

/-- The points that a position is rounded to. -/
theorem toInt32_round :
    (Number.exact K).toInt32 ((Number.exact K).round x) = saturate (roundAway x) :=
  congrArg saturate trunc_intCast

end

/-! ## Clamping -/

section

omit [Field K] [FloorRing K]

theorem clamp_of_mem (hlo : lo ≤ x) (hhi : x ≤ hi) : clamp x lo hi = x := by
  rw [clamp, if_neg (not_lt.mpr hlo), if_neg (not_lt.mpr hhi)]

theorem clamp_eq (h : lo ≤ hi) : clamp x lo hi = max lo (min x hi) := by
  unfold clamp
  split
  case isTrue hlo => rw [min_eq_left (hlo.le.trans h), max_eq_left hlo.le]
  case isFalse hlo =>
    rw [not_lt] at hlo
    split
    case isTrue hhi => rw [min_eq_right hhi.le, max_eq_right h]
    case isFalse hhi => rw [min_eq_left (not_lt.mp hhi), max_eq_right hlo]

theorem clamp_mem (h : lo ≤ hi) : lo ≤ clamp x lo hi ∧ clamp x lo hi ≤ hi := by
  rw [clamp_eq h]
  exact ⟨le_max_left _ _, max_le h (min_le_right _ _)⟩

/-- Clamping keeps the order. -/
theorem clamp_mono (h : lo ≤ hi) (hxy : x ≤ y) : clamp x lo hi ≤ clamp y lo hi := by
  rw [clamp_eq h, clamp_eq h]
  exact max_le_max_left _ (min_le_min_right _ hxy)

end

/-! ## 32-bit integers -/

theorem toInt_saturate_eq (n : ℤ) :
    (saturate n).toInt = max (-2 ^ 31) (min n (2 ^ 31 - 1)) := by
  unfold saturate
  split
  · rw [Int32.toInt_ofInt_of_le (by decide) (by decide)]
    omega
  · split
    · rw [Int32.toInt_ofInt_of_le (by decide) (by decide)]
      omega
    · rw [Int32.toInt_ofInt_of_le (by omega) (by omega)]
      omega

theorem toInt_saturate (hlo : -2 ^ 31 ≤ n) (hhi : n < 2 ^ 31) : (saturate n).toInt = n := by
  rw [toInt_saturate_eq]
  omega

theorem saturate_toInt (i : Int32) : saturate i.toInt = i := by
  rw [← Int32.toInt_inj]
  exact toInt_saturate i.le_toInt i.toInt_lt

end Exact

/-- Over the rationals it is the arithmetic of the runs on fixed inputs. -/
theorem Number.exact_rat : (Number.exact ℚ).toDouble = Double.exact := by
  have htrunc (x : ℚ) : ((Exact.trunc x : ℤ) : ℚ) = Double.exact.trunc x := apply_ite _ _ _ _
  have hround (x : ℚ) : ((Exact.roundAway x : ℤ) : ℚ) = Double.exact.round x := by
    by_cases hx : 0 ≤ x
    · rw [Exact.roundAway_of_nonneg hx, round_eq]
      exact (if_pos hx).symm
    · rw [Exact.roundAway_of_neg (not_le.mp hx), round_eq, ← Int.ceil_neg, neg_add, neg_neg,
        ← sub_eq_add_neg]
      exact (if_neg hx).symm
  calc
    (Number.exact ℚ).toDouble = { Double.exact with
        trunc := fun x => ((Exact.trunc x : ℤ) : ℚ)
        round := fun x => ((Exact.roundAway x : ℤ) : ℚ) } := rfl
    _ = Double.exact := by
      rw [funext htrunc, funext hround]
      rfl
