import Mathlib.Data.Int.Log
import RemoteBridge.Double.Exact

/-!
# Binary64

Double-precision numbers: the finite ones as the rationals they hold, with rounding to
nearest, overflow, infinities and NaN.

A zero has no sign here; dividing by it is dividing by the positive one.
-/

/-- The rationals that a double holds: those with a significand of 53 bits, below the
range's end. -/
def Binary64.Representable (q : ℚ) : Prop :=
  |q| < 2 ^ 1024 ∧ ∃ m e : ℤ, |m| < 2 ^ 53 ∧ -1074 ≤ e ∧ q = m * 2 ^ e

inductive Binary64 where
  | nan
  | infinite (negative : Bool)
  | finite (value : ℚ) (representable : Binary64.Representable value)
deriving DecidableEq

namespace Binary64

variable {q x : ℚ} {m n e : ℤ}

/-! ## Rounding -/

/-- To the nearest integer, halves to the even one. -/
def roundEven (x : ℚ) : ℤ :=
  if Int.fract x < 1 / 2 ∨ Int.fract x = 1 / 2 ∧ ⌊x⌋ % 2 = 0 then ⌊x⌋ else ⌊x⌋ + 1

/-- The exponent of the last bit that a double near `q` holds. -/
def exponent (q : ℚ) : ℤ := max (Int.log 2 |q| - 52) (-1074)

theorem exponent_ge (q : ℚ) : -1074 ≤ exponent q := le_max_right _ _

theorem roundEven_intCast : roundEven n = n := by simp [roundEven]

theorem abs_roundEven_le (h : |x| < n) : |roundEven x| ≤ n := by
  obtain ⟨hlo, hhi⟩ := abs_lt.mp h
  have hfloor : -n ≤ ⌊x⌋ := Int.le_floor.mpr (by push_cast; exact hlo.le)
  have hceil : ⌊x⌋ < n := Int.floor_lt.mpr hhi
  rw [abs_le, roundEven]
  split <;> omega

theorem Representable.neg (h : Representable q) : Representable (-q) := by
  obtain ⟨hq, m, e, hm, he, rfl⟩ := h
  exact ⟨(abs_neg _).trans_lt hq, -m, e, (abs_neg m).trans_lt hm, he, by push_cast; ring⟩

/-- A significand of 2⁵³ is one of 2⁵², at the next exponent. -/
theorem Representable.of_le (hm : |m| ≤ 2 ^ 53) (he : -1074 ≤ e)
    (hq : |(m : ℚ) * 2 ^ e| < 2 ^ 1024) : Representable (m * 2 ^ e) := by
  refine ⟨hq, ?_⟩
  by_cases hlt : |m| < 2 ^ 53
  · exact ⟨m, e, hlt, he, rfl⟩
  · obtain ⟨k, rfl⟩ : (2 : ℤ) ∣ m := by
      have heq : |m| = 2 ^ 53 := by omega
      exact (dvd_abs _ _).mp (heq ▸ dvd_pow_self 2 (by decide))
    refine ⟨k, e + 1, ?_, by omega, ?_⟩
    · rw [abs_mul, show |(2 : ℤ)| = 2 from rfl] at hm
      omega
    · rw [zpow_add_one₀ two_ne_zero]
      push_cast
      ring

theorem abs_div_exponent_lt (q : ℚ) : |q / 2 ^ exponent q| < ((2 ^ 53 : ℤ) : ℚ) := by
  have hpos : (0 : ℚ) < 2 ^ exponent q := zpow_pos two_pos _
  have hexponent : Int.log 2 |q| + 1 ≤ 53 + exponent q := by
    rw [exponent]
    omega
  rw [abs_div, abs_of_pos hpos, div_lt_iff₀ hpos]
  calc
    |q| < 2 ^ (Int.log 2 |q| + 1) := by exact_mod_cast Int.lt_zpow_succ_log_self one_lt_two |q|
    _ ≤ 2 ^ (53 + exponent q) := zpow_le_zpow_right₀ one_le_two hexponent
    _ = ((2 ^ 53 : ℤ) : ℚ) * 2 ^ exponent q := by
      rw [zpow_add₀ two_ne_zero]
      norm_num

/-- The double nearest to a rational, ties to even, with overflow. -/
def nearest (q : ℚ) : Binary64 :=
  if h : |(roundEven (q / 2 ^ exponent q) : ℚ) * 2 ^ exponent q| < 2 ^ 1024 then
    .finite _ (.of_le (abs_roundEven_le (abs_div_exponent_lt q)) (exponent_ge q) h)
  else .infinite (q < 0)

/-- A number that a double holds is not rounded. -/
theorem nearest_of_representable (h : Representable q) : nearest q = .finite q h := by
  obtain ⟨hq, m, e, hm, he, heq⟩ := id h
  have hexponent : q ≠ 0 → exponent q ≤ e := by
    intro hne
    have hlog : Int.log 2 |q| < 53 + e := by
      rw [← Int.lt_zpow_iff_log_lt one_lt_two (abs_pos.mpr hne), heq, abs_mul,
        abs_of_pos (zpow_pos (two_pos : (0 : ℚ) < 2) e), Nat.cast_ofNat, zpow_add₀ two_ne_zero]
      have hm' : |(m : ℚ)| < 2 ^ (53 : ℤ) := by exact_mod_cast hm
      exact mul_lt_mul_of_pos_right hm' (zpow_pos two_pos e)
    rw [exponent]
    omega
  have hvalue : (roundEven (q / 2 ^ exponent q) : ℚ) * 2 ^ exponent q = q := by
    by_cases hne : q = 0
    · have hzero : roundEven 0 = 0 := by exact_mod_cast roundEven_intCast (n := 0)
      rw [hne, zero_div, hzero, Int.cast_zero, zero_mul]
    · obtain ⟨k, hk⟩ := Int.eq_ofNat_of_zero_le (sub_nonneg.mpr (hexponent hne))
      have hint : q / 2 ^ exponent q = ((m * 2 ^ k : ℤ) : ℚ) := by
        rw [div_eq_iff (zpow_pos two_pos _).ne']
        nth_rewrite 1 [heq]
        rw [show e = (k : ℤ) + exponent q by omega, zpow_add₀ two_ne_zero, zpow_natCast]
        push_cast
        ring
      rw [hint, roundEven_intCast, ← hint, div_mul_cancel₀ q (zpow_pos two_pos _).ne']
  rw [nearest, dif_pos (by rwa [hvalue])]
  exact (finite.injEq ..).mpr hvalue

/-! ## Integers -/

/-- Integers of up to 53 bits are held exactly. -/
theorem representable_intCast (h : |n| ≤ 2 ^ 53) : Representable n := by
  have hcast : |(n : ℚ)| ≤ 2 ^ 53 := by exact_mod_cast h
  have hof := Representable.of_le (e := 0) h (by norm_num)
    (by rw [zpow_zero, mul_one]; exact hcast.trans_lt (pow_lt_pow_right₀ one_lt_two (by decide)))
  rwa [zpow_zero, mul_one] at hof

/-- From 2⁵² on a double holds integers only. -/
theorem Representable.eq_intCast (h : Representable q) (hq : 2 ^ 52 ≤ |q|) : ∃ n : ℤ, q = n := by
  obtain ⟨-, m, e, hm, -, rfl⟩ := h
  have he : 0 ≤ e := by
    by_contra he
    have hm' : |(m : ℚ)| < 2 ^ 53 := by exact_mod_cast hm
    have hpow : (2 : ℚ) ^ e ≤ 2 ^ (-1 : ℤ) := zpow_le_zpow_right₀ one_le_two (by omega)
    rw [abs_mul, abs_of_pos (zpow_pos (two_pos : (0 : ℚ) < 2) e)] at hq
    have hlt := mul_lt_mul_of_pos_right hm' (zpow_pos (two_pos : (0 : ℚ) < 2) e)
    have hle := mul_le_mul_of_nonneg_left hpow (by norm_num : (0 : ℚ) ≤ 2 ^ 53)
    norm_num at hle
    linarith
  obtain ⟨k, rfl⟩ := Int.eq_ofNat_of_zero_le he
  exact ⟨m * 2 ^ k, by push_cast; rfl⟩

/-- A rounding of a double to an integer is held exactly. -/
theorem Representable.toInt {f : ℚ → ℤ} (hint : ∀ n : ℤ, f n = n) (hnear : ∀ x, |f x - x| ≤ 1)
    (h : Representable q) : Representable (f q) := by
  by_cases hq : 2 ^ 52 ≤ |q|
  · obtain ⟨n, rfl⟩ := h.eq_intCast hq
    rwa [hint]
  · have hle : |(f q : ℚ)| ≤ 2 ^ 53 := by
      have htriangle := abs_add_le (f q - q) q
      rw [sub_add_cancel] at htriangle
      have := hnear q
      rw [not_le] at hq
      linarith
    exact representable_intCast (by exact_mod_cast hle)

theorem Representable.trunc (h : Representable q) : Representable (Exact.trunc q) := by
  refine h.toInt (fun n => Exact.trunc_intCast) fun x => ?_
  obtain ⟨hlo, hhi⟩ := Exact.sub_trunc_mem (x := x)
  rw [abs_le]
  constructor <;> linarith

theorem Representable.roundAway (h : Representable q) : Representable (Exact.roundAway q) := by
  refine h.toInt (fun n => Exact.roundAway_intCast) fun x => ?_
  rw [abs_sub_comm]
  have hnear := abs_sub_round x
  have hnear' := abs_sub_round (-x)
  unfold Exact.roundAway
  split
  · linarith
  · rw [Int.cast_neg, sub_neg_eq_add, ← abs_neg, neg_add, ← sub_eq_add_neg]
    linarith

/-! ## Operations -/

def ofInt (n : ℤ) : Binary64 := nearest n

def neg : Binary64 → Binary64
  | .nan => .nan
  | .infinite negative => .infinite !negative
  | .finite x h => .finite (-x) h.neg

def add : Binary64 → Binary64 → Binary64
  | .nan, _ | _, .nan => .nan
  | .infinite s, .infinite t => if s = t then .infinite s else .nan
  | .infinite s, .finite _ _ | .finite _ _, .infinite s => .infinite s
  | .finite x _, .finite y _ => nearest (x + y)

def sub (x y : Binary64) : Binary64 := x.add y.neg

def mul : Binary64 → Binary64 → Binary64
  | .nan, _ | _, .nan => .nan
  | .infinite s, .infinite t => .infinite (s != t)
  | .infinite s, .finite x _ | .finite x _, .infinite s =>
      if x = 0 then .nan else .infinite (s != decide (x < 0))
  | .finite x _, .finite y _ => nearest (x * y)

def div : Binary64 → Binary64 → Binary64
  | .nan, _ | _, .nan => .nan
  | .infinite _, .infinite _ => .nan
  | .infinite s, .finite y _ => .infinite (s != decide (y < 0))
  | .finite _ _, .infinite _ => nearest 0
  | .finite x _, .finite y _ =>
      if y = 0 then if x = 0 then .nan else .infinite (x < 0) else nearest (x / y)

/-- `Number.isFinite`. -/
def isFinite : Binary64 → Bool
  | .finite _ _ => true
  | _ => false

/-- `<`, false when a side is NaN. -/
def lt : Binary64 → Binary64 → Bool
  | .nan, _ | _, .nan => false
  | .infinite s, .infinite t => s && !t
  | .infinite s, .finite _ _ => s
  | .finite _ _, .infinite t => !t
  | .finite x _, .finite y _ => x < y

/-- `Math.min`. -/
def min : Binary64 → Binary64 → Binary64
  | .nan, _ | _, .nan => .nan
  | x, y => if y.lt x then y else x

/-- `Math.max`. -/
def max : Binary64 → Binary64 → Binary64
  | .nan, _ | _, .nan => .nan
  | x, y => if x.lt y then y else x

/-- `f64::min`: a NaN gives way to the other side. -/
def f64Min : Binary64 → Binary64 → Binary64
  | .nan, y => y
  | x, .nan => x
  | x, y => if y.lt x then y else x

def clamp (x lo hi : Binary64) : Binary64 := if x.lt lo then lo else if hi.lt x then hi else x

/-- Towards zero. -/
def trunc : Binary64 → Binary64
  | .finite x h => .finite (Exact.trunc x) h.trunc
  | x => x

/-- To the nearest integer, halves away from zero. -/
def roundAway : Binary64 → Binary64
  | .finite x h => .finite (Exact.roundAway x) h.roundAway
  | x => x

/-- The conversion `as i32`: it saturates, and NaN becomes 0. -/
def toInt32 : Binary64 → Int32
  | .nan => 0
  | .infinite negative => Int32.ofInt (if negative then -2 ^ 31 else 2 ^ 31 - 1)
  | .finite x _ => Exact.saturate (Exact.trunc x)

/-! ## Arithmetic of the page and of the host -/

/-- The numbers of JavaScript.  How `Math.hypot` rounds is left to the implementation. -/
@[reducible] def number (hypot : Binary64 → Binary64 → Binary64) : Number Binary64 where
  add := add
  sub := sub
  mul := mul
  div := div
  neg := neg
  ofInt := ofInt
  lt := lt
  min := min
  max := max
  hypot := hypot
  trunc := trunc
  round := roundAway
  clamp := clamp
  toInt32 := toInt32

/-- The `f64` of Rust. -/
@[reducible] def f64 (hypot : Binary64 → Binary64 → Binary64) : Double Binary64 :=
  { (number hypot).toDouble with min := f64Min }

/-! ## What the operations give -/

theorem ofInt_eq (h : |n| ≤ 2 ^ 53) : ofInt n = .finite n (representable_intCast h) :=
  nearest_of_representable _

theorem ofInt_zero_add (x : Binary64) : (ofInt 0).add x = x := by
  rw [ofInt_eq (by decide)]
  cases x with
  | nan | infinite => rfl
  | finite q h =>
      rw [add, Int.cast_zero, zero_add]
      exact nearest_of_representable h

theorem div_ofInt_one (x : Binary64) : x.div (ofInt 1) = x := by
  rw [ofInt_eq (by decide)]
  cases x with
  | nan => rfl
  | infinite negative =>
      have hnot : decide (((1 : ℤ) : ℚ) < 0) = false := by decide
      rw [div, hnot, Bool.bne_false]
  | finite q h =>
      rw [div, Int.cast_one, if_neg one_ne_zero, div_one]
      exact nearest_of_representable h

theorem nearest_ne_nan (q : ℚ) : nearest q ≠ .nan := by
  unfold nearest
  split <;> simp

end Binary64
