import Mathlib.Algebra.BigOperators.Group.List.Basic
import Mathlib.Algebra.Ring.Int.Defs

/-!
# JsInteger

Numbers of JavaScript that are integers: the bit operations, which take 32 bits of
a number and give a signed result (`>>>` an unsigned one), and sums, which are
exact as long as they stay within `2 ^ 53`.

What a number is to a bit operation is `bits`; the lemmas say how each operation
changes it, so that arithmetic modulo `2 ^ 32` can be read off.
-/

namespace JsInteger

/-! ## Bit operations -/

/-- The 32 bits of a number that a bit operation or a store into a `Uint32Array`
takes. -/
def bits (x : ℤ) : BitVec 32 := BitVec.ofInt 32 x

/-- `x & y`. -/
def and (x y : ℤ) : ℤ := (bits x &&& bits y).toInt

/-- `x | y`. -/
def or (x y : ℤ) : ℤ := (bits x ||| bits y).toInt

/-- `x ^ y`. -/
def xor (x y : ℤ) : ℤ := (bits x ^^^ bits y).toInt

/-- `~x`. -/
def not (x : ℤ) : ℤ := (~~~bits x).toInt

/-- `x << n`. -/
def shiftLeft (x : ℤ) (n : ℕ) : ℤ := (bits x <<< (n % 32)).toInt

/-- `x >>> n`. -/
def shiftRight (x : ℤ) (n : ℕ) : ℤ := (bits x >>> (n % 32)).toNat

section

variable {x y : ℤ} {n : ℕ} {b : BitVec 32}

@[simp] theorem bits_toInt : bits b.toInt = b := BitVec.ofInt_toInt

@[simp] theorem bits_toNat : bits b.toNat = b := by
  rw [bits, BitVec.ofInt_natCast, BitVec.ofNat_toNat, BitVec.setWidth_eq]

@[simp] theorem bits_and : bits (and x y) = bits x &&& bits y := bits_toInt

@[simp] theorem bits_or : bits (or x y) = bits x ||| bits y := bits_toInt

@[simp] theorem bits_xor : bits (xor x y) = bits x ^^^ bits y := bits_toInt

@[simp] theorem bits_not : bits (not x) = ~~~bits x := bits_toInt

theorem bits_shiftLeft : bits (shiftLeft x n) = bits x <<< (n % 32) := bits_toInt

theorem bits_shiftRight : bits (shiftRight x n) = bits x >>> (n % 32) := bits_toNat

@[simp] theorem bits_add : bits (x + y) = bits x + bits y := BitVec.ofInt_add x y

/-- `x >>> 0` is the unsigned number with the bits of `x`. -/
theorem shiftRight_zero : shiftRight x 0 = (bits x).toNat := rfl

/-! ## Sizes -/

/-- At most `k` times what one word can hold, signed or unsigned. -/
def Within (k : ℕ) (x : ℤ) : Prop := x.natAbs ≤ k * 2 ^ 32

theorem within_toNat : Within 1 b.toNat := by
  have hlt := b.isLt
  rw [Within]
  omega

theorem within_toInt : Within 1 b.toInt := by
  have hle := b.le_toInt
  have hlt := b.toInt_lt
  rw [Within]
  omega

theorem within_xor : Within 1 (xor x y) := within_toInt

end

/-! ## Sums -/

/-- An integer that a number is sure to hold exactly, `none` for others. -/
def exact (x : ℤ) : Option ℤ := if x.natAbs ≤ 2 ^ 53 then some x else none

/-- `x + y + …`, from left to right. -/
def sum (x : ℤ) (ys : List ℤ) : Option ℤ := ys.foldlM (fun x y => exact (x + y)) x

variable {x : ℤ} {ys : List ℤ} {k m : ℕ}

theorem within_sum (hx : Within k x) (hys : ∀ y ∈ ys, Within m y) :
    Within (k + m * ys.length) (x + ys.sum) := by
  induction ys generalizing x k with
  | nil => simpa using hx
  | cons y ys ih =>
      have hy := hys y List.mem_cons_self
      have hxy : Within (k + m) (x + y) := by
        simp only [Within] at hx hy ⊢
        omega
      have hrest := ih hxy fun y hy => hys y (List.mem_cons_of_mem _ hy)
      rwa [List.sum_cons, ← add_assoc, List.length_cons, Nat.mul_add, Nat.mul_one,
        Nat.add_comm (m * ys.length), ← Nat.add_assoc]

/-- A sum of a few words, read as numbers of either sign, is exact. -/
theorem sum_eq_some (hx : Within k x) (hys : ∀ y ∈ ys, Within m y)
    (hle : k + m * ys.length ≤ 2 ^ 21) : sum x ys = some (x + ys.sum) := by
  induction ys generalizing x k with
  | nil => simp [sum]
  | cons y ys ih =>
      have hy := hys y List.mem_cons_self
      have hxy : Within (k + m) (x + y) := by
        simp only [Within] at hx hy ⊢
        omega
      rw [List.length_cons, Nat.mul_add, Nat.mul_one] at hle
      have hexact : exact (x + y) = some (x + y) := by
        rw [Within] at hxy
        exact if_pos (by omega)
      rw [List.sum_cons, ← add_assoc, ← ih hxy (fun y hy => hys y (List.mem_cons_of_mem _ hy))
        (by omega), sum, List.foldlM_cons, hexact]
      rfl

end JsInteger
