import Mathlib.Data.Rat.Floor

/-!
# Double

The operations on double-precision numbers that the page (`Number`) and the
host (`f64`) compute with.  No law is assumed of them: what is proved over a
`Double` holds of rounded arithmetic, NaN and infinities included.
-/

class Double (α : Type) extends Add α, Sub α, Mul α, Div α, Neg α where
  ofInt : Int → α
  /-- `<`, false when a side is NaN. -/
  lt : α → α → Bool
  min : α → α → α
  hypot : α → α → α
  /-- Towards zero. -/
  trunc : α → α
  /-- To the nearest integer, halves away from zero. -/
  round : α → α
  /-- `clamp x lo hi`. -/
  clamp : α → α → α → α
  /-- The conversion `as i32` of Rust, which saturates. -/
  toInt32 : α → Int32

/-- The page takes maxima too. -/
class Number (α : Type) extends Double α where
  max : α → α → α

/-- Exact arithmetic, for runs on fixed inputs: `hypot` is that of a movement
along an axis. -/
@[reducible] def Double.exact : Double ℚ where
  add := (· + ·)
  sub := (· - ·)
  mul := (· * ·)
  div := (· / ·)
  neg := (- ·)
  ofInt n := n
  lt x y := decide (x < y)
  min x y := if x ≤ y then x else y
  hypot x y := |x| + |y|
  trunc x := if 0 ≤ x then ⌊x⌋ else ⌈x⌉
  round x := if 0 ≤ x then ⌊x + 1 / 2⌋ else ⌈x - 1 / 2⌉
  clamp x lo hi := if x < lo then lo else if hi < x then hi else x
  toInt32 x :=
    let n := if 0 ≤ x then ⌊x⌋ else ⌈x⌉
    if n < -2 ^ 31 then Int32.ofInt (-2 ^ 31) else if 2 ^ 31 - 1 < n then Int32.ofInt (2 ^ 31 - 1)
    else Int32.ofInt n
