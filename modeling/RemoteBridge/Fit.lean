import Mathlib.Algebra.Order.Field.Basic
import Mathlib.Order.Bounds.Defs
import Mathlib.Tactic.Linarith
import Mathlib.Tactic.Ring

/-!
# Fit

A picture fitted into an area: at the largest scale that fits, centred, with bars
at two of the sides.  In exact arithmetic, over any ordered field.
-/

namespace Fit

variable {K : Type*} [Field K] [LinearOrder K] [IsStrictOrderedRing K] {w h W H scale x : K}

/-- `scale` is the largest at which a `w` by `h` picture fits into a `W` by `H` area. -/
def Fits (w h W H scale : K) : Prop := IsGreatest {s | w * s ≤ W ∧ h * s ≤ H} scale

/-- The width of the bar at one side, along one axis. -/
def margin (w W scale : K) : K := (W - w * scale) / 2

/-- Where a point of the picture is in the area, along one axis. -/
def place (w W scale x : K) : K := margin w W scale + x * scale

/-- The largest scale that fits is the smaller one of the two ratios. -/
theorem fits_iff (hw : 0 < w) (hh : 0 < h) :
    Fits w h W H scale ↔ scale = min (W / w) (H / h) := by
  have hset : {s | w * s ≤ W ∧ h * s ≤ H} = Set.Iic (min (W / w) (H / h)) := by
    ext s
    rw [Set.mem_Iic, le_min_iff, le_div_iff₀' hw, le_div_iff₀' hh]
    rfl
  rw [Fits, hset]
  exact ⟨fun hs => hs.unique isGreatest_Iic, fun hs => hs ▸ isGreatest_Iic⟩

theorem Fits.pos (hs : Fits w h W H scale) (hw : 0 < w) (hh : 0 < h) (hW : 0 < W) (hH : 0 < H) :
    0 < scale := by
  rw [(fits_iff hw hh).mp hs]
  exact lt_min (div_pos hW hw) (div_pos hH hh)

theorem Fits.margin_nonneg (hs : Fits w h W H scale) :
    0 ≤ margin w W scale ∧ 0 ≤ margin h H scale := by
  obtain ⟨hw, hh⟩ := hs.1
  exact ⟨div_nonneg (sub_nonneg.mpr hw) zero_le_two, div_nonneg (sub_nonneg.mpr hh) zero_le_two⟩

/-- The picture fills the area along one of the axes. -/
theorem Fits.margin_eq_zero (hs : Fits w h W H scale) (hw : 0 < w) (hh : 0 < h) :
    margin w W scale = 0 ∨ margin h H scale = 0 := by
  have hscale := (fits_iff hw hh).mp hs
  rcases min_choice (W / w) (H / h) with hmin | hmin
  · refine .inl ?_
    rw [margin, hscale, hmin, mul_div_cancel₀ _ hw.ne', sub_self, zero_div]
  · refine .inr ?_
    rw [margin, hscale, hmin, mul_div_cancel₀ _ hh.ne', sub_self, zero_div]

omit [LinearOrder K] [IsStrictOrderedRing K] in
/-- A place is led back to its point. -/
theorem place_sub_margin_div (hscale : scale ≠ 0) :
    (place w W scale x - margin w W scale) / scale = x := by
  rw [place, add_sub_cancel_left, mul_div_cancel_right₀ _ hscale]

omit [LinearOrder K] [IsStrictOrderedRing K] in
/-- In fractions of the picture, a place is the point's part of the whole. -/
theorem place_sub_margin_div_mul (hscale : scale ≠ 0) :
    (place w W scale x - margin w W scale) / (w * scale) = x / w := by
  rw [place, add_sub_cancel_left, mul_div_mul_right _ _ hscale]

/-- The picture is inside of the area. -/
theorem place_mem (hscale : 0 ≤ scale) (hmargin : 0 ≤ margin w W scale) (hx : 0 ≤ x) (hxw : x ≤ w) :
    0 ≤ place w W scale x ∧ place w W scale x ≤ W := by
  refine ⟨add_nonneg hmargin (mul_nonneg hx hscale), ?_⟩
  have hmul := mul_le_mul_of_nonneg_right hxw hscale
  have hsum : margin w W scale + w * scale + margin w W scale = W := by
    rw [margin]
    ring
  rw [place]
  linarith

end Fit
