import RemoteBridge.Double.Exact
import RemoteBridge.Fit
import RemoteBridge.Injector

/-!
# Injector.Positions

The frame's map in exact arithmetic: the display is fitted into the frame, and
`toScreen` takes every position to a point of the display, the one drawn there
if there is one.
-/

namespace RemoteBridge

namespace Injector

open Exact Fit

variable {K : Type} [Field K] [LinearOrder K] [FloorRing K]

/-- The map of a frame and a display, in exact arithmetic. -/
def FrameMap.exact (K : Type) [Field K] [LinearOrder K] [FloorRing K]
    (frameWidth frameHeight : UInt32) (displayWidth displayHeight : Int32) : FrameMap K :=
  letI := Number.exact K
  FrameMap.new frameWidth frameHeight displayWidth displayHeight

/-- `toScreen` in exact arithmetic. -/
def FrameMap.screen (map : FrameMap K) (x y : K) : Int32 × Int32 :=
  letI := Number.exact K
  map.toScreen x y

/-! ## Points of the display -/

/-- The point of a display of `size` points that a distance from its edge is
taken to, along one axis. -/
def point (size : Int32) (p : K) : Int32 := saturate (roundAway (clamp p 0 (size.toInt - 1)))

section

variable [IsStrictOrderedRing K] {size i : Int32} {p p' : K}

/-- The last point of a display. -/
theorem zero_le_last (hsize : 0 < size.toInt) : (0 : K) ≤ size.toInt - 1 := by
  have hone : (1 : K) ≤ size.toInt := by exact_mod_cast hsize
  exact sub_nonneg.mpr hone

theorem round_clamp_mem (hsize : 0 < size.toInt) (p : K) :
    0 ≤ roundAway (clamp p 0 (size.toInt - 1)) ∧
      roundAway (clamp p 0 (size.toInt - 1)) ≤ size.toInt - 1 := by
  have hmem := clamp_mem (x := p) (zero_le_last hsize)
  apply roundAway_mem
  · rw [Int.cast_zero]
    exact hmem.1
  · rw [Int.cast_sub, Int.cast_one]
    exact hmem.2

theorem toInt_point (hsize : 0 < size.toInt) (p : K) :
    (point size p).toInt = roundAway (clamp p 0 (size.toInt - 1)) := by
  have hmem := round_clamp_mem hsize p
  have hlt := size.toInt_lt
  exact toInt_saturate (by omega) (by omega)

/-- Every distance is taken to a point of the display. -/
theorem point_mem (hsize : 0 < size.toInt) (p : K) :
    0 ≤ (point size p).toInt ∧ (point size p).toInt ≤ size.toInt - 1 := by
  rw [toInt_point hsize]
  exact round_clamp_mem hsize p

theorem point_mono (hsize : 0 < size.toInt) (h : p ≤ p') :
    (point size p).toInt ≤ (point size p').toInt := by
  rw [toInt_point hsize, toInt_point hsize]
  exact roundAway_mono (clamp_mono (zero_le_last hsize) h)

/-- A point is taken to itself. -/
theorem point_toInt (hi : 0 ≤ i.toInt) (hsize : i.toInt < size.toInt) :
    point size (i.toInt : K) = i := by
  have hnonneg : (0 : K) ≤ i.toInt := by exact_mod_cast hi
  have hlast : (i.toInt : K) ≤ size.toInt - 1 := by
    have hle : i.toInt ≤ size.toInt - 1 := by omega
    exact_mod_cast hle
  rw [point, clamp_of_mem hnonneg hlast, roundAway_intCast, saturate_toInt]

end

/-! ## The map -/

section

variable [IsStrictOrderedRing K] {fw fh : UInt32} {dw dh : Int32} {scale x y x' y' : K}

/-- The display is fitted into the frame. -/
theorem FrameMap.fits_scale (hdw : 0 < dw.toInt) (hdh : 0 < dh.toInt) :
    Fits (dw.toInt : K) dh.toInt fw.toNat fh.toNat (FrameMap.exact K fw fh dw dh).scale := by
  rw [fits_iff (by exact_mod_cast hdw) (by exact_mod_cast hdh), min_def,
    ← Int.cast_natCast fw.toNat, ← Int.cast_natCast fh.toNat]
  rfl

omit [IsStrictOrderedRing K] in
/-- It is centred in the frame. -/
theorem FrameMap.exact_eq (hscale : (FrameMap.exact K fw fh dw dh).scale = scale) :
    FrameMap.exact K fw fh dw dh =
      { frameWidth := fw.toNat
        frameHeight := fh.toNat
        displayWidth := dw.toInt
        displayHeight := dh.toInt
        scale
        offsetX := margin (dw.toInt : K) fw.toNat scale
        offsetY := margin (dh.toInt : K) fh.toNat scale } := by
  rw [← hscale, margin, margin, ← Int.cast_natCast fw.toNat, ← Int.cast_natCast fh.toNat,
    ← Int.cast_ofNat]
  rfl

theorem FrameMap.screen_eq (hscale : (FrameMap.exact K fw fh dw dh).scale = scale) :
    (FrameMap.exact K fw fh dw dh).screen x y =
      (point dw ((x * fw.toNat - margin (dw.toInt : K) fw.toNat scale) / scale),
        point dh ((y * fh.toNat - margin (dh.toInt : K) fh.toNat scale) / scale)) := by
  rw [FrameMap.exact_eq hscale, point, point, ← toInt32_round, ← toInt32_round, FrameMap.screen,
    ← Int.cast_zero, ← Int.cast_one]
  rfl

/-! ## Positions -/

/-- The bars at the sides of the display, of which two are empty. -/
theorem FrameMap.offset_nonneg (hdw : 0 < dw.toInt) (hdh : 0 < dh.toInt) :
    0 ≤ (FrameMap.exact K fw fh dw dh).offsetX ∧ 0 ≤ (FrameMap.exact K fw fh dw dh).offsetY := by
  rw [FrameMap.exact_eq rfl]
  exact (FrameMap.fits_scale hdw hdh).margin_nonneg

theorem FrameMap.offset_eq_zero (hdw : 0 < dw.toInt) (hdh : 0 < dh.toInt) :
    (FrameMap.exact K fw fh dw dh).offsetX = 0 ∨ (FrameMap.exact K fw fh dw dh).offsetY = 0 := by
  rw [FrameMap.exact_eq rfl]
  exact (FrameMap.fits_scale hdw hdh).margin_eq_zero (by exact_mod_cast hdw) (by exact_mod_cast hdh)

/-- Any two fractions are taken to a point of the display. -/
theorem FrameMap.screen_mem (hdw : 0 < dw.toInt) (hdh : 0 < dh.toInt) (x y : K) :
    let p := (FrameMap.exact K fw fh dw dh).screen x y
    (0 ≤ p.1.toInt ∧ p.1.toInt ≤ dw.toInt - 1) ∧ 0 ≤ p.2.toInt ∧ p.2.toInt ≤ dh.toInt - 1 := by
  rw [FrameMap.screen_eq rfl]
  exact ⟨point_mem hdw _, point_mem hdh _⟩

/-- Further right in the frame is not further left on the display, and likewise
for down. -/
theorem FrameMap.screen_mono (hfw : 0 < fw.toNat) (hfh : 0 < fh.toNat) (hdw : 0 < dw.toInt)
    (hdh : 0 < dh.toInt) (hx : x ≤ x') (hy : y ≤ y') :
    let p := (FrameMap.exact K fw fh dw dh).screen x y
    let p' := (FrameMap.exact K fw fh dw dh).screen x' y'
    p.1.toInt ≤ p'.1.toInt ∧ p.2.toInt ≤ p'.2.toInt := by
  have hfits : Fits (dw.toInt : K) dh.toInt fw.toNat fh.toNat _ := FrameMap.fits_scale hdw hdh
  have hscale := hfits.pos (by exact_mod_cast hdw) (by exact_mod_cast hdh) (by exact_mod_cast hfw)
    (by exact_mod_cast hfh)
  rw [FrameMap.screen_eq rfl, FrameMap.screen_eq rfl]
  refine ⟨point_mono hdw ?_, point_mono hdh ?_⟩
  · exact div_le_div_of_nonneg_right (sub_le_sub_right
      (mul_le_mul_of_nonneg_right hx (Nat.cast_nonneg _)) _) hscale.le
  · exact div_le_div_of_nonneg_right (sub_le_sub_right
      (mul_le_mul_of_nonneg_right hy (Nat.cast_nonneg _)) _) hscale.le

/-- The place of a point in the frame is taken to the point. -/
theorem FrameMap.screen_place {i j : Int32} (hfw : 0 < fw.toNat) (hfh : 0 < fh.toNat)
    (hi : 0 ≤ i.toInt) (hdw : i.toInt < dw.toInt) (hj : 0 ≤ j.toInt) (hdh : j.toInt < dh.toInt)
    (hscale : Fits (dw.toInt : K) dh.toInt fw.toNat fh.toNat scale) :
    (FrameMap.exact K fw fh dw dh).screen (place (dw.toInt : K) fw.toNat scale i.toInt / fw.toNat)
      (place (dh.toInt : K) fh.toNat scale j.toInt / fh.toNat) = (i, j) := by
  have hw : (0 : K) < dw.toInt := by exact_mod_cast hi.trans_lt hdw
  have hh : (0 : K) < dh.toInt := by exact_mod_cast hj.trans_lt hdh
  have hfw' : (fw.toNat : K) ≠ 0 := by exact_mod_cast hfw.ne'
  have hfh' : (fh.toNat : K) ≠ 0 := by exact_mod_cast hfh.ne'
  have hpos := hscale.pos hw hh (by exact_mod_cast hfw) (by exact_mod_cast hfh)
  have heq := (FrameMap.fits_scale (hi.trans_lt hdw) (hj.trans_lt hdh)).unique hscale
  rw [FrameMap.screen_eq heq, div_mul_cancel₀ _ hfw', div_mul_cancel₀ _ hfh',
    place_sub_margin_div hpos.ne', place_sub_margin_div hpos.ne', point_toInt hi hdw,
    point_toInt hj hdh]

end

end Injector

end RemoteBridge
