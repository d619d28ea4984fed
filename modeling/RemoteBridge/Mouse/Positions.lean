import RemoteBridge.Injector.Positions
import RemoteBridge.Mouse

/-!
# Mouse.Positions

The mouse in exact arithmetic: the frame is fitted into the video element and the
display into the frame, so a pointer event over a point of the display, as drawn
on the page, is to reach this point.
-/

namespace RemoteBridge

namespace Mouse

open Fit
open Injector (FrameMap)

section

variable {K : Type} [Field K] [LinearOrder K] [FloorRing K]

/-- The frame position of a pointer event, in exact arithmetic. -/
def exactPosition (videoWidth videoHeight : Nat) (rect : Rect K) (clientX clientY : K) :
    Option (Position K) :=
  letI := Number.exact K
  framePosition (frameRect videoWidth videoHeight rect) clientX clientY

/-- `handle` in exact arithmetic. -/
def exactHandle (down : Bool) (event : PointerEvent) (pos : Option (Position K)) : Handled K :=
  letI := Number.exact K
  handle down event pos

/-- A position that the mouse sends as `x` and `y`: by a press of the left button,
and while it is down by a movement and by the end of the press. -/
def Sends (pos : Option (Position K)) (x y : K) : Prop :=
  ∀ down, exactHandle down (.pointerdown 0) pos = ⟨true, [⟨.down, x, y⟩], true⟩ ∧
    exactHandle true .pointermove pos = ⟨true, [⟨.move, x, y⟩], false⟩ ∧
    exactHandle true .pointerup pos = ⟨false, [⟨.up, x, y⟩], false⟩ ∧
    exactHandle true .pointercancel pos = ⟨false, [⟨.up, x, y⟩], false⟩

/-- Where a point of the display is drawn on the page, along one axis: in the
frame at `scale`, and the frame in the element at `zoom`. -/
def drawn (display frame element left scale zoom i : K) : K :=
  left + place frame element zoom (place display frame scale i)

end

section

variable {K : Type} [Field K] [LinearOrder K] [IsStrictOrderedRing K] [FloorRing K]
variable {videoWidth videoHeight : Nat} {rect : Rect K} {zoom x y : K}

/-- The frame position of a place in the drawn frame. -/
theorem exactPosition_place (hw : 0 < videoWidth) (hh : 0 < videoHeight) (hrw : 0 < rect.width)
    (hrh : 0 < rect.height)
    (hzoom : Fits (videoWidth : K) videoHeight rect.width rect.height zoom) :
    exactPosition videoWidth videoHeight rect (rect.left + place (videoWidth : K) rect.width zoom x)
      (rect.top + place (videoHeight : K) rect.height zoom y) =
      some ⟨x / videoWidth, y / videoHeight⟩ := by
  have hw' : (0 : K) < videoWidth := by exact_mod_cast hw
  have hh' : (0 : K) < videoHeight := by exact_mod_cast hh
  have hpos := hzoom.pos hw' hh' hrw hrh
  have hframe : @frameRect K (Number.exact K) videoWidth videoHeight rect = some
      { left := rect.left + margin (videoWidth : K) rect.width zoom
        top := rect.top + margin (videoHeight : K) rect.height zoom
        width := videoWidth * zoom
        height := videoHeight * zoom } := by
    have hnot : ¬ (videoWidth = 0 ∨ videoHeight = 0) := by omega
    rw [(fits_iff hw' hh').mp hzoom, min_def, margin, margin, ← Int.cast_natCast videoWidth,
      ← Int.cast_natCast videoHeight, ← Int.cast_ofNat]
    exact if_neg hnot
  have hx : (rect.left + place (videoWidth : K) rect.width zoom x -
      (rect.left + margin (videoWidth : K) rect.width zoom)) / (videoWidth * zoom) =
      x / videoWidth := by
    rw [add_sub_add_left_eq_sub, place_sub_margin_div_mul hpos.ne']
  have hy : (rect.top + place (videoHeight : K) rect.height zoom y -
      (rect.top + margin (videoHeight : K) rect.height zoom)) / (videoHeight * zoom) =
      y / videoHeight := by
    rw [add_sub_add_left_eq_sub, place_sub_margin_div_mul hpos.ne']
  rw [← hx, ← hy, exactPosition, hframe]
  rfl

omit [IsStrictOrderedRing K] in
/-- A fraction of the frame is not clamped. -/
theorem clamp01_of_mem {v : K} (hv : 0 ≤ v) (hv' : v ≤ 1) :
    @clamp01 K (Number.exact K) v = v := by
  have heq : @clamp01 K (Number.exact K) v = min (max v 0) 1 := by
    rw [min_def, max_def, ← Int.cast_zero, ← Int.cast_one]
    rfl
  rw [heq, max_eq_left hv, min_eq_left hv']

omit [IsStrictOrderedRing K] in
theorem not_outside_of_mem {pos : Position K} (hx : 0 ≤ pos.x) (hx' : pos.x ≤ 1) (hy : 0 ≤ pos.y)
    (hy' : pos.y ≤ 1) : ¬ @Position.outside K (Number.exact K) pos := by
  have hiff : @Position.outside K (Number.exact K) pos ↔
      ((pos.x < (0 : ℤ) ∨ (1 : ℤ) < pos.x) ∨ pos.y < (0 : ℤ)) ∨ (1 : ℤ) < pos.y := by
    simp only [Position.outside, Bool.or_eq_true, Exact.lt_iff]
    rfl
  rw [hiff, Int.cast_zero, Int.cast_one, not_or, not_or, not_or, not_lt, not_lt, not_lt, not_lt]
  exact ⟨⟨⟨hx, hx'⟩, hy⟩, hy'⟩

omit [IsStrictOrderedRing K] in
/-- A position in the frame is sent as it is. -/
theorem sends_of_mem {pos : Position K} (hx : 0 ≤ pos.x) (hx' : pos.x ≤ 1) (hy : 0 ≤ pos.y)
    (hy' : pos.y ≤ 1) : Sends (some pos) pos.x pos.y := by
  have hmessage (type : MessageType) :
      @positionMessage K (Number.exact K) type pos = ⟨type, pos.x, pos.y⟩ :=
    congrArg₂ (Message.mk type) (clamp01_of_mem hx hx') (clamp01_of_mem hy hy')
  have hinside := not_outside_of_mem hx hx' hy hy'
  intro down
  refine ⟨?_, ?_, ?_, ?_⟩ <;> simp [exactHandle, handle, hmessage, hinside]

/-! ## What is drawn -/

/-- A mouse over a point of the display, as drawn on the page, sends a position
that the host takes to the point. -/
theorem exists_screen_drawn {fw fh : UInt32} {dw dh i j : Int32} {scale : K}
    (hfw : 0 < fw.toNat) (hfh : 0 < fh.toNat) (hrw : 0 < rect.width) (hrh : 0 < rect.height)
    (hscale : Fits (dw.toInt : K) dh.toInt fw.toNat fh.toNat scale)
    (hzoom : Fits (fw.toNat : K) fh.toNat rect.width rect.height zoom)
    (hi : 0 ≤ i.toInt) (hdw : i.toInt < dw.toInt) (hj : 0 ≤ j.toInt) (hdh : j.toInt < dh.toInt) :
    let pos := exactPosition fw.toNat fh.toNat rect
      (drawn (dw.toInt : K) fw.toNat rect.width rect.left scale zoom i.toInt)
      (drawn (dh.toInt : K) fh.toNat rect.height rect.top scale zoom j.toInt)
    ∃ x y, (FrameMap.exact K fw fh dw dh).screen x y = (i, j) ∧ Sends pos x y := by
  have hfw' : (0 : K) < fw.toNat := by exact_mod_cast hfw
  have hfh' : (0 : K) < fh.toNat := by exact_mod_cast hfh
  have hpos := hscale.pos (by exact_mod_cast hi.trans_lt hdw) (by exact_mod_cast hj.trans_lt hdh)
    hfw' hfh'
  have hmargin := hscale.margin_nonneg
  have hx := place_mem (x := (i.toInt : K)) hpos.le hmargin.1 (by exact_mod_cast hi)
    (by exact_mod_cast hdw.le)
  have hy := place_mem (x := (j.toInt : K)) hpos.le hmargin.2 (by exact_mod_cast hj)
    (by exact_mod_cast hdh.le)
  rw [drawn, drawn, exactPosition_place hfw hfh hrw hrh hzoom]
  refine ⟨_, _, FrameMap.screen_place hfw hfh hi hdw hj hdh hscale, ?_⟩
  exact sends_of_mem (div_nonneg hx.1 hfw'.le) ((div_le_one hfw').mpr hx.2)
    (div_nonneg hy.1 hfh'.le) ((div_le_one hfh').mpr hy.2)

/-- **Pointing lands on what is drawn.**  The display fitted into the frame and the
frame into the element, the mouse's events over each point of the display are
taken to this point.  The frame's bars are of no negative size, and two of them
are empty.  Any fractions are taken to a point of the display, in their order. -/
theorem screen_of_drawn {fw fh : UInt32} {dw dh : Int32} (hfw : 0 < fw.toNat)
    (hfh : 0 < fh.toNat) (hdw : 0 < dw.toInt) (hdh : 0 < dh.toInt) :
    (∀ (rect : Rect K) (scale zoom : K) (i j : Int32), 0 < rect.width → 0 < rect.height →
      Fits (dw.toInt : K) dh.toInt fw.toNat fh.toNat scale →
      Fits (fw.toNat : K) fh.toNat rect.width rect.height zoom →
      0 ≤ i.toInt → i.toInt < dw.toInt → 0 ≤ j.toInt → j.toInt < dh.toInt →
      let pos := exactPosition fw.toNat fh.toNat rect
        (drawn (dw.toInt : K) fw.toNat rect.width rect.left scale zoom i.toInt)
        (drawn (dh.toInt : K) fh.toNat rect.height rect.top scale zoom j.toInt)
      ∃ x y, (FrameMap.exact K fw fh dw dh).screen x y = (i, j) ∧ Sends pos x y) ∧
      (0 ≤ (FrameMap.exact K fw fh dw dh).offsetX ∧ 0 ≤ (FrameMap.exact K fw fh dw dh).offsetY) ∧
      ((FrameMap.exact K fw fh dw dh).offsetX = 0 ∨ (FrameMap.exact K fw fh dw dh).offsetY = 0) ∧
      (∀ x y : K, let p := (FrameMap.exact K fw fh dw dh).screen x y
        (0 ≤ p.1.toInt ∧ p.1.toInt ≤ dw.toInt - 1) ∧ 0 ≤ p.2.toInt ∧ p.2.toInt ≤ dh.toInt - 1) ∧
      ∀ x y x' y' : K, x ≤ x' → y ≤ y' →
        let p := (FrameMap.exact K fw fh dw dh).screen x y
        let p' := (FrameMap.exact K fw fh dw dh).screen x' y'
        p.1.toInt ≤ p'.1.toInt ∧ p.2.toInt ≤ p'.2.toInt := by
  refine ⟨?_, FrameMap.offset_nonneg hdw hdh, FrameMap.offset_eq_zero hdw hdh,
    FrameMap.screen_mem hdw hdh, ?_⟩
  · intro rect scale zoom i j hrw hrh hscale hzoom hi hdw hj hdh
    exact exists_screen_drawn hfw hfh hrw hrh hscale hzoom hi hdw hj hdh
  · intro x y x' y' hx hy
    exact FrameMap.screen_mono hfw hfh hdw hdh hx hy

/-- The last point of a 14" MacBook Pro's screen, on a phone. -/
theorem screen_of_drawn_macbook :
    let frame : UInt32 × UInt32 := (1280, 720)
    let display : Int32 × Int32 := (1512, 982)
    let rect : Rect ℚ := ⟨0, 0, 390, 844⟩
    let pos := exactPosition frame.1.toNat frame.2.toNat rect
      (drawn (display.1.toInt : ℚ) frame.1.toNat rect.width rect.left (720 / 982) (390 / 1280) 1511)
      (drawn (display.2.toInt : ℚ) frame.2.toNat rect.height rect.top (720 / 982) (390 / 1280) 981)
    ∃ x y, (FrameMap.exact ℚ frame.1 frame.2 display.1 display.2).screen x y = (1511, 981) ∧
      Sends pos x y := by
  have hdw : (1512 : Int32).toInt = 1512 := by decide
  have hdh : (982 : Int32).toInt = 982 := by decide
  have hfw : (1280 : UInt32).toNat = 1280 := by decide
  have hfh : (720 : UInt32).toNat = 720 := by decide
  have hi : (1511 : Int32).toInt = 1511 := by decide
  have hj : (981 : Int32).toInt = 981 := by decide
  have hscale : Fits ((1512 : Int32).toInt : ℚ) (982 : Int32).toInt (1280 : UInt32).toNat
      (720 : UInt32).toNat (720 / 982) := by
    rw [hdw, hdh, hfw, hfh, fits_iff (by norm_num) (by norm_num)]
    norm_num
  have hzoom : Fits ((1280 : UInt32).toNat : ℚ) (720 : UInt32).toNat 390 844 (390 / 1280) := by
    rw [hfw, hfh, fits_iff (by norm_num) (by norm_num)]
    norm_num
  have h := (@screen_of_drawn ℚ _ _ _ _ 1280 720 1512 982 (by decide) (by decide) (by decide)
    (by decide)).1 ⟨0, 0, 390, 844⟩ (720 / 982) (390 / 1280) 1511 981
    (by norm_num) (by norm_num) hscale hzoom (by decide) (by decide) (by decide) (by decide)
  rw [hi, hj] at h
  exact h

end

end Mouse

end RemoteBridge
