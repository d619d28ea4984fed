import RemoteBridge.Slices

/-!
# Frames

The copies of a captured picture, `main.rs`: out of the capture's padded rows into a
tightly packed frame, and from there into ffmpeg's frame with rows of its own length.

Sizes and indices are natural numbers: those that are used stay within a slice.
-/

namespace RemoteBridge.Frames

open Slices

/-! ## Packing -/

/-- One captured frame, in RGBA order. -/
structure Frame where
  width : UInt32
  height : UInt32
  rgba : List UInt8
deriving DecidableEq

/-- One captured frame, still in BGRA order but with row padding stripped. -/
structure RawFrame where
  width : UInt32
  height : UInt32
  bgra : List UInt8
deriving DecidableEq

/-- Copy a padded BGRA buffer into a tight RGBA buffer. -/
def bgraToRgba (src : List UInt8) (width height stride : Nat) : Option Frame := do
  let rows ← chunks stride src
  let rgba ← (rows.take height).foldlM (fun rgba row => do
    let pixels ← slice row 0 (width * 4)
    return (asChunks 4 pixels).foldl
      (fun rgba px => rgba ++ [px[2], px[1], px[0], px[3]]) rgba) []
  return { width := UInt32.ofNat width, height := UInt32.ofNat height, rgba := rgba }

/-- Strip row padding from a captured BGRA buffer. -/
def packBgra (src : List UInt8) (width height stride : Nat) : Option RawFrame := do
  let rows ← chunks stride src
  let bgra ← (rows.take height).foldlM (fun bgra row => do
    return bgra ++ (← slice row 0 (width * 4))) []
  return { width := UInt32.ofNat width, height := UInt32.ofNat height, bgra := bgra }

/-- The first and the third byte of every pixel change places. -/
def swapFirstThird (bytes : List UInt8) : List UInt8 :=
  (asChunks 4 bytes).flatMap fun px => (px.swap 0 2).toList

/-! ## ffmpeg's frame -/

/-- Plane 0 of an ffmpeg video frame: the bytes of a row with its padding, and the rows. -/
structure Video where
  stride : Nat
  data : List UInt8
deriving DecidableEq

/-- Copy a packed frame into the BGRA frame that ffmpeg makes for its size, `new`. -/
def bgraFrame (new : UInt32 → UInt32 → Video) (raw : RawFrame) : Option Video := do
  let frame := new raw.width raw.height
  let stride := frame.stride
  let widthBytes := raw.width.toNat * 4
  let data ← (List.range raw.height.toNat).foldlM (fun data row => do
    let src ← slice raw.bgra (row * widthBytes) ((row + 1) * widthBytes)
    copyInto data (row * stride) (row * stride + widthBytes) src) frame.data
  return { frame with data := data }

/-! ## What the loops do -/

section

variable {src : List UInt8} {width height stride : Nat}

/-- The loop of `pack_bgra` puts the rows end to end. -/
theorem packBgra_eq (hpos : 0 < stride) (hw : width * 4 ≤ stride)
    (h : Fits (width * 4) height stride src.length) :
    packBgra src width height stride = some
      { width := UInt32.ofNat width, height := UInt32.ofNat height,
        bgra := packRows (width * 4) height stride src } := by
  obtain ⟨rows, hrows, hloop⟩ := foldlM_chunks (g := id)
    (f := fun bgra row => do return bgra ++ (← slice row 0 (width * 4))) rfl hpos hw h
    (fun row hrow acc => by
      rw [slice_of_le (Nat.zero_le _) hrow]
      rfl)
  rw [packBgra, hrows, Option.bind_eq_bind, Option.bind_some, hloop]
  rfl

/-- A pixel's bytes in the order of RGBA. -/
theorem rgba_of_bgra (px : Vector UInt8 4) :
    [px[2], px[1], px[0], px[3]] = (px.swap 0 2).toList := by
  apply List.ext_getElem
  · simp
  · intro i hi hi'
    simp only [List.length_cons, List.length_nil] at hi
    match i, hi with
    | 0, _ => simp
    | 1, _ => simp
    | 2, _ => simp
    | 3, _ => simp

/-- The loops of `bgra_to_rgba` swap within the rows of the packed buffer. -/
theorem bgraToRgba_eq (hpos : 0 < stride) (hw : width * 4 ≤ stride)
    (h : Fits (width * 4) height stride src.length) :
    bgraToRgba src width height stride = some
      { width := UInt32.ofNat width, height := UInt32.ofNat height,
        rgba := swapFirstThird (packRows (width * 4) height stride src) } := by
  obtain ⟨rows, hrows, hloop⟩ := foldlM_chunks (g := swapFirstThird)
    (f := fun rgba row => do
      let pixels ← slice row 0 (width * 4)
      return (asChunks 4 pixels).foldl
        (fun rgba px => rgba ++ [px[2], px[1], px[0], px[3]]) rgba) rfl hpos hw h
    (fun row hrow acc => by
      rw [slice_of_le (Nat.zero_le _) hrow, Option.bind_eq_bind, Option.bind_some, foldl_extend]
      simp only [rgba_of_bgra]
      rfl)
  -- every row is whole pixels, so the pixels of the packed buffer are those of its rows
  have hpixels : swapFirstThird (packRows (width * 4) height stride src) =
      (List.range height).flatMap fun row =>
          swapFirstThird ((src.drop (row * stride)).take (width * 4)) := by
    have hwhole : ∀ row ∈ List.range height,
        4 ∣ ((src.drop (row * stride)).take (width * 4)).length := by
      intro row hrow
      have hfit := h row (List.mem_range.mp hrow)
      rw [List.length_take, List.length_drop, Nat.min_eq_left (by omega)]
      exact Nat.dvd_mul_left 4 width
    simp only [swapFirstThird, packRows]
    rw [asChunks_flatMap (by omega) hwhole, List.flatMap_assoc]
  rw [bgraToRgba, hrows, Option.bind_eq_bind, Option.bind_some, hloop, hpixels]
  rfl

end

/-- The loop of `bgra_frame` writes every row of the packed frame and leaves the padding. -/
theorem bgraFrame_eq (new : UInt32 → UInt32 → Video) (raw : RawFrame)
    (hbgra : raw.width.toNat * 4 * raw.height.toNat ≤ raw.bgra.length)
    (hstride : raw.width.toNat * 4 ≤ (new raw.width raw.height).stride)
    (hplane : (new raw.width raw.height).stride * raw.height.toNat ≤
      (new raw.width raw.height).data.length) :
    ∃ data, bgraFrame new raw = some { stride := (new raw.width raw.height).stride, data := data } ∧
      RowsWritten (raw.width.toNat * 4) raw.height.toNat (new raw.width raw.height).stride
          (fun row => (raw.bgra.drop (row * (raw.width.toNat * 4))).take (raw.width.toNat * 4))
          (new raw.width raw.height).data data := by
  have hpacked := fits_of_rows (Nat.le_refl _) hbgra
  have hlast {row : Nat} (hrow : row < raw.height.toNat) :
      (row + 1) * (raw.width.toNat * 4) ≤ raw.bgra.length := by
    have := hpacked row hrow
    rwa [Nat.succ_mul]
  obtain ⟨data, hdata, hwritten⟩ := foldlM_rows
    (fun row => (raw.bgra.drop (row * (raw.width.toNat * 4))).take (raw.width.toNat * 4))
    (f := fun data row => do
      let src ← slice raw.bgra (row * (raw.width.toNat * 4)) ((row + 1) * (raw.width.toNat * 4))
      copyInto data (row * (new raw.width raw.height).stride)
        (row * (new raw.width raw.height).stride + raw.width.toNat * 4) src)
    hstride (fits_of_rows hstride hplane)
    (fun row hrow => by
      have := hpacked row hrow
      rw [List.length_take, List.length_drop]
      omega)
    (fun row hrow out => by
      have hsize : (row + 1) * (raw.width.toNat * 4) - row * (raw.width.toNat * 4) =
          raw.width.toNat * 4 := by
        rw [Nat.succ_mul, Nat.add_sub_cancel_left]
      rw [slice_of_le (Nat.mul_le_mul_right _ (Nat.le_succ row)) (hlast hrow), hsize]
      rfl)
  refine ⟨data, ?_, hwritten⟩
  simp only [bgraFrame, hdata]
  rfl

/-! ## A picture on its way -/

section

variable {src : List UInt8} {width height stride : Nat}

/-- The capacity that is reserved for a picture is no larger than its source. -/
theorem capacity_le (hheight : 0 < height) (hw : 4 * width ≤ stride)
    (h : stride * (height - 1) + 4 * width ≤ src.length) :
    width * height * 4 ≤ src.length := by
  have hrows : 4 * width * (height - 1) ≤ stride * (height - 1) := Nat.mul_le_mul_right _ hw
  have hsplit : 4 * width * (height - 1) + 4 * width = width * height * 4 := by
    rw [← Nat.mul_succ, Nat.succ_eq_add_one, Nat.sub_add_cancel hheight]
    ring
  omega

/-- **Pixels survive repacking.** The packed frame has the rows of its source end to end, and
the RGBA copy is the packed one with the first and third byte of every pixel swapped.
Whatever frame ffmpeg makes for it, no slice is out of bounds; and where the frame's 32-bit
size is the picture's, ffmpeg's frame has the rows of the source and its own padding. -/
theorem pixels_survive (hheight : 0 < height) (hpos : 0 < stride) (hw : 4 * width ≤ stride)
    (h : stride * (height - 1) + 4 * width ≤ src.length) :
    width * height * 4 ≤ src.length ∧
      ∃ raw, packBgra src width height stride = some raw ∧
        raw.bgra.length = 4 * width * height ∧
        SameRows (4 * width) height src stride raw.bgra (4 * width) ∧
        (∃ frame, bgraToRgba src width height stride = some frame ∧
          frame.rgba = swapFirstThird raw.bgra) ∧
        ∀ new : UInt32 → UInt32 → Video,
          4 * width ≤ (new raw.width raw.height).stride →
          (new raw.width raw.height).stride * height ≤ (new raw.width raw.height).data.length →
          ∃ frame, bgraFrame new raw = some frame ∧
            frame.stride = (new raw.width raw.height).stride ∧
            frame.data.length = (new raw.width raw.height).data.length ∧
            (width < 2 ^ 32 → height < 2 ^ 32 →
              SameRows (4 * width) height src stride frame.data frame.stride ∧
                ∀ i, ¬ Inside (4 * width) height frame.stride i →
                  frame.data[i]? = (new raw.width raw.height).data[i]?) := by
  have hfits := fits_of_last h
  rw [Nat.mul_comm 4 width] at hw hfits ⊢
  have hlength := length_packRows hfits
  have hsame := sameRows_packRows hfits
  refine ⟨capacity_le hheight (by omega) h, _, packBgra_eq hpos hw hfits, hlength, hsame,
    ⟨_, bgraToRgba_eq hpos hw hfits, rfl⟩, fun new hstride hplane => ?_⟩
  -- the frame's own size is at most the picture's
  have hwidth : (UInt32.ofNat width).toNat ≤ width := by
    rw [UInt32.toNat_ofNat']
    exact Nat.mod_le _ _
  have hheight' : (UInt32.ofNat height).toNat ≤ height := by
    rw [UInt32.toNat_ofNat']
    exact Nat.mod_le _ _
  obtain ⟨data, hdata, hwritten⟩ := bgraFrame_eq new
    { width := UInt32.ofNat width, height := UInt32.ofNat height,
      bgra := packRows (width * 4) height stride src }
    (by
      rw [hlength]
      exact Nat.mul_le_mul (Nat.mul_le_mul_right 4 hwidth) hheight')
    (by dsimp only at hstride ⊢; omega)
    ((Nat.mul_le_mul_left _ hheight').trans hplane)
  refine ⟨_, hdata, rfl, hwritten.length, fun hwlt hhlt => ?_⟩
  have hweq : (UInt32.ofNat width).toNat = width := UInt32.toNat_ofNat_of_lt' hwlt
  have hheq : (UInt32.ofNat height).toNat = height := UInt32.toNat_ofNat_of_lt' hhlt
  simp only [hweq, hheq] at hwritten
  refine ⟨hsame.trans fun row hrow k hk => ?_, hwritten.frame⟩
  rw [hwritten.rows row hrow k hk, List.getElem?_take_of_lt hk, List.getElem?_drop]

end

/-- Two pixels below each other, the second row without padding, into rows of eight bytes. -/
theorem two_pixels_survive :
    ∃ raw, packBgra [1, 2, 3, 4, 0, 0, 5, 6, 7, 8] 1 2 6 = some raw ∧ raw.bgra.length = 8 ∧
      ∃ frame, bgraFrame (fun _ _ => { stride := 8, data := List.replicate 16 9 }) raw =
          some frame ∧
        frame.stride = 8 ∧
        SameRows 4 2 [1, 2, 3, 4, 0, 0, 5, 6, 7, 8] 6 frame.data frame.stride := by
  obtain ⟨-, raw, hraw, hlength, -, -, hframe⟩ := @pixels_survive
    [1, 2, 3, 4, 0, 0, 5, 6, 7, 8] 1 2 6 (by decide) (by decide) (by decide) (by decide)
  obtain ⟨frame, hsome, hstride, -, hrows⟩ :=
    hframe (fun _ _ => { stride := 8, data := List.replicate 16 9 }) (by decide) (by decide)
  exact ⟨raw, hraw, hlength, frame, hsome, hstride, (hrows (by decide) (by decide)).1⟩

/-- A row of 2³² pixels is a frame of width 0: none of it is written to ffmpeg's frame. -/
theorem wide_row_dropped {src plane : List UInt8} (hsrc : src.length = 2 ^ 34)
    (hplane : plane.length = 2 ^ 34) :
    ∃ raw, packBgra src (2 ^ 32) 1 (2 ^ 34) = some raw ∧
      ∃ data, bgraFrame (fun _ _ => { stride := 2 ^ 34, data := plane }) raw =
          some { stride := 2 ^ 34, data := data } ∧
        data[0]? = plane[0]? := by
  have hfits : Fits (2 ^ 32 * 4) 1 (2 ^ 34) src.length := by
    rw [hsrc]
    exact fits_of_last (by norm_num)
  refine ⟨_, packBgra_eq (by norm_num) (by norm_num) hfits, ?_⟩
  have hzero : (UInt32.ofNat (2 ^ 32)).toNat = 0 := by decide
  have hone : (UInt32.ofNat 1).toNat = 1 := by decide
  obtain ⟨data, hdata, hwritten⟩ := bgraFrame_eq
    (fun _ _ => { stride := 2 ^ 34, data := plane })
    { width := UInt32.ofNat (2 ^ 32), height := UInt32.ofNat 1,
      bgra := packRows (2 ^ 32 * 4) 1 (2 ^ 34) src }
    (by simp only [hzero]; omega) (by simp only [hzero]; omega)
    (by simp only [hone, hplane]; omega)
  refine ⟨data, hdata, hwritten.frame 0 ?_⟩
  rintro ⟨row, -, k, hk, -⟩
  simp only [hzero] at hk
  omega

/-- So a picture may be wider than a frame can say. -/
theorem wide_row_not_copied :
    ¬ ∀ (src : List UInt8) (width height stride : Nat), 0 < height → 0 < stride →
      4 * width ≤ stride → stride * (height - 1) + 4 * width ≤ src.length →
      ∀ raw, packBgra src width height stride = some raw →
      ∀ new : UInt32 → UInt32 → Video,
        4 * width ≤ (new raw.width raw.height).stride →
        (new raw.width raw.height).stride * height ≤ (new raw.width raw.height).data.length →
        ∃ frame, bgraFrame new raw = some frame ∧
          SameRows (4 * width) height src stride frame.data frame.stride := by
  intro hclaim
  have hlen (b : UInt8) : (List.replicate (2 ^ 34) b).length = 2 ^ 34 := List.length_replicate
  have hfirst (b : UInt8) : (List.replicate (2 ^ 34) b)[0]? = some b := by
    rw [List.getElem?_replicate, if_pos (Nat.pow_pos (by omega))]
  obtain ⟨raw, hraw, data, hdata, hkept⟩ := wide_row_dropped (hlen 1) (hlen 0)
  obtain ⟨frame, hframe, hrows⟩ := hclaim (List.replicate (2 ^ 34) 1) (2 ^ 32) 1 (2 ^ 34)
    (by omega) (by omega) (by omega) (by rw [hlen]; omega) raw hraw
    (fun _ _ => { stride := 2 ^ 34, data := List.replicate (2 ^ 34) 0 })
    (by dsimp only; omega) (by dsimp only; rw [hlen]; omega)
  rw [hdata, Option.some.injEq] at hframe
  have hin := hrows 0 (by omega) 0 (by omega)
  rw [← hframe] at hin
  simp only [Nat.zero_mul, Nat.add_zero] at hin
  rw [hkept, hfirst, hfirst] at hin
  exact absurd hin (by decide)

end RemoteBridge.Frames
