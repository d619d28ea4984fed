import Mathlib.Data.List.Basic
import Mathlib.Tactic.Ring

/-!
# Slices

Ranges of a slice, and rows in a buffer that holds more than the rows.

A range that is out of bounds is a panic, here `none`. Two buffers may hold the
same rows with different distances between them: the packed copy of the rows
and the copy into another buffer are both stated by where an element stands.
-/

namespace Slices

variable {α β : Type*}

/-! ## Ranges -/

/-- `l[a..b]`. -/
def slice (l : List α) (a b : Nat) : Option (List α) :=
  if a ≤ b ∧ b ≤ l.length then some ((l.drop a).take (b - a)) else none

/-- `l[a..b].copy_from_slice(src)`: both sides have one length. -/
def copyInto (l : List α) (a b : Nat) (src : List α) : Option (List α) :=
  if a ≤ b ∧ b ≤ l.length ∧ src.length = b - a then
    some (l.take a ++ src ++ l.drop b)
  else none

/-- `l.chunks(n)`: every `n` elements, the last chunk with what is left. -/
def chunks (n : Nat) (l : List α) : Option (List (List α)) :=
  if n = 0 then none
  else some ((List.range ((l.length + n - 1) / n)).map fun i => (l.drop (i * n)).take n)

/-- An element of a whole chunk stands inside. -/
theorem chunk_lt {n len : Nat} (i : Fin (len / n)) (j : Fin n) : i.val * n + j.val < len := by
  have hi : (i.val + 1) * n ≤ len / n * n := Nat.mul_le_mul_right n i.isLt
  have hlen : len / n * n ≤ len := Nat.div_mul_le_self len n
  have hj := j.isLt
  rw [Nat.add_mul, Nat.one_mul] at hi
  omega

/-- `l.as_chunks::<n>().0`: the whole chunks, as arrays. -/
def asChunks (n : Nat) (l : List α) : List (Vector α n) :=
  List.ofFn fun i : Fin (l.length / n) =>
    Vector.ofFn fun j : Fin n => l.get ⟨i.val * n + j.val, chunk_lt i j⟩

theorem slice_of_le {l : List α} {a b : Nat} (hab : a ≤ b) (hb : b ≤ l.length) :
    slice l a b = some ((l.drop a).take (b - a)) := if_pos ⟨hab, hb⟩

theorem length_asChunks (n : Nat) (l : List α) : (asChunks n l).length = l.length / n := by
  rw [asChunks, List.length_ofFn]

/-- Splitting off whole chunks leaves the chunks of the rest. -/
theorem asChunks_append {n : Nat} {a : List α} (hpos : 0 < n) (hn : n ∣ a.length) (b : List α) :
    asChunks n (a ++ b) = asChunks n a ++ asChunks n b := by
  obtain ⟨m, hm⟩ := hn
  have ha : a.length / n = m := by rw [hm, Nat.mul_div_cancel_left m hpos]
  have hab : (a ++ b).length / n = m + b.length / n := by
    rw [List.length_append, hm, Nat.mul_add_div hpos]
  apply List.ext_getElem
  · rw [length_asChunks, hab, List.length_append, length_asChunks, length_asChunks, ha]
  · intro i hi hi'
    apply Vector.ext
    intro j hj
    simp only [asChunks, List.getElem_ofFn, Vector.getElem_ofFn, List.get_eq_getElem,
      List.getElem_append, List.length_ofFn, ha]
    by_cases him : i < m
    · have hlt : i * n + j < a.length := by
        have := Nat.mul_le_mul_right n him
        rw [Nat.succ_mul, Nat.mul_comm m n, ← hm] at this
        omega
      simp [him, hlt]
    · have hge : a.length + ((i - m) * n + j) = i * n + j := by
        have : m * n + (i - m) * n = i * n := by rw [← Nat.add_mul, Nat.add_sub_cancel' (by omega)]
        rw [hm, Nat.mul_comm n m]
        omega
      have hnlt : ¬ i * n + j < a.length := by omega
      simp only [him, hnlt, dite_false, Vector.getElem_ofFn]
      congr 1
      omega

/-- Pieces of whole chunks, end to end. -/
theorem asChunks_flatMap {n : Nat} {f : β → List α} {l : List β} (hpos : 0 < n)
    (h : ∀ x ∈ l, n ∣ (f x).length) :
    asChunks n (l.flatMap f) = l.flatMap fun x => asChunks n (f x) := by
  induction l with
  | nil => simp [asChunks]
  | cons x l ih =>
      rw [List.flatMap_cons, List.flatMap_cons, asChunks_append hpos (h x (by simp)),
        ih fun y hy => h y (by simp [hy])]

/-! ## Loops that extend a vector -/

/-- Each round appends what it makes of its element. -/
theorem foldlM_extend {f : List α → β → Option (List α)} {g : β → List α} {l : List β}
    (h : ∀ x ∈ l, ∀ acc, f acc x = some (acc ++ g x)) (acc : List α) :
    l.foldlM f acc = some (acc ++ l.flatMap g) := by
  induction l generalizing acc with
  | nil => simp
  | cons x l ih =>
      rw [List.foldlM_cons, h x (by simp), Option.bind_eq_bind, Option.bind_some,
        ih fun y hy => h y (by simp [hy])]
      simp

/-- The same without a way to fail. -/
theorem foldl_extend (g : β → List α) (l : List β) (acc : List α) :
    l.foldl (fun acc x => acc ++ g x) acc = acc ++ l.flatMap g := by
  induction l generalizing acc with
  | nil => simp
  | cons x l ih => simp [ih]

/-! ## Rows -/

/-- Every row stands in a buffer of `len` elements. -/
def Fits (width height stride len : Nat) : Prop := ∀ row < height, row * stride + width ≤ len

/-- An index of the rows, not of what is between them. -/
def Inside (width height stride i : Nat) : Prop :=
  ∃ row < height, ∃ k < width, i = row * stride + k

/-- Two buffers hold the same rows, each with its own distance between them. -/
def SameRows (width height : Nat) (a : List α) (strideA : Nat) (b : List α) (strideB : Nat) :
    Prop :=
  ∀ row < height, ∀ k < width, b[row * strideB + k]? = a[row * strideA + k]?

/-- The rows of a buffer, end to end. -/
def packRows (width height stride : Nat) (l : List α) : List α :=
  (List.range height).flatMap fun row => (l.drop (row * stride)).take width

section

variable {width height stride len : Nat} {l : List α}

/-- The last row may be a short one. -/
theorem fits_of_last (h : stride * (height - 1) + width ≤ len) :
    Fits width height stride len := by
  intro row hrow
  have hle : row * stride ≤ stride * (height - 1) := by
    rw [Nat.mul_comm]
    exact Nat.mul_le_mul_left stride (by omega)
  omega

theorem fits_of_rows (hw : width ≤ stride) (h : stride * height ≤ len) :
    Fits width height stride len := by
  intro row hrow
  have hle : (row + 1) * stride ≤ stride * height := by
    rw [Nat.mul_comm]
    exact Nat.mul_le_mul_left stride hrow
  rw [Nat.add_mul, Nat.one_mul] at hle
  omega

theorem Fits.mono {height' : Nat} (h : Fits width height stride len) (hle : height' ≤ height) :
    Fits width height' stride len := fun row hrow => h row (by omega)

theorem SameRows.trans {a b c : List α} {strideA strideB strideC : Nat}
    (hab : SameRows width height a strideA b strideB)
    (hbc : SameRows width height b strideB c strideC) :
    SameRows width height a strideA c strideC := fun row hrow k hk => by
  rw [hbc row hrow k hk, hab row hrow k hk]

theorem packRows_succ (width height stride : Nat) (l : List α) :
    packRows width (height + 1) stride l =
      packRows width height stride l ++ (l.drop (height * stride)).take width := by
  simp [packRows, List.range_succ]

/-- The packed rows have no padding. -/
theorem length_packRows (h : Fits width height stride l.length) :
    (packRows width height stride l).length = width * height := by
  induction height with
  | zero => rfl
  | succ height ih =>
      have hlast := h height (by omega)
      rw [packRows_succ, List.length_append, ih (h.mono (by omega)), List.length_take,
        List.length_drop, Nat.mul_succ]
      omega

/-- **Packing keeps the rows**: element `k` of a row is where its width puts it. -/
theorem sameRows_packRows (h : Fits width height stride l.length) :
    SameRows width height l stride (packRows width height stride l) width := by
  induction height with
  | zero => exact fun row hrow => absurd hrow (by omega)
  | succ height ih =>
      intro row hrow k hk
      have hfits := h.mono (Nat.le_succ height)
      have hlen := length_packRows hfits
      rw [packRows_succ]
      by_cases hlast : row < height
      · have hlt : row * width + k < width * height := by
          have hle := Nat.mul_le_mul_right width hlast
          rw [Nat.succ_mul, Nat.mul_comm height width] at hle
          omega
        rw [List.getElem?_append_left (by omega)]
        exact ih hfits row hlast k hk
      · obtain rfl : row = height := by omega
        rw [Nat.mul_comm width row] at hlen
        rw [List.getElem?_append_right (by omega), hlen, Nat.add_sub_cancel_left,
          List.getElem?_take_of_lt hk, List.getElem?_drop]

/-- Going through the chunks and taking of each its row is going through the rows. -/
theorem chunks_rows {g : List α → List β} (hg : g [] = []) (hpos : 0 < stride)
    (hw : width ≤ stride) (h : Fits width height stride l.length) :
    ∃ rows, chunks stride l = some rows ∧ (∀ row ∈ rows.take height, width ≤ row.length) ∧
      (rows.take height).flatMap (fun row => g (row.take width)) =
        (List.range height).flatMap fun row => g ((l.drop (row * stride)).take width) := by
  refine ⟨_, if_neg (by omega), ?_, ?_⟩
  · intro row hrow
    rw [← List.map_take, List.take_range, List.mem_map] at hrow
    obtain ⟨i, hi, rfl⟩ := hrow
    have hfit := h i (by rw [List.mem_range] at hi; omega)
    rw [List.length_take, List.length_drop]
    omega
  · rw [← List.map_take, List.take_range, List.flatMap_map]
    simp only [List.take_take, Nat.min_eq_left hw]
    rcases Nat.eq_zero_or_pos width with rfl | hwpos
    · have hnone (rows : List Nat) : rows.flatMap (fun _ => ([] : List β)) = [] :=
        List.flatMap_eq_nil_iff.mpr fun _ _ => rfl
      simp [hg, hnone]
    rcases Nat.eq_zero_or_pos height with rfl | hheight
    · simp
    -- the last row has an element, so there is a chunk for each row
    have hlast := h (height - 1) (by omega)
    have hcount : height ≤ (l.length + stride - 1) / stride := by
      rw [Nat.le_div_iff_mul_le hpos]
      have hsplit : height * stride = (height - 1) * stride + stride := by
        rw [← Nat.succ_mul, Nat.succ_eq_add_one, Nat.sub_add_cancel hheight]
      omega
    rw [Nat.min_eq_left hcount]

/-- A loop over the chunks that appends what it makes of each row. -/
theorem foldlM_chunks {f : List β → List α → Option (List β)} {g : List α → List β}
    (hg : g [] = []) (hpos : 0 < stride) (hw : width ≤ stride)
    (h : Fits width height stride l.length)
    (hf : ∀ row, width ≤ row.length → ∀ acc, f acc row = some (acc ++ g (row.take width))) :
    ∃ rows, chunks stride l = some rows ∧ (rows.take height).foldlM f [] = some
      ((List.range height).flatMap fun row => g ((l.drop (row * stride)).take width)) := by
  obtain ⟨rows, hrows, hlong, hall⟩ := chunks_rows hg hpos hw h
  refine ⟨rows, hrows, ?_⟩
  rw [foldlM_extend (fun row hrow => hf row (hlong row hrow)), hall, List.nil_append]

end

/-! ## Copying rows into a buffer -/

theorem copyInto_of_le {l src : List α} {a b : Nat} (hab : a ≤ b) (hb : b ≤ l.length)
    (hsrc : src.length = b - a) : copyInto l a b src = some (l.take a ++ src ++ l.drop b) :=
  if_pos ⟨hab, hb, hsrc⟩

/-- Where an element stands after a copy: in the range from the source, else unchanged. -/
theorem getElem?_copied (l src : List α) {a b : Nat} (hab : a ≤ b) (hb : b ≤ l.length)
    (hsrc : src.length = b - a) (i : Nat) :
    (l.take a ++ src ++ l.drop b)[i]? =
      if a ≤ i ∧ i < b then src[i - a]? else l[i]? := by
  have hlen : (l.take a).length = a := by rw [List.length_take]; omega
  rw [List.append_assoc]
  by_cases hia : i < a
  · rw [List.getElem?_append_left (by omega), List.getElem?_take_of_lt hia, if_neg (by omega)]
  rw [List.getElem?_append_right (by omega), hlen]
  by_cases hib : i < b
  · rw [List.getElem?_append_left (by omega), if_pos (by omega)]
  · rw [List.getElem?_append_right (by omega), List.getElem?_drop, if_neg (by omega)]
    congr 1
    omega

/-- What a loop over the rows leaves in the buffer: each row written, all else as before. -/
structure RowsWritten (width height stride : Nat) (rows : Nat → List α) (l out : List α) :
    Prop where
  length : out.length = l.length
  rows : ∀ row < height, ∀ k < width, out[row * stride + k]? = (rows row)[k]?
  frame : ∀ i, ¬ Inside width height stride i → out[i]? = l[i]?

/-- One more row. -/
theorem RowsWritten.step {width height stride : Nat} {rows : Nat → List α} {l out : List α}
    (h : RowsWritten width height stride rows l out) (hw : width ≤ stride)
    (hlast : height * stride + width ≤ l.length) (hrow : (rows height).length = width) :
    RowsWritten width (height + 1) stride rows l
      (out.take (height * stride) ++ rows height ++ out.drop (height * stride + width)) := by
  have hlen := h.length
  have hcopied := getElem?_copied out (rows height)
    (Nat.le_add_right (height * stride) width) (by omega) (by omega)
  refine ⟨?_, ?_, ?_⟩
  · simp only [List.length_append, List.length_take, List.length_drop, hrow]
    omega
  · intro row hr k hk
    rw [hcopied]
    by_cases hnew : row < height
    · have hbefore : row * stride + k < height * stride := by
        have hle := Nat.mul_le_mul_right stride hnew
        rw [Nat.succ_mul] at hle
        omega
      rw [if_neg (by omega), h.rows row hnew k hk]
    · obtain rfl : row = height := by omega
      rw [if_pos (by omega), Nat.add_sub_cancel_left]
  · intro i hi
    have hout : ¬ (height * stride ≤ i ∧ i < height * stride + width) := fun hin =>
      hi ⟨height, by omega, i - height * stride, by omega, by omega⟩
    have hbefore : ¬ Inside width height stride i := fun ⟨row, hr, hin⟩ =>
      hi ⟨row, by omega, hin⟩
    rw [hcopied, if_neg hout, h.frame i hbefore]

/-- **Copying row after row** stays in bounds, writes the rows and nothing else. -/
theorem foldlM_rows {width height stride : Nat} (rows : Nat → List α) {l : List α}
    {f : List α → Nat → Option (List α)} (hw : width ≤ stride)
    (hfits : Fits width height stride l.length)
    (hrows : ∀ row < height, (rows row).length = width)
    (hf : ∀ row < height, ∀ out,
      f out row = copyInto out (row * stride) (row * stride + width) (rows row)) :
    ∃ out, (List.range height).foldlM f l = some out ∧
      RowsWritten width height stride rows l out := by
  induction height with
  | zero =>
      exact ⟨l, rfl, rfl, fun row hrow => absurd hrow (by omega), fun i _ => rfl⟩
  | succ height ih =>
      obtain ⟨out, hout, hwritten⟩ := ih (hfits.mono (by omega))
        (fun row hrow => hrows row (by omega)) fun row hrow => hf row (by omega)
      have hlast := hfits height (by omega)
      have hlen := hwritten.length
      have hrow := hrows height (by omega)
      refine ⟨_, ?_, hwritten.step hw hlast hrow⟩
      rw [List.range_succ, List.foldlM_append, hout, Option.bind_eq_bind, Option.bind_some,
        List.foldlM_cons, hf height (by omega) out,
        copyInto_of_le (by omega) (by omega) (by omega)]
      rfl

end Slices
