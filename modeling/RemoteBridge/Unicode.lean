import RemoteBridge.Fields

/-!
# Unicode

The parts of Unicode that text processing in Rust and in JavaScript rests on:
white space, lower case and UTF-8.

A text is the list of its code points.  A code point is a natural number, so
that the lone surrogates a JavaScript string may hold can be written down; the
iteration `[...s]` of JavaScript and `chars` of Rust give this list.
-/

namespace Unicode

/-- A text, as its code points; surrogates are allowed. -/
abbrev Text := List Nat

/-- The text of a string literal. -/
def text (s : String) : Text := s.toList.map Char.toNat

/-- Only code points below 128. -/
def IsAscii (t : Text) : Prop := ∀ c ∈ t, c < 128

instance (t : Text) : Decidable (IsAscii t) := inferInstanceAs (Decidable (∀ c ∈ t, c < 128))

/-- A text without lone surrogates (`str` of Rust). -/
def WellFormed (t : Text) : Prop := ∀ c ∈ t, c.isValidChar

instance (t : Text) : Decidable (WellFormed t) :=
  inferInstanceAs (Decidable (∀ c ∈ t, c.isValidChar))

theorem WellFormed.of_subset {t u : Text} (h : WellFormed t) (hsub : u ⊆ t) : WellFormed u :=
  fun c hc => h c (hsub hc)

/-! ## White space -/

/-- The `White_Space` property, which `char::is_whitespace` and `str::trim`
of Rust go by. -/
def isWhiteSpace (c : Nat) : Bool :=
  (9 ≤ c && c ≤ 13) || c = 32 || c = 0x85 || c = 0xA0 || c = 0x1680 ||
    (0x2000 ≤ c && c ≤ 0x200A) || c = 0x2028 || c = 0x2029 || c = 0x202F || c = 0x205F ||
    c = 0x3000

/-- The white space and line terminators `String.prototype.trim` of JavaScript
removes: U+FEFF is one of them, U+0085 is not. -/
def isJsWhiteSpace (c : Nat) : Bool :=
  (isWhiteSpace c && c != 0x85) || c = 0xFEFF

/-! ## Lines -/

/-- A line without the carriage return it may end with. -/
def dropCarriageReturn (line : Text) : Text :=
  if line.getLast? = some 13 then line.dropLast else line

/-- The lines of a text (`str::lines` of Rust): LF and CRLF end a line, and
nothing follows the last line end. -/
def lines (t : Text) : List Text :=
  let pieces := t.splitOn 10
  pieces.dropLast.map dropCarriageReturn ++ pieces.getLast?.toList.filter (· ≠ [])

theorem dropCarriageReturn_subset (line : Text) : dropCarriageReturn line ⊆ line := by
  unfold dropCarriageReturn
  split
  · exact (List.dropLast_sublist line).subset
  · exact fun _ h => h

theorem ten_notMem_of_mem_lines {t line : Text} (h : line ∈ lines t) : 10 ∉ line := by
  rcases List.mem_append.mp h with h | h
  · obtain ⟨piece, hpiece, rfl⟩ := List.mem_map.mp h
    have hten := Fields.notMem_of_mem_splitOn ((List.dropLast_sublist _).subset hpiece)
    exact fun hmem => hten (dropCarriageReturn_subset piece hmem)
  · have hpiece := List.mem_of_mem_filter h
    rw [Option.mem_toList] at hpiece
    exact Fields.notMem_of_mem_splitOn (List.mem_of_getLast? hpiece)

/-! ## Lower case -/

/-- ASCII lower case, of one code point. -/
def asciiLower (c : Nat) : Nat := if 65 ≤ c ∧ c ≤ 90 then c + 32 else c

/-- ASCII lower case (`to_ascii_lowercase` of Rust). -/
def toAsciiLowercase (t : Text) : Text := t.map asciiLower

/-- Equality up to ASCII case (`eq_ignore_ascii_case` of Rust). -/
def EqIgnoreAsciiCase (xs ys : Text) : Prop := toAsciiLowercase xs = toAsciiLowercase ys

instance (xs ys : Text) : Decidable (EqIgnoreAsciiCase xs ys) :=
  inferInstanceAs (Decidable (_ = _))

/-- The one-to-one lower case mappings, as `(first, last, step, offset)`: the
code points `first`, `first + step`, ..., `last` move by `offset`. -/
def lowercaseRanges : List (Nat × Nat × Nat × Int) :=
  [(0x41, 0x5A, 1, 32), (0xC0, 0xD6, 1, 32), (0xD8, 0xDE, 1, 32), (0x100, 0x12E, 2, 1),
    (0x132, 0x136, 2, 1), (0x139, 0x147, 2, 1), (0x14A, 0x176, 2, 1), (0x178, 0x178, 1, -121),
    (0x179, 0x17D, 2, 1), (0x181, 0x181, 1, 210), (0x182, 0x184, 2, 1), (0x186, 0x186, 1, 206),
    (0x187, 0x187, 1, 1), (0x189, 0x18A, 1, 205), (0x18B, 0x18B, 1, 1), (0x18E, 0x18E, 1, 79),
    (0x18F, 0x18F, 1, 202), (0x190, 0x190, 1, 203), (0x191, 0x191, 1, 1), (0x193, 0x193, 1, 205),
    (0x194, 0x194, 1, 207), (0x196, 0x196, 1, 211), (0x197, 0x197, 1, 209), (0x198, 0x198, 1, 1),
    (0x19C, 0x19C, 1, 211), (0x19D, 0x19D, 1, 213), (0x19F, 0x19F, 1, 214), (0x1A0, 0x1A4, 2, 1),
    (0x1A6, 0x1A6, 1, 218), (0x1A7, 0x1A7, 1, 1), (0x1A9, 0x1A9, 1, 218), (0x1AC, 0x1AC, 1, 1),
    (0x1AE, 0x1AE, 1, 218), (0x1AF, 0x1AF, 1, 1), (0x1B1, 0x1B2, 1, 217), (0x1B3, 0x1B5, 2, 1),
    (0x1B7, 0x1B7, 1, 219), (0x1B8, 0x1B8, 1, 1), (0x1BC, 0x1BC, 1, 1), (0x1C4, 0x1C4, 1, 2),
    (0x1C5, 0x1C5, 1, 1), (0x1C7, 0x1C7, 1, 2), (0x1C8, 0x1C8, 1, 1), (0x1CA, 0x1CA, 1, 2),
    (0x1CB, 0x1DB, 2, 1), (0x1DE, 0x1EE, 2, 1), (0x1F1, 0x1F1, 1, 2), (0x1F2, 0x1F4, 2, 1),
    (0x1F6, 0x1F6, 1, -97), (0x1F7, 0x1F7, 1, -56), (0x1F8, 0x21E, 2, 1),
    (0x220, 0x220, 1, -130), (0x222, 0x232, 2, 1), (0x23A, 0x23A, 1, 10795),
    (0x23B, 0x23B, 1, 1), (0x23D, 0x23D, 1, -163), (0x23E, 0x23E, 1, 10792),
    (0x241, 0x241, 1, 1), (0x243, 0x243, 1, -195), (0x244, 0x244, 1, 69), (0x245, 0x245, 1, 71),
    (0x246, 0x24E, 2, 1), (0x370, 0x372, 2, 1), (0x376, 0x376, 1, 1), (0x37F, 0x37F, 1, 116),
    (0x386, 0x386, 1, 38), (0x388, 0x38A, 1, 37), (0x38C, 0x38C, 1, 64), (0x38E, 0x38F, 1, 63),
    (0x391, 0x3A1, 1, 32), (0x3A3, 0x3AB, 1, 32), (0x3CF, 0x3CF, 1, 8), (0x3D8, 0x3EE, 2, 1),
    (0x3F4, 0x3F4, 1, -60), (0x3F7, 0x3F7, 1, 1), (0x3F9, 0x3F9, 1, -7), (0x3FA, 0x3FA, 1, 1),
    (0x3FD, 0x3FF, 1, -130), (0x400, 0x40F, 1, 80), (0x410, 0x42F, 1, 32), (0x460, 0x480, 2, 1),
    (0x48A, 0x4BE, 2, 1), (0x4C0, 0x4C0, 1, 15), (0x4C1, 0x4CD, 2, 1), (0x4D0, 0x52E, 2, 1),
    (0x531, 0x556, 1, 48), (0x10A0, 0x10C5, 1, 7264), (0x10C7, 0x10C7, 1, 7264),
    (0x10CD, 0x10CD, 1, 7264), (0x13A0, 0x13EF, 1, 38864), (0x13F0, 0x13F5, 1, 8),
    (0x1C90, 0x1CBA, 1, -3008), (0x1CBD, 0x1CBF, 1, -3008), (0x1E00, 0x1E94, 2, 1),
    (0x1E9E, 0x1E9E, 1, -7615), (0x1EA0, 0x1EFE, 2, 1), (0x1F08, 0x1F0F, 1, -8),
    (0x1F18, 0x1F1D, 1, -8), (0x1F28, 0x1F2F, 1, -8), (0x1F38, 0x1F3F, 1, -8),
    (0x1F48, 0x1F4D, 1, -8), (0x1F59, 0x1F5F, 2, -8), (0x1F68, 0x1F6F, 1, -8),
    (0x1F88, 0x1F8F, 1, -8), (0x1F98, 0x1F9F, 1, -8), (0x1FA8, 0x1FAF, 1, -8),
    (0x1FB8, 0x1FB9, 1, -8), (0x1FBA, 0x1FBB, 1, -74), (0x1FBC, 0x1FBC, 1, -9),
    (0x1FC8, 0x1FCB, 1, -86), (0x1FCC, 0x1FCC, 1, -9), (0x1FD8, 0x1FD9, 1, -8),
    (0x1FDA, 0x1FDB, 1, -100), (0x1FE8, 0x1FE9, 1, -8), (0x1FEA, 0x1FEB, 1, -112),
    (0x1FEC, 0x1FEC, 1, -7), (0x1FF8, 0x1FF9, 1, -128), (0x1FFA, 0x1FFB, 1, -126),
    (0x1FFC, 0x1FFC, 1, -9), (0x2126, 0x2126, 1, -7517), (0x212A, 0x212A, 1, -8383),
    (0x212B, 0x212B, 1, -8262), (0x2132, 0x2132, 1, 28), (0x2160, 0x216F, 1, 16),
    (0x2183, 0x2183, 1, 1), (0x24B6, 0x24CF, 1, 26), (0x2C00, 0x2C2F, 1, 48),
    (0x2C60, 0x2C60, 1, 1), (0x2C62, 0x2C62, 1, -10743), (0x2C63, 0x2C63, 1, -3814),
    (0x2C64, 0x2C64, 1, -10727), (0x2C67, 0x2C6B, 2, 1), (0x2C6D, 0x2C6D, 1, -10780),
    (0x2C6E, 0x2C6E, 1, -10749), (0x2C6F, 0x2C6F, 1, -10783), (0x2C70, 0x2C70, 1, -10782),
    (0x2C72, 0x2C72, 1, 1), (0x2C75, 0x2C75, 1, 1), (0x2C7E, 0x2C7F, 1, -10815),
    (0x2C80, 0x2CE2, 2, 1), (0x2CEB, 0x2CED, 2, 1), (0x2CF2, 0x2CF2, 1, 1),
    (0xA640, 0xA66C, 2, 1), (0xA680, 0xA69A, 2, 1), (0xA722, 0xA72E, 2, 1),
    (0xA732, 0xA76E, 2, 1), (0xA779, 0xA77B, 2, 1), (0xA77D, 0xA77D, 1, -35332),
    (0xA77E, 0xA786, 2, 1), (0xA78B, 0xA78B, 1, 1), (0xA78D, 0xA78D, 1, -42280),
    (0xA790, 0xA792, 2, 1), (0xA796, 0xA7A8, 2, 1), (0xA7AA, 0xA7AA, 1, -42308),
    (0xA7AB, 0xA7AB, 1, -42319), (0xA7AC, 0xA7AC, 1, -42315), (0xA7AD, 0xA7AD, 1, -42305),
    (0xA7AE, 0xA7AE, 1, -42308), (0xA7B0, 0xA7B0, 1, -42258), (0xA7B1, 0xA7B1, 1, -42282),
    (0xA7B2, 0xA7B2, 1, -42261), (0xA7B3, 0xA7B3, 1, 928), (0xA7B4, 0xA7C2, 2, 1),
    (0xA7C4, 0xA7C4, 1, -48), (0xA7C5, 0xA7C5, 1, -42307), (0xA7C6, 0xA7C6, 1, -35384),
    (0xA7C7, 0xA7C9, 2, 1), (0xA7D0, 0xA7D0, 1, 1), (0xA7D6, 0xA7D8, 2, 1),
    (0xA7F5, 0xA7F5, 1, 1), (0xFF21, 0xFF3A, 1, 32), (0x10400, 0x10427, 1, 40),
    (0x104B0, 0x104D3, 1, 40), (0x10570, 0x1057A, 1, 39), (0x1057C, 0x1058A, 1, 39),
    (0x1058C, 0x10592, 1, 39), (0x10594, 0x10595, 1, 39), (0x10C80, 0x10CB2, 1, 64),
    (0x118A0, 0x118BF, 1, 32), (0x16E40, 0x16E5F, 1, 32), (0x1E900, 0x1E921, 1, 34)]

/-- Whether a range of the table lists `c`. -/
def listed (range : Nat × Nat × Nat × Int) (c : Nat) : Bool :=
  range.1 ≤ c && c ≤ range.2.1 && (c - range.1) % range.2.2.1 == 0

/-- The one-to-one lower case mapping of a code point. -/
def simpleLower (c : Nat) : Nat :=
  match lowercaseRanges.find? (listed · c) with
  | some range => (c + range.2.2.2).toNat
  | none => c

/-- When a capital sigma becomes the final small sigma.  Unicode decides it from
the letters before (nearest first) and after it; both small sigmas lie outside
ASCII, and nothing here depends on which one it is. -/
class FinalSigma where
  isFinal : (before after : Text) → Bool

/-- Lower case of one code point in its context: the two special cases, then
the table. -/
def lowerCodePoint [FinalSigma] (before after : Text) (c : Nat) : Text :=
  if c = 0x3A3 then [if FinalSigma.isFinal before after then 0x3C2 else 0x3C3]
  else if c = 0x130 then [0x69, 0x307]
  else [simpleLower c]

/-- Lower case of the text `rest` that follows `before` (nearest first). -/
def lowerFrom [FinalSigma] (before : Text) : Text → Text
  | [] => []
  | c :: rest => lowerCodePoint before rest c ++ lowerFrom (c :: before) rest

/-- `String.prototype.toLowerCase` of JavaScript. -/
def toLowerCase [FinalSigma] (t : Text) : Text := lowerFrom [] t

/-! ## Lower case and ASCII -/

theorem asciiLower_lt {c : Nat} : asciiLower c < 128 ↔ c < 128 := by
  unfold asciiLower; split <;> omega

theorem isAscii_toAsciiLowercase {t : Text} : IsAscii (toAsciiLowercase t) ↔ IsAscii t := by
  simp [IsAscii, toAsciiLowercase, asciiLower_lt]

/-- The line feed is the lower case of itself only. -/
theorem asciiLower_eq_ten {c : Nat} : asciiLower c = 10 ↔ c = 10 := by
  unfold asciiLower; split <;> omega

theorem ten_mem_toAsciiLowercase {t : Text} : 10 ∈ toAsciiLowercase t ↔ 10 ∈ t := by
  simp [toAsciiLowercase, asciiLower_eq_ten]

/-- The Kelvin sign, the one code point outside ASCII whose whole lower case is
ASCII: it becomes the letter k. -/
def kelvin : Nat := 0x212A

/-- Besides the capital letters and the Kelvin sign, the table stays outside
ASCII; and it never produces the Kelvin sign. -/
theorem lowercaseRanges_spec : ∀ range ∈ lowercaseRanges,
    (range = (65, 90, 1, 32) ∨ range = (kelvin, kelvin, 1, -8383) ∨
      128 ≤ (range.1 : Int) + range.2.2.2 ∧ 128 ≤ range.1) ∧
    listed range ((kelvin : Int) - range.2.2.2).toNat = false := by
  decide +kernel

theorem simpleLower_eq (c : Nat) :
    (∃ range ∈ lowercaseRanges, listed range c ∧ simpleLower c = (c + range.2.2.2).toNat) ∨
      (∀ range ∈ lowercaseRanges, listed range c = false) ∧ simpleLower c = c := by
  cases h : lowercaseRanges.find? (listed · c) with
  | some range =>
      exact .inl ⟨range, List.mem_of_find?_eq_some h, by simpa using List.find?_some h,
        by simp [simpleLower, h]⟩
  | none =>
      refine .inr ⟨fun range hr => ?_, by simp [simpleLower, h]⟩
      simpa using List.find?_eq_none.mp h range hr

/-- Lower case that lands in ASCII comes from ASCII or is the Kelvin sign's. -/
theorem simpleLower_lt {c : Nat} (h : simpleLower c < 128) :
    c < 128 ∧ simpleLower c = asciiLower c ∨ c = kelvin := by
  rcases simpleLower_eq c with ⟨range, hr, hc, heq⟩ | ⟨hnone, heq⟩
  · simp only [listed, Bool.and_eq_true, decide_eq_true_eq] at hc
    rcases (lowercaseRanges_spec range hr).1 with rfl | rfl | ⟨hlow, hfirst⟩
    · left
      simp only [asciiLower] at *
      split <;> omega
    · exact .inr (by simp only at hc; omega)
    · omega
  · left
    have hcap := hnone (65, 90, 1, 32) (by decide)
    simp only [listed, Nat.mod_one, BEq.rfl, Bool.and_true, Bool.and_eq_false_iff,
      decide_eq_false_iff_not] at hcap
    simp only [asciiLower] at *
    split <;> omega

theorem simpleLower_of_lt {c : Nat} (h : c < 128) : simpleLower c = asciiLower c := by
  revert c; decide +kernel

/-- Nothing becomes the Kelvin sign. -/
theorem simpleLower_ne_kelvin (c : Nat) : simpleLower c ≠ kelvin := by
  intro h
  rcases simpleLower_eq c with ⟨range, hr, hc, heq⟩ | ⟨hnone, heq⟩
  · have hk := (lowercaseRanges_spec range hr).2
    have hcase : ((kelvin : Int) - range.2.2.2).toNat = c := by
      rw [heq] at h
      simp only [kelvin] at *
      omega
    rw [hcase, hc] at hk
    contradiction
  · rw [heq] at h
    have hk := hnone (kelvin, kelvin, 1, -8383) (by decide)
    simp [listed, h] at hk

/-- The ASCII members of the lower case of one code point: its ASCII lower
case, or the two letters that code points outside ASCII contribute. -/
theorem lt_of_mem_lowerCodePoint [FinalSigma] {before after : Text} {c d : Nat}
    (h : d ∈ lowerCodePoint before after c) (hd : d < 128) :
    c < 128 ∧ d = asciiLower c ∨ c = 0x130 ∧ d = 0x69 ∨ c = kelvin := by
  unfold lowerCodePoint at h
  split at h
  · split at h <;> simp only [List.mem_singleton] at h <;> omega
  · split at h
    · simp only [List.mem_cons, List.not_mem_nil, or_false] at h
      exact .inr (.inl ⟨by assumption, by omega⟩)
    · simp only [List.mem_singleton] at h
      subst h
      rcases simpleLower_lt hd with hlow | hk
      · exact .inl hlow
      · exact .inr (.inr hk)

theorem kelvin_notMem_lowerCodePoint [FinalSigma] {before after : Text} {c : Nat} :
    kelvin ∉ lowerCodePoint before after c := by
  unfold lowerCodePoint
  split
  · split <;> simp [kelvin]
  · split
    · simp [kelvin]
    · simp [Ne.symm (simpleLower_ne_kelvin c)]

theorem lowerCodePoint_of_lt [FinalSigma] {before after : Text} {c : Nat} (h : c < 128) :
    lowerCodePoint before after c = [asciiLower c] := by
  unfold lowerCodePoint
  rw [if_neg (by omega), if_neg (by omega), simpleLower_of_lt h]

theorem mem_lowerFrom [FinalSigma] {before t : Text} {d : Nat} (h : d ∈ lowerFrom before t) :
    ∃ c ∈ t, ∃ b a, d ∈ lowerCodePoint b a c := by
  induction t generalizing before with
  | nil => simp [lowerFrom] at h
  | cons c t ih =>
      rcases List.mem_append.mp h with h | h
      · exact ⟨c, List.mem_cons_self, before, t, h⟩
      · obtain ⟨c', hc', hd⟩ := ih h
        exact ⟨c', List.mem_cons_of_mem _ hc', hd⟩

/-- On ASCII text the two notions of lower case agree. -/
theorem toLowerCase_of_isAscii [FinalSigma] {t : Text} (h : IsAscii t) :
    toLowerCase t = toAsciiLowercase t := by
  suffices hgen : ∀ before, lowerFrom before t = toAsciiLowercase t from hgen []
  induction t with
  | nil => exact fun _ => rfl
  | cons c t ih =>
      intro before
      rw [lowerFrom, lowerCodePoint_of_lt (h c List.mem_cons_self),
        ih (fun d hd => h d (List.mem_cons_of_mem _ hd))]
      rfl

/-- White space is its own lower case. -/
theorem lowerCodePoint_of_isWhiteSpace [FinalSigma] {before after : Text} {c : Nat}
    (h : isWhiteSpace c) : lowerCodePoint before after c = [c] := by
  have hspaces : ∀ c ∈ [9, 10, 11, 12, 13, 32, 0x85, 0xA0, 0x1680, 0x2000, 0x2001, 0x2002, 0x2003,
      0x2004, 0x2005, 0x2006, 0x2007, 0x2008, 0x2009, 0x200A, 0x2028, 0x2029, 0x202F, 0x205F,
      0x3000], c ≠ 0x3A3 ∧ c ≠ 0x130 ∧ simpleLower c = c := by
    decide +kernel
  obtain ⟨hsigma, hdotted, hlower⟩ := hspaces c (by
    simp [isWhiteSpace] at h
    simp
    omega)
  rw [lowerCodePoint, if_neg hsigma, if_neg hdotted, hlower]

theorem isWhiteSpace_asciiLower (c : Nat) : isWhiteSpace (asciiLower c) = isWhiteSpace c := by
  unfold asciiLower
  split
  · next h =>
    rw [Bool.eq_iff_iff]
    simp [isWhiteSpace]
    omega
  · rfl

/-- Lower case changes capital letters of ASCII only. -/
def LowersAsAscii (t : Text) : Prop :=
  ∀ c ∈ t, c ≠ 0x3A3 ∧ c ≠ 0x130 ∧ simpleLower c = asciiLower c

theorem toLowerCase_of_lowersAsAscii [FinalSigma] {t : Text} (h : LowersAsAscii t) :
    toLowerCase t = toAsciiLowercase t := by
  suffices hgen : ∀ before, lowerFrom before t = toAsciiLowercase t from hgen []
  induction t with
  | nil => exact fun _ => rfl
  | cons c t ih =>
      intro before
      obtain ⟨hsigma, hdotted, hlower⟩ := h c List.mem_cons_self
      rw [lowerFrom, lowerCodePoint, if_neg hsigma, if_neg hdotted, hlower,
        ih fun d hd => h d (List.mem_cons_of_mem _ hd)]
      rfl

/-- Two beginnings of a text with the same lower case, one of ASCII and one of
all letters, are the same, and hold no capital letter that the two treat
differently. -/
theorem eq_of_toAsciiLowercase_eq [FinalSigma] {xs ys t : Text} (hxs : xs <+: t) (hys : ys <+: t)
    (h : toAsciiLowercase xs = toLowerCase ys) : xs = ys ∧ LowersAsAscii ys := by
  suffices hgen : ∀ before, toAsciiLowercase xs = lowerFrom before ys → xs = ys ∧ LowersAsAscii ys
    from hgen [] h
  clear h
  induction ys generalizing xs t with
  | nil =>
      intro before h
      exact ⟨List.map_eq_nil_iff.mp h, by simp [LowersAsAscii]⟩
  | cons d ys ih =>
      intro before h
      obtain ⟨rest, rfl⟩ := hys
      cases xs with
      | nil =>
          have hlower := List.append_eq_nil_iff.mp h.symm
          unfold lowerCodePoint at hlower
          split at hlower
          · simp at hlower
          · split at hlower <;> simp at hlower
      | cons c xs =>
          obtain ⟨rfl, hprefix⟩ := List.cons_prefix_cons.mp hxs
          rw [toAsciiLowercase, List.map_cons, lowerFrom, lowerCodePoint] at h
          -- the two letters with a lower case of their own keep it in ASCII lower case
          by_cases hsigma : c = 0x3A3
          · subst hsigma
            rw [if_pos rfl] at h
            have hhead : 0x3A3 = _ := (List.cons.inj h).1
            split at hhead <;> contradiction
          · by_cases hdotted : c = 0x130
            · subst hdotted
              rw [if_neg hsigma, if_pos rfl] at h
              have hhead : 0x130 = 0x69 := (List.cons.inj h).1
              contradiction
            · rw [if_neg hsigma, if_neg hdotted] at h
              obtain ⟨hhead, htail⟩ := List.cons.inj h
              obtain ⟨rfl, hys⟩ := ih hprefix (List.prefix_append ys rest) _ htail
              refine ⟨rfl, fun d hd => ?_⟩
              rcases List.mem_cons.mp hd with rfl | hd
              · exact ⟨hsigma, hdotted, hhead.symm⟩
              · exact hys d hd

/-- Lower case text holds no Kelvin sign. -/
theorem kelvin_notMem_toLowerCase [FinalSigma] (t : Text) : kelvin ∉ toLowerCase t := by
  intro h
  obtain ⟨c, -, b, a, hd⟩ := mem_lowerFrom h
  exact kelvin_notMem_lowerCodePoint hd

/-- Lower case creates no line feed. -/
theorem ten_mem_of_mem_toLowerCase [FinalSigma] {t : Text} (h : 10 ∈ toLowerCase t) : 10 ∈ t := by
  obtain ⟨c, hc, b, a, hd⟩ := mem_lowerFrom h
  rcases lt_of_mem_lowerCodePoint hd (by omega) with ⟨-, heq⟩ | ⟨-, heq⟩ | rfl
  · rwa [asciiLower_eq_ten.mp heq.symm] at hc
  · omega
  · have hk : lowerCodePoint b a kelvin = [0x6B] := by
      unfold lowerCodePoint
      rw [if_neg (by decide), if_neg (by decide), show simpleLower kelvin = 0x6B by decide +kernel]
    simp [hk] at hd

/-- Text without the Kelvin sign whose lower case is ASCII is ASCII itself. -/
theorem isAscii_of_toLowerCase [FinalSigma] {t : Text} (h : IsAscii (toLowerCase t))
    (hk : kelvin ∉ t) : IsAscii t := by
  suffices hgen : ∀ before, IsAscii (lowerFrom before t) → IsAscii t from hgen [] h
  clear h
  induction t with
  | nil => intro _ _ c hc; simp at hc
  | cons c t ih =>
      intro before h
      simp only [List.mem_cons, not_or] at hk
      have hc : c < 128 := by
        by_contra hge
        by_cases hi : c = 0x130
        · have hmem : 0x307 ∈ lowerCodePoint before t c := by simp [lowerCodePoint, hi]
          have hlt := h 0x307 (List.mem_append_left _ hmem)
          omega
        · obtain ⟨d, hd⟩ : ∃ d, d ∈ lowerCodePoint before t c := by
            unfold lowerCodePoint
            split
            · exact ⟨_, List.mem_cons_self⟩
            · exact ⟨_, List.mem_cons_self⟩
          have hlt := h d (List.mem_append_left _ hd)
          rcases lt_of_mem_lowerCodePoint hd hlt with ⟨hc, -⟩ | ⟨hc, -⟩ | hc
          · exact hge hc
          · exact hi hc
          · exact hk.1 hc.symm
      intro d hd
      rcases List.mem_cons.mp hd with rfl | hd
      · exact hc
      · exact ih hk.2 (c :: before) (fun x hx => h x (List.mem_append_right _ hx)) d hd

/-! ## UTF-16 -/

/-- The `length` of a text in JavaScript: the characters outside of the BMP count twice. -/
def utf16Length (t : Text) : Nat := t.length + t.countP (0x10000 ≤ ·)

/-! ## UTF-8 -/

/-- The scalar value a code point stands for in UTF-8: a lone surrogate becomes
the replacement character. -/
def toScalar (c : Nat) : Char := if h : c.isValidChar then Char.ofNatAux c h else '\uFFFD'

/-- The bytes of a text in UTF-8 (`as_bytes` of Rust, `TextEncoder` of the browser). -/
def encodeUtf8 (t : Text) : List UInt8 := t.flatMap fun c => String.utf8EncodeChar (toScalar c)

theorem encodeUtf8_append (xs ys : Text) : encodeUtf8 (xs ++ ys) = encodeUtf8 xs ++ encodeUtf8 ys :=
  List.flatMap_append

theorem encodeUtf8_cons (c : Nat) (t : Text) :
    encodeUtf8 (c :: t) = String.utf8EncodeChar (toScalar c) ++ encodeUtf8 t := rfl

/-- ASCII is encoded byte for byte. -/
theorem utf8EncodeChar_of_lt {c : Nat} (h : c < 128) :
    String.utf8EncodeChar (toScalar c) = [UInt8.ofNat c] := by
  have hv : c.isValidChar := .inl (by omega)
  have hval : (toScalar c).val.toNat = c := by
    rw [toScalar, dif_pos hv]
    rfl
  unfold String.utf8EncodeChar
  rw [hval, if_pos (by omega)]

/-- A byte below 128 is the encoding of an ASCII code point. -/
theorem eq_of_mem_utf8EncodeChar {c : Nat} {b : UInt8} (hb : b.toNat < 128)
    (h : b ∈ String.utf8EncodeChar (toScalar c)) : c < 128 ∧ b = UInt8.ofNat c := by
  by_cases hc : c < 128
  · rw [utf8EncodeChar_of_lt hc, List.mem_singleton] at h
    exact ⟨hc, h⟩
  · exfalso
    have hval : 128 ≤ (toScalar c).val.toNat := by
      by_cases hv : c.isValidChar
      · rw [toScalar, dif_pos hv]
        show 128 ≤ c
        omega
      · rw [toScalar, dif_neg hv]
        decide
    simp only [String.utf8EncodeChar] at h
    rw [if_neg (by omega)] at h
    split at h
    · simp only [List.mem_cons, List.not_mem_nil, or_false] at h
      rcases h with rfl | rfl <;> simp only [UInt8.toNat_ofNat'] at hb <;> omega
    · split at h <;> simp only [List.mem_cons, List.not_mem_nil, or_false] at h
      · rcases h with rfl | rfl | rfl <;> simp only [UInt8.toNat_ofNat'] at hb <;> omega
      · have hlt : (toScalar c).val.toNat < 0x110000 := by
          rcases (toScalar c).valid with h | h
          · exact Nat.lt_trans h (by decide)
          · exact h.2
        rcases h with rfl | rfl | rfl | rfl <;> simp only [UInt8.toNat_ofNat'] at hb <;> omega

/-- A text encoded in bytes below 128 is ASCII. -/
theorem isAscii_of_encodeUtf8 {t : Text} (h : ∀ b ∈ encodeUtf8 t, b.toNat < 128) : IsAscii t := by
  intro c hc
  obtain ⟨b, hb⟩ := List.exists_mem_of_ne_nil _ (String.utf8EncodeChar_ne_nil (c := toScalar c))
  exact (eq_of_mem_utf8EncodeChar (h b (List.mem_flatMap.mpr ⟨c, hc, hb⟩)) hb).1

theorem encodeUtf8_of_isAscii {t : Text} (h : IsAscii t) : encodeUtf8 t = t.map UInt8.ofNat := by
  induction t with
  | nil => rfl
  | cons c t ih =>
      rw [encodeUtf8_cons, utf8EncodeChar_of_lt (h c List.mem_cons_self),
        ih fun d hd => h d (List.mem_cons_of_mem _ hd)]
      rfl

/-- The line feed byte only comes from a line feed. -/
theorem ten_mem_encodeUtf8 {t : Text} : 10 ∈ encodeUtf8 t ↔ 10 ∈ t := by
  constructor
  · intro h
    obtain ⟨c, hc, hb⟩ := List.mem_flatMap.mp h
    obtain ⟨hlt, heq⟩ := eq_of_mem_utf8EncodeChar (by decide) hb
    have hten : c = 10 := by
      have := congrArg UInt8.toNat heq
      simp only [UInt8.toNat_ofNat'] at this
      have h10 : (10 : UInt8).toNat = 10 := rfl
      omega
    exact hten ▸ hc
  · intro h
    refine List.mem_flatMap.mpr ⟨10, h, ?_⟩
    rw [utf8EncodeChar_of_lt (by omega)]
    exact List.mem_singleton.mpr rfl

/-- An ASCII text is determined by its encoding, among all texts. -/
theorem eq_of_encodeUtf8_eq {s t : Text} (hs : IsAscii s) (h : encodeUtf8 t = encodeUtf8 s) :
    t = s := by
  have hbytes : ∀ b ∈ encodeUtf8 s, b.toNat < 128 := by
    rw [encodeUtf8_of_isAscii hs]
    intro b hb
    obtain ⟨c, hc, rfl⟩ := List.mem_map.mp hb
    have := hs c hc
    simp only [UInt8.toNat_ofNat']
    omega
  have ht : IsAscii t := isAscii_of_encodeUtf8 (h ▸ hbytes)
  rw [encodeUtf8_of_isAscii hs, encodeUtf8_of_isAscii ht] at h
  have hinv : ∀ {u : Text}, IsAscii u → (u.map UInt8.ofNat).map UInt8.toNat = u := by
    intro u hu
    rw [List.map_map]
    nth_rewrite 2 [← List.map_id u]
    refine List.map_congr_left fun c hc => ?_
    have := hu c hc
    simp only [Function.comp_apply, UInt8.toNat_ofNat', id_eq]
    omega
  rw [← hinv ht, h, hinv hs]

/-- A byte below 128 only comes from its code point. -/
theorem toNat_mem_of_mem_encodeUtf8 {t : Text} {b : UInt8} (hb : b.toNat < 128)
    (h : b ∈ encodeUtf8 t) : b.toNat ∈ t := by
  obtain ⟨c, hc, hb'⟩ := List.mem_flatMap.mp h
  obtain ⟨hlt, rfl⟩ := eq_of_mem_utf8EncodeChar hb hb'
  have hval : (UInt8.ofNat c).toNat = c := by
    rw [UInt8.toNat_ofNat']
    omega
  exact hval.symm ▸ hc

theorem map_toScalar {t : Text} (h : WellFormed t) :
    (t.map toScalar).map (fun c => c.val.toNat) = t := by
  rw [List.map_map]
  nth_rewrite 2 [← List.map_id t]
  refine List.map_congr_left fun c hc => ?_
  rw [Function.comp_apply, toScalar, dif_pos (h c hc)]
  rfl

/-- **A text without lone surrogates is determined by its encoding.** -/
theorem encodeUtf8_inj {s t : Text} (hs : WellFormed s) (ht : WellFormed t)
    (h : encodeUtf8 s = encodeUtf8 t) : s = t := by
  have hflat (u : Text) : encodeUtf8 u = (u.map toScalar).flatMap String.utf8EncodeChar := by
    rw [encodeUtf8, List.flatMap_map]
  have hbytes : (s.map toScalar).utf8Encode = (t.map toScalar).utf8Encode := by
    rw [List.utf8Encode, List.utf8Encode, ← hflat, ← hflat, h]
  have hdecode := congrArg ByteArray.utf8Decode? hbytes
  rw [List.utf8Decode?_utf8Encode, List.utf8Decode?_utf8Encode] at hdecode
  have hscalars : s.map toScalar = t.map toScalar :=
    congrArg Array.toList (Option.some.inj hdecode)
  rw [← map_toScalar hs, hscalars, map_toScalar ht]

end Unicode
