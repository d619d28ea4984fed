import RemoteBridge.Pairing.Agreement

/-!
# Pairing.Accepted

The SDPs the host accepts: those whose fingerprint lines all name one value.  What
is accepted does not depend on anything else in the text.
-/

namespace RemoteBridge.Pairing

open Fields Unicode

variable {line line' v : Text}

/-! ## Fingerprint lines -/

/-- A line that, trimmed, starts with the prefix. -/
def IsFingerprintLine (line : Text) : Prop := fingerprintPrefix <+: trim isWhiteSpace line

instance (line : Text) : Decidable (IsFingerprintLine line) :=
  inferInstanceAs (Decidable (_ <+: _))

/-- A fingerprint line with a space after the algorithm, which is sha-256 up to
case, and `v` after the space: trimmed and in ASCII lower case. -/
def Names (line v : Text) : Prop :=
  ∃ algorithm value, trim isWhiteSpace line = fingerprintPrefix ++ (algorithm ++ 0x20 :: value) ∧
    EqIgnoreAsciiCase algorithm (text "sha-256") ∧ toAsciiLowercase (trim isWhiteSpace value) = v

/-- An SDP with a fingerprint line, all of whose fingerprint lines name `v`. -/
def Agreed (sdp v : Text) : Prop :=
  (∃ line ∈ lines sdp, IsFingerprintLine line) ∧
    ∀ line ∈ lines sdp, IsFingerprintLine line → Names line v

theorem Names.isFingerprintLine (h : Names line v) : IsFingerprintLine line := by
  obtain ⟨algorithm, value, hline, -⟩ := h
  exact ⟨_, hline.symm⟩

/-- The name of the algorithm holds no space. -/
theorem notMem_algorithm {algorithm : Text} (h : EqIgnoreAsciiCase algorithm (text "sha-256")) :
    0x20 ∉ algorithm := by
  intro hmem
  have hlower : asciiLower 0x20 ∈ toAsciiLowercase algorithm := List.mem_map_of_mem hmem
  rw [h] at hlower
  exact absurd hlower (by decide)

/-! ## What the host reads -/

/-- What the host reads in a line, in lower case. -/
def reading (line : Text) : Reading Text := (readLine line).map toAsciiLowercase

theorem fingerprintFromSdp_eq_collect (sdp : Text) :
    fingerprintFromSdp sdp = Reading.collect none ((lines sdp).map reading) :=
  fingerprintFromLines_eq none (lines sdp)

theorem reading_eq_other : reading line = .other ↔ ¬ IsFingerprintLine line := by
  rw [IsFingerprintLine, ← readLine_eq_other, reading]
  cases readLine line <;> simp [Reading.map]

theorem reading_eq_value : reading line = .value v ↔ Names line v := by
  rw [reading, Reading.map_eq_value]
  constructor
  · rintro ⟨value, hvalue, rfl⟩
    obtain ⟨algorithm, rest, hline, -, hsha, rfl⟩ := readLine_eq_value.mp hvalue
    exact ⟨algorithm, rest, hline, hsha, rfl⟩
  · rintro ⟨algorithm, rest, hline, hsha, rfl⟩
    exact ⟨_, readLine_eq_value.mpr ⟨algorithm, rest, hline, notMem_algorithm hsha, hsha, rfl⟩, rfl⟩

theorem Names.unique {w : Text} (h : Names line v) (h' : Names line w) : v = w := by
  rw [← reading_eq_value] at h h'
  exact Reading.value.inj (h.symm.trans h')

/-- What a line of a text names holds no line break. -/
theorem Names.ten_notMem {sdp : Text} (h : Names line v) (hline : line ∈ lines sdp) : 0x0A ∉ v := by
  obtain ⟨algorithm, value, htrim, -, rfl⟩ := h
  rw [ten_mem_toAsciiLowercase]
  intro hten
  have hvalue : 0x0A ∈ value := (trim_sublist isWhiteSpace value).subset hten
  have hmem : 0x0A ∈ trim isWhiteSpace line := by
    rw [htrim]
    simp [hvalue]
  exact ten_notMem_of_mem_lines hline ((trim_sublist isWhiteSpace line).subset hmem)

theorem agreed_iff {sdp : Text} : fingerprintFromSdp sdp = some v ↔ Agreed sdp v := by
  have hline (line : Text) : reading line = .other ∨ reading line = .value v ↔
      (IsFingerprintLine line → Names line v) := by
    rw [reading_eq_other, reading_eq_value, imp_iff_not_or]
  rw [fingerprintFromSdp_eq_collect, Reading.collect_eq_some_iff, List.mem_map,
    List.forall_mem_map]
  simp only [hline]
  simp only [reading_eq_value]
  constructor
  · rintro ⟨⟨line, hmem, hnames⟩, hall⟩
    exact ⟨⟨line, hmem, hnames.isFingerprintLine⟩, hall⟩
  · rintro ⟨⟨line, hmem, hfp⟩, hall⟩
    exact ⟨⟨line, hmem, hall line hmem hfp⟩, hall⟩

/-! ## What makes no difference -/

/-- Two texts with the same fingerprint lines, in any order and number. -/
theorem fingerprintFromSdp_congr {sdp sdp' : Text}
    (h : ∀ line, IsFingerprintLine line → (line ∈ lines sdp ↔ line ∈ lines sdp')) :
    fingerprintFromSdp sdp = fingerprintFromSdp sdp' := by
  rw [fingerprintFromSdp_eq_collect, fingerprintFromSdp_eq_collect]
  refine Reading.collect_congr fun r hr => ?_
  simp only [List.mem_map]
  refine exists_congr fun line => and_congr_left fun hread => h line ?_
  by_contra hnot
  exact hr (hread.symm.trans (reading_eq_other.mpr hnot))

/-- Lines, each with its ending: CRLF or LF. -/
def withEndings (ls : List (Text × Bool)) : Text :=
  ls.flatMap fun l => l.1 ++ if l.2 then text "\r\n" else text "\n"

theorem fingerprintFromSdp_withEndings {ls : List (Text × Bool)} (hls : ∀ l ∈ ls, 0x0A ∉ l.1)
    (last : Text) : fingerprintFromSdp (withEndings ls ++ last) =
      Reading.collect none ((ls.map Prod.fst ++ last.splitOn 0x0A).map reading) := by
  rw [fingerprintFromSdp_eq]
  refine congrArg (Reading.collect none) ?_
  change List.map reading _ = _
  induction ls with
  | nil => rfl
  | cons l ls ih =>
      obtain ⟨line, crlf⟩ := l
      have hline : 0x0A ∉ line := hls _ List.mem_cons_self
      have hrest := ih fun l hl => hls l (List.mem_cons_of_mem _ hl)
      have hlf : text "\n" = [0x0A] := rfl
      have hcrlf : text "\r\n" = [0x0D, 0x0A] := rfl
      rw [withEndings, List.flatMap_cons, ← withEndings, List.append_assoc]
      cases crlf with
      | false =>
          rw [if_neg Bool.false_ne_true, hlf, List.append_assoc, List.singleton_append,
            List.splitOn_append_cons_self_of_not_mem hline, List.map_cons, hrest]
          rfl
      | true =>
          have hreturn : 0x0A ∉ line ++ [0x0D] := by simp [hline]
          have hread : reading (line ++ [0x0D]) = reading line := by
            have hdrop := readLine_dropCarriageReturn (line ++ [0x0D])
            rw [dropCarriageReturn, if_pos (by simp), List.dropLast_concat] at hdrop
            rw [reading, ← hdrop, ← reading]
          have hsplit : line ++ text "\r\n" ++ (withEndings ls ++ last) =
              (line ++ [0x0D]) ++ 0x0A :: (withEndings ls ++ last) := by simp [hcrlf]
          rw [if_pos rfl, hsplit, List.splitOn_append_cons_self_of_not_mem hreturn, List.map_cons,
            hrest, hread]
          rfl

/-- Two lines that differ in the case of ASCII letters only, not in that of the
prefix that makes a fingerprint line. -/
def SameButForCase (line line' : Text) : Prop :=
  toAsciiLowercase line = toAsciiLowercase line' ∧
    (IsFingerprintLine line ↔ IsFingerprintLine line')

theorem SameButForCase.symm (h : SameButForCase line line') : SameButForCase line' line :=
  ⟨h.1.symm, h.2.symm⟩

theorem trim_toAsciiLowercase (t : Text) :
    trim isWhiteSpace (toAsciiLowercase t) = toAsciiLowercase (trim isWhiteSpace t) := by
  have hspace : isWhiteSpace ∘ asciiLower = isWhiteSpace := funext isWhiteSpace_asciiLower
  rw [toAsciiLowercase, trim_map, hspace]
  rfl

/-- A line and the same line in another case name the same. -/
theorem Names.of_sameButForCase (h : Names line v) (hcase : SameButForCase line line') :
    Names line' v := by
  obtain ⟨announced', hline'⟩ := hcase.2.mp h.isFingerprintLine
  obtain ⟨algorithm, value, hline, hsha, rfl⟩ := h
  have hlower : toAsciiLowercase (trim isWhiteSpace line') =
      toAsciiLowercase (trim isWhiteSpace line) := by
    rw [← trim_toAsciiLowercase, ← trim_toAsciiLowercase, hcase.1]
  rw [hline, ← hline', toAsciiLowercase, toAsciiLowercase, List.map_append, List.map_append,
    List.append_cancel_left_eq, List.map_append, List.map_cons,
    List.map_eq_append_iff] at hlower
  obtain ⟨algorithm', rest', rfl, halgorithm, hrest⟩ := hlower
  obtain ⟨space, value', rfl, hspace, hvalue⟩ := List.map_eq_cons_iff.mp hrest
  have hspace : space = 0x20 := by
    have hlower20 : asciiLower 0x20 = 0x20 := rfl
    rw [hlower20, asciiLower] at hspace
    split at hspace <;> omega
  subst hspace
  refine ⟨algorithm', value', hline'.symm, ?_, ?_⟩
  · exact halgorithm.trans hsha
  · rw [← trim_toAsciiLowercase, ← trim_toAsciiLowercase]
    exact congrArg _ hvalue

theorem reading_congr (h : SameButForCase line line') : reading line = reading line' := by
  have hother : reading line = .other ↔ reading line' = .other := by
    rw [reading_eq_other, reading_eq_other, h.2]
  have hvalue (v : Text) : reading line = .value v ↔ reading line' = .value v := by
    rw [reading_eq_value, reading_eq_value]
    exact ⟨fun hv => hv.of_sameButForCase h, fun hv => hv.of_sameButForCase h.symm⟩
  exact Reading.eq_of_iff hother hvalue

theorem map_reading_congr {ls ls' : List Text} (h : List.Forall₂ SameButForCase ls ls') :
    ls.map reading = ls'.map reading := by
  induction h with
  | nil => rfl
  | cons hhead _ ih => rw [List.map_cons, List.map_cons, reading_congr hhead, ih]

/-! ## The SDPs accepted -/

/-- **The host accepts exactly the SDPs with one agreed fingerprint**: whatever
else they hold, in whatever order and number the lines come, however they end and
whichever case they are in. -/
theorem fingerprintFromSdp_accepts :
    (∀ sdp v, fingerprintFromSdp sdp = some v ↔ Agreed sdp v) ∧
    (∀ sdp sdp', (∀ line, IsFingerprintLine line → (line ∈ lines sdp ↔ line ∈ lines sdp')) →
      fingerprintFromSdp sdp = fingerprintFromSdp sdp') ∧
    (∀ ls ls' last, (∀ l ∈ ls, 0x0A ∉ l.1) → ls.map Prod.fst = ls'.map Prod.fst →
      fingerprintFromSdp (withEndings ls ++ last) = fingerprintFromSdp (withEndings ls' ++ last)) ∧
    (∀ sdp sdp', List.Forall₂ SameButForCase (lines sdp) (lines sdp') →
      fingerprintFromSdp sdp = fingerprintFromSdp sdp') ∧
    ∀ sdp v, fingerprintFromSdp sdp = some v → 0x0A ∉ v ∧
      ∀ line ∈ lines sdp, IsFingerprintLine line → Names line v ∧ ∀ w, Names line w → w = v := by
  refine ⟨fun sdp v => agreed_iff, fun sdp sdp' => fingerprintFromSdp_congr, ?_, ?_, ?_⟩
  · intro ls ls' last hls hsame
    have hls' : ∀ l ∈ ls', 0x0A ∉ l.1 := by
      intro l hl
      have hmem : l.1 ∈ ls.map Prod.fst := hsame ▸ List.mem_map_of_mem hl
      obtain ⟨l₀, hl₀, heq⟩ := List.mem_map.mp hmem
      exact heq ▸ hls l₀ hl₀
    rw [fingerprintFromSdp_withEndings hls, fingerprintFromSdp_withEndings hls', hsame]
  · intro sdp sdp' hcase
    rw [fingerprintFromSdp_eq_collect, fingerprintFromSdp_eq_collect]
    rw [map_reading_congr hcase]
  · intro sdp v hv
    obtain ⟨⟨line, hline, hfp⟩, hall⟩ := agreed_iff.mp hv
    refine ⟨?_, fun line hline hfp => ⟨hall line hline hfp, fun w hw => ?_⟩⟩
    · exact (hall line hline hfp).ten_notMem hline
    · exact hw.unique (hall line hline hfp)

end RemoteBridge.Pairing
