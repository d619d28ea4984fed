import RemoteBridge.Pairing.Page
import RemoteBridge.Readings

/-!
# Pairing.Agreement

When the host and the page read the same fingerprint from an SDP.  Both go through
its lines and take what each says; they differ in what they trim, in where the
value of a fingerprint line ends, and in how they lower it.
-/

namespace RemoteBridge.Pairing

open Fields Unicode

/-! ## The host -/

/-- What the host reads in a line, before lower case. -/
def readLine (line : Text) : Reading Text :=
  match List.dropPrefix? (trim isWhiteSpace line) fingerprintPrefix with
  | none => .other
  | some announced =>
      match splitOnce 0x20 announced with
      | none => .refused
      | some (algorithm, value) =>
          if ¬ EqIgnoreAsciiCase algorithm (text "sha-256") then .refused
          else .value (trim isWhiteSpace value)

theorem fingerprintFromLines_eq (found : Option Text) (ls : List Text) :
    fingerprintFromLines found ls =
      Reading.collect found (ls.map fun line => (readLine line).map toAsciiLowercase) := by
  induction ls generalizing found with
  | nil => rfl
  | cons line rest ih =>
      rw [fingerprintFromLines, List.map_cons, readLine]
      cases List.dropPrefix? (trim isWhiteSpace line) fingerprintPrefix with
      | none => exact ih found
      | some announced =>
          dsimp only
          cases splitOnce 0x20 announced with
          | none => rfl
          | some field =>
              obtain ⟨algorithm, value⟩ := field
              simp only [Option.bind_eq_bind, Option.bind_some]
              split
              · rfl
              · cases found with
                | none => exact ih _
                | some existing =>
                    by_cases hsame : existing = toAsciiLowercase (trim isWhiteSpace value)
                    · simp [hsame, ih, Reading.map, Reading.collect]
                    · simp [hsame, Reading.map, Reading.collect]

/-- The carriage return a line ends with is trimmed anyway. -/
theorem readLine_dropCarriageReturn (line : Text) :
    readLine (dropCarriageReturn line) = readLine line := by
  unfold dropCarriageReturn
  split
  · next hlast =>
    have hline : line.dropLast ++ [13] = line := List.dropLast_append_getLast? 13 hlast
    have htrim : trim isWhiteSpace line = trim isWhiteSpace line.dropLast := by
      rw [← hline, trim_concat (by decide), List.dropLast_concat]
    rw [readLine, readLine, htrim]
  · rfl

/-- The host reads the text between line feeds. -/
theorem fingerprintFromSdp_eq (sdp : Text) : fingerprintFromSdp sdp =
    Reading.collect none ((sdp.splitOn 0x0A).map fun line =>
      (readLine line).map toAsciiLowercase) := by
  rw [fingerprintFromSdp, fingerprintFromLines_eq, lines]
  rcases List.eq_nil_or_concat (sdp.splitOn 0x0A) with hnil | ⟨init, last, hpieces⟩
  · exact absurd hnil (List.splitOnP_ne_nil _ _)
  · rw [List.concat_eq_append] at hpieces
    simp only [hpieces, List.dropLast_concat, List.getLast?_concat, Option.toList_some,
      List.map_append, List.map_map]
    have hinit : (init.map ((fun line => (readLine line).map toAsciiLowercase) ∘
        dropCarriageReturn)) = init.map fun line => (readLine line).map toAsciiLowercase :=
      List.map_congr_left fun line _ =>
        congrArg (·.map toAsciiLowercase) (readLine_dropCarriageReturn line)
    rw [hinit]
    by_cases hlast : last = []
    · subst hlast
      exact (Reading.collect_append_other.trans (by simp)).symm
    · simp [hlast]

/-! ## The page -/

variable [FinalSigma]

/-- What the page reads in a line, before lower case. -/
def Page.readLine (line : Text) : Reading Text :=
  match List.dropPrefix? (trim isJsWhiteSpace line) fingerprintPrefix with
  | none => .other
  | some announced =>
      match announced.splitOn 0x20 with
      | algorithm :: value :: _ =>
          if value = [] ∨ toLowerCase algorithm ≠ text "sha-256" then .refused else .value value
      | _ => .refused

theorem Page.fingerprintFromSdp_eq (sdp : Text) : Page.fingerprintFromSdp sdp =
    Reading.collect none ((sdp.splitOn 0x0A).map fun line =>
      (Page.readLine line).map toLowerCase) := by
  suffices hgen : ∀ ls found, Page.fingerprintFromLines found ls =
      Reading.collect found (ls.map fun line => (Page.readLine line).map toLowerCase) from
    hgen _ none
  intro ls
  induction ls with
  | nil => exact fun _ => rfl
  | cons line rest ih =>
      intro found
      rw [Page.fingerprintFromLines, List.map_cons, Page.readLine]
      cases List.dropPrefix? (trim isJsWhiteSpace line) fingerprintPrefix with
      | none => exact ih found
      | some announced =>
          dsimp only
          rcases announced.splitOn 0x20 with _ | ⟨algorithm, _ | ⟨value, _⟩⟩
          · rfl
          · rfl
          · dsimp only
            split
            · rfl
            · cases found with
              | none => simpa [Reading.map, Reading.collect] using ih _
              | some existing =>
                  by_cases hsame : existing = toLowerCase value
                  · simp [hsame, ih, Reading.map, Reading.collect]
                  · simp [hsame, Reading.map, Reading.collect]

/-! ## One line, read by both -/

omit [FinalSigma] in
/-- The beginning of a line up to the prefix is the same for both. -/
theorem announced_inj {p q : Nat → Bool} {line xs ys : Text} (hp : p 0x61 = false)
    (hq : q 0x61 = false) (hxs : trim p line = fingerprintPrefix ++ xs)
    (hys : trim q line = fingerprintPrefix ++ ys) : ∃ s s', xs ++ s = ys ++ s' := by
  obtain ⟨first, last, hline, hfirst⟩ := exists_trim p line
  obtain ⟨first', last', hline', hfirst'⟩ := exists_trim q line
  have hcons : fingerprintPrefix = 0x61 :: text "=fingerprint:" := by decide
  have hnot : 0x61 ∉ first := fun hmem => by
    have := hfirst _ hmem
    rw [hp] at this
    contradiction
  have hnot' : 0x61 ∉ first' := fun hmem => by
    have := hfirst' _ hmem
    rw [hq] at this
    contradiction
  rw [hxs, hcons, List.append_assoc, List.cons_append] at hline
  rw [hys, hcons, List.append_assoc, List.cons_append, hline, append_cons_inj hnot hnot'] at hline'
  exact ⟨last, last', List.append_cancel_left hline'.2⟩

/-- The host reads a value in a line: the text after the first space, trimmed. -/
def HostValue (line value : Text) : Prop :=
  ∃ algorithm rest, trim isWhiteSpace line = fingerprintPrefix ++ (algorithm ++ 0x20 :: rest) ∧
    0x20 ∉ algorithm ∧ EqIgnoreAsciiCase algorithm (text "sha-256") ∧
    value = trim isWhiteSpace rest

/-- The page reads one: the text after the first space up to the next, if it is not empty. -/
def PageValue (line value : Text) : Prop :=
  ∃ algorithm rest,
    trim isJsWhiteSpace line = fingerprintPrefix ++ (algorithm ++ 0x20 :: (value ++ rest)) ∧
    0x20 ∉ algorithm ∧ 0x20 ∉ value ∧ (∀ c ∈ rest.head?, c = 0x20) ∧ value ≠ [] ∧
    toLowerCase algorithm = text "sha-256"

omit [FinalSigma] in
theorem readLine_eq_other {line : Text} :
    readLine line = .other ↔ ¬ fingerprintPrefix <+: trim isWhiteSpace line := by
  rw [← dropPrefix?_eq_none_iff, readLine]
  cases List.dropPrefix? (trim isWhiteSpace line) fingerprintPrefix with
  | none => simp
  | some announced =>
      refine iff_of_false ?_ (Option.some_ne_none _)
      dsimp only
      split
      · nofun
      · split <;> nofun

omit [FinalSigma] in
theorem readLine_eq_value {line value : Text} :
    readLine line = .value value ↔ HostValue line value := by
  constructor
  · intro h
    unfold readLine at h
    split at h
    · contradiction
    · next announced hannounced =>
      have hline := dropPrefix?_eq_some_iff.mp hannounced
      split at h
      · contradiction
      · next algorithm rest hfield =>
        obtain ⟨rfl, hnot⟩ := splitOnce_eq_some_iff.mp hfield
        split at h
        · contradiction
        · next hsha =>
          exact ⟨algorithm, rest, hline, hnot, not_not.mp hsha, (Reading.value.inj h).symm⟩
  · rintro ⟨algorithm, rest, hline, hnot, hsha, rfl⟩
    have hdrop := dropPrefix?_eq_some_iff.mpr hline
    have hsplit : splitOnce 0x20 (algorithm ++ 0x20 :: rest) = some (algorithm, rest) :=
      splitOnce_eq_some_iff.mpr ⟨rfl, hnot⟩
    simp [readLine, hdrop, hsplit, hsha]

theorem Page.readLine_eq_other {line : Text} :
    Page.readLine line = .other ↔ ¬ fingerprintPrefix <+: trim isJsWhiteSpace line := by
  rw [← dropPrefix?_eq_none_iff, readLine]
  cases List.dropPrefix? (trim isJsWhiteSpace line) fingerprintPrefix with
  | none => simp
  | some announced =>
      refine iff_of_false ?_ (Option.some_ne_none _)
      dsimp only
      split
      · split <;> nofun
      · nofun

theorem Page.readLine_eq_value {line value : Text} :
    Page.readLine line = .value value ↔ PageValue line value := by
  constructor
  · intro h
    unfold Page.readLine at h
    split at h
    · contradiction
    · next announced hannounced =>
      have hline := dropPrefix?_eq_some_iff.mp hannounced
      split at h
      · next algorithm value' rest hpieces =>
        obtain ⟨hnot, hvalue, l', rfl, hhead⟩ := splitOn_eq_cons_cons_iff.mp ⟨rest, hpieces⟩
        split at h
        · contradiction
        · next hread =>
          obtain rfl := Reading.value.inj h
          obtain ⟨hne, hsha⟩ := not_or.mp hread
          exact ⟨algorithm, l', hline, hnot, hvalue, hhead, hne, not_not.mp hsha⟩
      · contradiction
  · rintro ⟨algorithm, rest, hline, hnot, hvalue, hhead, hne, hsha⟩
    have hdrop := dropPrefix?_eq_some_iff.mpr hline
    obtain ⟨pieces, hsplit⟩ := splitOn_eq_cons_cons_iff.mpr ⟨hnot, hvalue, rest, rfl, hhead⟩
    simp [Page.readLine, hdrop, hsplit, hne, hsha]

/-- What the page reads begins the text after the first space, and so does what
the host reads but for white space. -/
theorem exists_rest {line xs ys : Text} (hxs : readLine line = .value xs)
    (hys : Page.readLine line = .value ys) :
    ∃ rest first, ys <+: rest ∧ first ++ xs <+: rest ∧ (∀ c ∈ first, isWhiteSpace c) ∧
      (∀ c xs', xs = c :: xs' → isWhiteSpace c = false) ∧ ys ≠ [] := by
  obtain ⟨algorithm, rest, hline, hnot, -, rfl⟩ := readLine_eq_value.mp hxs
  obtain ⟨algorithm', rest', hline', hnot', -, -, hne, -⟩ := Page.readLine_eq_value.mp hys
  obtain ⟨s, s', hs⟩ := announced_inj (by decide) (by decide) hline hline'
  rw [List.append_assoc, List.append_assoc, List.cons_append, List.cons_append,
    append_cons_inj hnot hnot'] at hs
  obtain ⟨first, last, hrest, hfirst⟩ := exists_trim isWhiteSpace rest
  refine ⟨rest ++ s, first, ?_, ?_, hfirst, fun c xs' h => not_of_trim_eq_cons h, hne⟩
  · rw [hs.2, List.append_assoc]
    exact List.prefix_append _ _
  · refine ⟨last ++ s, ?_⟩
    conv_rhs => rw [hrest]
    simp

/-- Both read a line alike: neither takes it for a fingerprint line, both refuse
it, or they read the same value, in which no letter outside ASCII has another
lower case. -/
def Alike (line : Text) : Prop :=
  readLine line = Page.readLine line ∧
    ∀ value, readLine line = .value value → LowersAsAscii value

/-- **A line says the same to both** exactly if they read it alike. -/
theorem alike_iff {line : Text} :
    (readLine line).map toAsciiLowercase = (Page.readLine line).map toLowerCase ↔ Alike line := by
  constructor
  · intro h
    cases hhost : readLine line with
    | other =>
        rw [hhost] at h
        cases hpage : Page.readLine line with
        | other => exact ⟨by rw [hhost, hpage], by simp [hhost]⟩
        | _ => simp [hpage, Reading.map] at h
    | refused =>
        rw [hhost] at h
        cases hpage : Page.readLine line with
        | refused => exact ⟨by rw [hhost, hpage], by simp [hhost]⟩
        | _ => simp [hpage, Reading.map] at h
    | value xs =>
        rw [hhost] at h
        cases hpage : Page.readLine line with
        | value ys =>
            rw [hpage] at h
            have hlower := Reading.value.inj h
            obtain ⟨rest, first, hys, hxs, hfirst, hhead, hne⟩ := exists_rest hhost hpage
            obtain ⟨d, ys', rfl⟩ := List.exists_cons_of_ne_nil hne
            cases first with
            | nil =>
                obtain ⟨rfl, hascii⟩ := eq_of_toAsciiLowercase_eq hxs hys hlower
                refine ⟨by rw [hhost, hpage], fun value hvalue => ?_⟩
                obtain rfl := Reading.value.inj (hhost.symm.trans hvalue)
                exact hascii
            | cons c first =>
                -- the page's value begins with white space, the host's does not
                have hwhite := hfirst c List.mem_cons_self
                obtain ⟨rest', rfl⟩ := hys
                obtain ⟨rfl, -⟩ := List.cons_prefix_cons.mp hxs
                rw [toLowerCase, lowerFrom, lowerCodePoint_of_isWhiteSpace hwhite] at hlower
                cases xs with
                | nil => contradiction
                | cons x xs' =>
                    have hx : asciiLower x = c := (List.cons.inj hlower).1
                    rw [← hx, isWhiteSpace_asciiLower, hhead x xs' rfl] at hwhite
                    contradiction
        | _ => simp [hpage, Reading.map] at h
  · rintro ⟨hsame, hascii⟩
    rw [← hsame]
    cases hhost : readLine line with
    | other | refused => rfl
    | value value =>
        rw [Reading.map, Reading.map, toLowerCase_of_lowersAsAscii (hascii value hhost)]

/-- **Alike, on the text**: the prefix begins the trimmed line for neither; or for both, and
neither finds a value; or what follows the first space is the same whether it is trimmed or
ends at the next space, and no letter outside ASCII in it has another lower case. -/
theorem alike_iff_text {line : Text} : Alike line ↔
    (¬ fingerprintPrefix <+: trim isWhiteSpace line ∧
      ¬ fingerprintPrefix <+: trim isJsWhiteSpace line) ∨
    ((fingerprintPrefix <+: trim isWhiteSpace line ∧
      fingerprintPrefix <+: trim isJsWhiteSpace line) ∧
      (∀ value, ¬ HostValue line value) ∧ ∀ value, ¬ PageValue line value) ∨
    ∃ value, HostValue line value ∧ PageValue line value ∧ LowersAsAscii value := by
  simp only [← readLine_eq_value, ← Page.readLine_eq_value]
  rw [← readLine_eq_other, ← Page.readLine_eq_other, ← not_not (a := _ <+: trim isWhiteSpace line),
    ← not_not (a := _ <+: trim isJsWhiteSpace line), ← readLine_eq_other, ← Page.readLine_eq_other,
    Alike]
  cases readLine line with
  | other | refused => cases Page.readLine line <;> simp
  | value xs =>
      cases Page.readLine line with
      | other | refused => simp
      | value ys =>
          rw [Reading.value.injEq]
          constructor
          · rintro ⟨rfl, hascii⟩
            exact .inr (.inr ⟨xs, rfl, rfl, hascii xs rfl⟩)
          · rintro (⟨hother, -⟩ | ⟨-, hnone, -⟩ | ⟨value, hxs, hys, hascii⟩)
            · contradiction
            · exact absurd rfl (hnone xs)
            · obtain rfl := Reading.value.inj hxs
              obtain rfl := Reading.value.inj hys
              exact ⟨rfl, fun value hvalue => Reading.value.inj hvalue ▸ hascii⟩

/-! ## The whole text -/

/-- One of the two passes over the line, and reads in another what the other one
reads in this. -/
def Repeats (sdp line : Text) : Prop :=
  (readLine line = .other ∧ ∃ value, Page.readLine line = .value value ∧
      ∃ line' ∈ sdp.splitOn 0x0A, ∃ value', readLine line' = .value value' ∧
        toAsciiLowercase value' = toLowerCase value) ∨
    Page.readLine line = .other ∧ ∃ value, readLine line = .value value ∧
      ∃ line' ∈ sdp.splitOn 0x0A, ∃ value', Page.readLine line' = .value value' ∧
        toLowerCase value' = toAsciiLowercase value

/-- The host finds no fingerprint line, one it refuses, or two that differ. -/
def HostRefuses (sdp : Text) : Prop :=
  Reading.Refused ((sdp.splitOn 0x0A).map fun line => (readLine line).map toAsciiLowercase)

/-- The page finds no fingerprint line, one it refuses, or two that differ. -/
def PageRefuses (sdp : Text) : Prop :=
  Reading.Refused ((sdp.splitOn 0x0A).map fun line => (Page.readLine line).map toLowerCase)

/-- A line that the page takes for one with this value, and that is alike or
repeats another, has its value in a line of the host's as well. -/
theorem exists_host_of_page {sdp line fp : Text} (hline : line ∈ sdp.splitOn 0x0A)
    (h : Alike line ∨ Repeats sdp line) (hpage : (Page.readLine line).map toLowerCase = .value fp) :
    ∃ line' ∈ sdp.splitOn 0x0A, (readLine line').map toAsciiLowercase = .value fp := by
  rcases h with halike | ⟨-, value, hvalue, line', hline', value', hvalue', hlower⟩ | ⟨hother, -⟩
  · exact ⟨line, hline, (alike_iff.mpr halike).trans hpage⟩
  · refine ⟨line', hline', ?_⟩
    rw [hvalue, Reading.map] at hpage
    rw [hvalue', Reading.map, hlower]
    exact hpage
  · rw [hother] at hpage
    contradiction

theorem exists_page_of_host {sdp line fp : Text} (hline : line ∈ sdp.splitOn 0x0A)
    (h : Alike line ∨ Repeats sdp line)
    (hhost : (readLine line).map toAsciiLowercase = .value fp) :
    ∃ line' ∈ sdp.splitOn 0x0A, (Page.readLine line').map toLowerCase = .value fp := by
  rcases h with halike | ⟨hother, -⟩ | ⟨-, value, hvalue, line', hline', value', hvalue', hlower⟩
  · exact ⟨line, hline, (alike_iff.mpr halike).symm.trans hhost⟩
  · rw [hother] at hhost
    contradiction
  · refine ⟨line', hline', ?_⟩
    rw [hvalue, Reading.map] at hhost
    rw [hvalue', Reading.map, hlower]
    exact hhost

/-- A line one of them refuses, that is alike or repeats another, is refused by
both. -/
theorem refused_iff {sdp line : Text} (h : Alike line ∨ Repeats sdp line) :
    (readLine line).map toAsciiLowercase = .refused ↔
      (Page.readLine line).map toLowerCase = .refused := by
  rcases h with halike | ⟨hother, value, hvalue, -⟩ | ⟨hother, value, hvalue, -⟩
  · rw [alike_iff.mpr halike]
  · simp [hother, hvalue, Reading.map]
  · simp [hother, hvalue, Reading.map]

/-- Where both read this value, a line of the text is alike or repeats another. -/
theorem alike_or_repeats {sdp line fp : Text}
    (hhost : ∃ line' ∈ sdp.splitOn 0x0A, (readLine line').map toAsciiLowercase = .value fp)
    (hpage : ∃ line' ∈ sdp.splitOn 0x0A, (Page.readLine line').map toLowerCase = .value fp)
    (h : (readLine line).map toAsciiLowercase = .other ∨
      (readLine line).map toAsciiLowercase = .value fp)
    (h' : (Page.readLine line).map toLowerCase = .other ∨
      (Page.readLine line).map toLowerCase = .value fp) : Alike line ∨ Repeats sdp line := by
  have hother : ∀ {r : Reading Text} {f : Text → Text}, r.map f = .other → r = .other := by
    intro r f hr
    cases r with
    | other => rfl
    | _ => contradiction
  rcases h with h | h <;> rcases h' with h' | h'
  · exact .inl (alike_iff.mp (h.trans h'.symm))
  · obtain ⟨line', hline', hvalue'⟩ := hhost
    obtain ⟨value', hvalue', hlower'⟩ := Reading.map_eq_value.mp hvalue'
    obtain ⟨value, hvalue, hlower⟩ := Reading.map_eq_value.mp h'
    exact .inr (.inl ⟨hother h, value, hvalue, line', hline', value', hvalue',
      hlower'.trans hlower.symm⟩)
  · obtain ⟨line', hline', hvalue'⟩ := hpage
    obtain ⟨value', hvalue', hlower'⟩ := Reading.map_eq_value.mp hvalue'
    obtain ⟨value, hvalue, hlower⟩ := Reading.map_eq_value.mp h
    exact .inr (.inr ⟨hother h', value, hvalue, line', hline', value', hvalue',
      hlower'.trans hlower.symm⟩)
  · exact .inl (alike_iff.mp (h.trans h'.symm))

/-- **Host and page read the same fingerprint from an SDP** exactly if both refuse
it, or each of its lines is read alike by both or repeats what another says. -/
theorem fingerprintFromSdp_eq_iff (sdp : Text) :
    fingerprintFromSdp sdp = Page.fingerprintFromSdp sdp ↔
      (HostRefuses sdp ∧ PageRefuses sdp) ∨
        ∀ line ∈ sdp.splitOn 0x0A, Alike line ∨ Repeats sdp line := by
  rw [fingerprintFromSdp_eq, Page.fingerprintFromSdp_eq]
  constructor
  · intro h
    cases hhost : Reading.collect none
        ((sdp.splitOn 0x0A).map fun line => (readLine line).map toAsciiLowercase) with
    | none =>
        rw [hhost] at h
        exact .inl ⟨Reading.collect_eq_none_iff.mp hhost, Reading.collect_eq_none_iff.mp h.symm⟩
    | some fp =>
        rw [hhost] at h
        obtain ⟨hmem, hall⟩ := Reading.collect_eq_some_iff.mp hhost
        obtain ⟨hmem', hall'⟩ := Reading.collect_eq_some_iff.mp h.symm
        refine .inr fun line hline => ?_
        exact alike_or_repeats (List.mem_map.mp hmem) (List.mem_map.mp hmem')
          (hall _ (List.mem_map_of_mem hline)) (hall' _ (List.mem_map_of_mem hline))
  · rintro (⟨hhost, hpage⟩ | hlines)
    · rw [Reading.collect_eq_none_iff.mpr hhost, Reading.collect_eq_none_iff.mpr hpage]
    · refine Reading.collect_congr fun r hr => ?_
      simp only [List.mem_map]
      constructor
      · rintro ⟨line, hline, hread⟩
        cases r with
        | other => contradiction
        | refused => exact ⟨line, hline, (refused_iff (hlines line hline)).mp hread⟩
        | value fp => exact exists_page_of_host hline (hlines line hline) hread
      · rintro ⟨line, hline, hread⟩
        cases r with
        | other => contradiction
        | refused => exact ⟨line, hline, (refused_iff (hlines line hline)).mpr hread⟩
        | value fp => exact exists_host_of_page hline (hlines line hline) hread

omit [FinalSigma] in
/-- With a second space before the value the host reads it, and the page refuses
the line. -/
theorem fingerprintFromSdp_two_spaces :
    letI : FinalSigma := ⟨fun _ _ => false⟩
    fingerprintFromSdp (text "a=fingerprint:sha-256  AB:CD") = some (text "ab:cd") ∧
      Page.fingerprintFromSdp (text "a=fingerprint:sha-256  AB:CD") = none := by
  decide +kernel

end RemoteBridge.Pairing
