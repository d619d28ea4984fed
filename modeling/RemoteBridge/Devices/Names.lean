import RemoteBridge.Devices

/-!
# Devices.Names

What `clean_name` makes of a name.  It trims first, then drops control characters and
cuts: white space that was inside the name may come to stand at an end of the result.
-/

namespace RemoteBridge

open Unicode Fields

/-! ## Clean names -/

/-- A clean result: trimmed, no control characters, at most 40 characters, and nothing left to
clean.  A name that is nothing but white space and control characters gives the empty name, for
which the session takes a default. -/
structure CleansName (name : Text) : Prop where
  printable : ∀ c ∈ cleanName name, isControl c = false
  length_le : (cleanName name).length ≤ 40
  leading : ∀ c ∈ (cleanName name).head?, isWhiteSpace c = false
  trailing : ∀ c ∈ (cleanName name).getLast?, isWhiteSpace c = false
  again : cleanName (cleanName name) = cleanName name
  blank : (∀ c ∈ name, isWhiteSpace c ∨ isControl c) → cleanName name = []

/-- White space that dropping or cutting leaves at an end: a character of the trimmed name with
only control characters before it, or the 40th of the others, or an earlier one with only
control characters after it. -/
def Exposed (name : Text) : Prop :=
  ∃ before c after, trim isWhiteSpace name = before ++ c :: after ∧
    isWhiteSpace c ∧ isControl c = false ∧
    ((∀ x ∈ before, isControl x) ∨ (before.countP fun x => !isControl x) = 39 ∨
      (before.countP fun x => !isControl x) ≤ 39 ∧ ∀ x ∈ after, isControl x)

theorem isControl_of_mem_cleanName {name : Text} {c : Nat} (h : c ∈ cleanName name) :
    isControl c = false := by
  simpa using (List.mem_filter.mp (List.mem_of_mem_take h)).2

theorem length_cleanName_le (name : Text) : (cleanName name).length ≤ 40 := List.length_take_le ..

/-- A name without control characters that is short enough is trimmed, no more. -/
theorem cleanName_of_printable {name : Text} (hprint : ∀ c ∈ name, isControl c = false)
    (hlen : name.length ≤ 40) : cleanName name = trim isWhiteSpace name := by
  have hsub := trim_sublist isWhiteSpace name
  have hfilter : (trim isWhiteSpace name).filter (fun c => !isControl c) =
      trim isWhiteSpace name :=
    List.filter_eq_self.mpr fun c hc => by simp [hprint c (hsub.subset hc)]
  rw [cleanName, hfilter, List.take_of_length_le (hsub.length_le.trans hlen)]

theorem mem_of_mem_cleanName {name : Text} {c : Nat} (h : c ∈ cleanName name) : c ∈ name :=
  (trim_sublist isWhiteSpace name).subset (List.mem_filter.mp (List.mem_of_mem_take h)).1

/-- It is the two ends that matter. -/
theorem cleansName_iff_ends (name : Text) :
    CleansName name ↔ (∀ c ∈ (cleanName name).head?, isWhiteSpace c = false) ∧
      ∀ c ∈ (cleanName name).getLast?, isWhiteSpace c = false := by
  constructor
  · exact fun h => ⟨h.leading, h.trailing⟩
  · rintro ⟨hhead, hlast⟩
    have hprint : ∀ c ∈ cleanName name, isControl c = false :=
      fun c => isControl_of_mem_cleanName
    refine ⟨hprint, length_cleanName_le name, hhead, hlast, ?_, ?_⟩
    · rw [cleanName_of_printable hprint (length_cleanName_le name)]
      exact trim_eq_self_iff.mpr ⟨hhead, hlast⟩
    · intro hblank
      cases hclean : cleanName name with
      | nil => rfl
      | cons c rest =>
          have hc : c ∈ cleanName name := by simp [hclean]
          have hspace := hhead c (by simp [hclean])
          rcases hblank c (mem_of_mem_cleanName hc) with h | h
          · simp [h] at hspace
          · rw [hprint c hc] at h
            exact absurd h (by decide)

theorem head?_cleanName_eq_some_iff {name : Text} {c : Nat} :
    (cleanName name).head? = some c ↔
      ∃ before after, trim isWhiteSpace name = before ++ c :: after ∧ isControl c = false ∧
        ∀ x ∈ before, isControl x := by
  rw [cleanName, head?_take_filter_eq_some_iff]
  simp

theorem getLast?_cleanName_eq_some_iff {name : Text} {c : Nat} :
    (cleanName name).getLast? = some c ↔
      ∃ before after, trim isWhiteSpace name = before ++ c :: after ∧ isControl c = false ∧
        ((before.countP fun x => !isControl x) = 39 ∨
          (before.countP fun x => !isControl x) ≤ 39 ∧ ∀ x ∈ after, isControl x) := by
  rw [cleanName, getLast?_take_filter_eq_some_iff]
  simp

/-- White space is exposed if it stands at an end of the result. -/
theorem exposed_iff {name : Text} :
    Exposed name ↔ ∃ c, isWhiteSpace c ∧
      ((cleanName name).head? = some c ∨ (cleanName name).getLast? = some c) := by
  simp only [head?_cleanName_eq_some_iff, getLast?_cleanName_eq_some_iff]
  constructor
  · rintro ⟨before, c, after, htrim, hspace, hprint, hfirst | hcut⟩
    · exact ⟨c, hspace, .inl ⟨before, after, htrim, hprint, hfirst⟩⟩
    · exact ⟨c, hspace, .inr ⟨before, after, htrim, hprint, hcut⟩⟩
  · rintro ⟨c, hspace, hfirst | hend⟩
    · obtain ⟨before, after, htrim, hprint, hfirst⟩ := hfirst
      exact ⟨before, c, after, htrim, hspace, hprint, .inl hfirst⟩
    · obtain ⟨before, after, htrim, hprint, hcut⟩ := hend
      exact ⟨before, c, after, htrim, hspace, hprint, .inr hcut⟩

/-- **A name comes out clean** exactly where dropping control characters and cutting expose no
white space. -/
theorem cleansName_iff (name : Text) : CleansName name ↔ ¬ Exposed name := by
  rw [cleansName_iff_ends, exposed_iff]
  constructor
  · rintro ⟨hhead, hlast⟩ ⟨c, hspace, hfirst | hend⟩
    · rw [hhead c hfirst] at hspace
      contradiction
    · rw [hlast c hend] at hspace
      contradiction
  · intro hexposed
    constructor
    · intro c hc
      exact Bool.eq_false_iff.mpr fun hspace => hexposed ⟨c, hspace, .inl hc⟩
    · intro c hc
      exact Bool.eq_false_iff.mpr fun hspace => hexposed ⟨c, hspace, .inr hc⟩

/-- A bell, a blank and a bell: the blank is left, and is no empty name. -/
theorem bells_not_clean :
    cleanName [0x07, 0x20, 0x07] = [0x20] ∧ ¬ CleansName [0x07, 0x20, 0x07] := by
  have hblank : cleanName [0x07, 0x20, 0x07] = [0x20] := by decide
  refine ⟨hblank, fun h => ?_⟩
  have hempty := h.blank (by decide)
  rw [hblank] at hempty
  exact absurd hempty (by decide)

end RemoteBridge
