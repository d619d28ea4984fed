import Mathlib.Data.List.DropRight

/-!
# Fields

Cutting a sequence of symbols into lines and fields: splitting at a separator,
splitting once, trimming, and joining unambiguously.  Stated over any alphabet;
the standard library's `List.splitOn` is the splitting itself.
-/

namespace Fields

variable {α : Type*} [BEq α] [LawfulBEq α] {sep : α} {l xs xs' ys ys' : List α}

/-! ## Splitting -/

/-- The pieces of a split do not contain the separator. -/
theorem notMem_of_mem_splitOn {piece : List α} (h : piece ∈ l.splitOn sep) : sep ∉ piece := by
  induction l generalizing piece with
  | nil =>
      simp only [List.splitOn_nil, List.mem_singleton] at h
      simp [h]
  | cons x l ih =>
      obtain ⟨first, rest, hl⟩ := List.exists_cons_of_ne_nil (List.splitOnP_ne_nil (· == sep) l)
      rw [List.splitOn, hl] at ih
      rw [List.splitOn, List.splitOnP_cons_eq_if_modifyHead, hl] at h
      by_cases hx : x == sep
      · rw [if_pos hx, List.mem_cons] at h
        rcases h with rfl | h
        · simp
        · exact ih h
      · rw [if_neg hx, List.modifyHead_cons, List.mem_cons] at h
        rcases h with rfl | h
        · simp only [List.mem_cons, not_or]
          exact ⟨fun heq => hx (by simp [heq]), ih (List.mem_cons_self ..)⟩
        · exact ih (List.mem_cons_of_mem _ h)

/-- The pieces of a split are made of the symbols of the whole. -/
theorem mem_of_mem_splitOn {piece : List α} {x : α} (h : piece ∈ l.splitOn sep) (hx : x ∈ piece) :
    x ∈ l := by
  rw [show l = [sep].intercalate (l.splitOn sep) from (List.intercalate_splitOn sep).symm]
  generalize l.splitOn sep = pieces at h
  induction pieces with
  | nil => simp at h
  | cons first rest ih =>
      cases rest with
      | nil =>
          obtain rfl := List.mem_singleton.mp h
          simpa using hx
      | cons second rest =>
          rw [List.intercalate_cons_cons, List.append_assoc, List.mem_append, List.mem_append]
          rcases List.mem_cons.mp h with rfl | h
          · exact .inl hx
          · exact .inr (.inr (ih h))

/-- The first two pieces of a split: the second one ends at a separator, or with the whole. -/
theorem splitOn_eq_cons_cons_iff {first second : List α} :
    (∃ rest, l.splitOn sep = first :: second :: rest) ↔ sep ∉ first ∧ sep ∉ second ∧
      ∃ l', l = first ++ sep :: (second ++ l') ∧ ∀ x ∈ l'.head?, x = sep := by
  constructor
  · rintro ⟨rest, h⟩
    have hfirst : sep ∉ first := notMem_of_mem_splitOn (h ▸ List.mem_cons_self)
    have hsecond : sep ∉ second :=
      notMem_of_mem_splitOn (h ▸ List.mem_cons_of_mem _ List.mem_cons_self)
    have hl : l = [sep].intercalate (first :: second :: rest) := by
      rw [← h]
      exact (List.intercalate_splitOn sep).symm
    refine ⟨hfirst, hsecond, ?_⟩
    cases rest with
    | nil => exact ⟨[], by simpa using hl, by simp⟩
    | cons third rest =>
        refine ⟨sep :: [sep].intercalate (third :: rest), ?_, by simp⟩
        rw [hl, List.intercalate_cons_cons, List.intercalate_cons_cons]
        simp
  · rintro ⟨hfirst, hsecond, l', rfl, hhead⟩
    rw [List.splitOn_append_cons_self_of_not_mem hfirst]
    cases l' with
    | nil => exact ⟨[], by rw [List.append_nil, List.splitOn_eq_singleton hsecond]⟩
    | cons x l' =>
        obtain rfl := hhead x rfl
        exact ⟨_, by rw [List.splitOn_append_cons_self_of_not_mem hsecond]⟩

/-- What stands before and after the first separator, `none` without one. -/
def splitOnce (sep : α) : List α → Option (List α × List α)
  | [] => none
  | x :: l => if x == sep then some ([], l) else (splitOnce sep l).map fun p => (x :: p.1, p.2)

theorem splitOnce_eq_some_iff :
    splitOnce sep l = some (xs, ys) ↔ l = xs ++ sep :: ys ∧ sep ∉ xs := by
  induction l generalizing xs with
  | nil => simp [splitOnce]
  | cons x l ih =>
      by_cases hx : x = sep
      · subst hx
        cases xs with
        | nil => simp [splitOnce]
        | cons y xs => simp +contextual [splitOnce]
      · have hne : (x == sep) = false := by simpa using hx
        cases xs with
        | nil => simp [splitOnce, hx]
        | cons y xs =>
            simp only [splitOnce, hne, Bool.false_eq_true, ↓reduceIte, Option.map_eq_some_iff,
              Prod.exists, Prod.mk.injEq]
            grind

/-- What is left after a prefix is dropped. -/
theorem dropPrefix?_eq_some_iff {before rest : List α} :
    List.dropPrefix? l before = some rest ↔ l = before ++ rest := by
  rw [List.dropPrefix?_eq_some_iff]
  constructor
  · rintro ⟨before', hl, hbefore⟩
    rwa [eq_of_beq hbefore] at hl
  · exact fun hl => ⟨before, hl, beq_self_eq_true _⟩

theorem dropPrefix?_eq_none_iff {before : List α} :
    List.dropPrefix? l before = none ↔ ¬ before <+: l := by
  rw [Option.eq_none_iff_forall_ne_some, ← not_exists]
  refine not_congr (exists_congr fun rest => ?_)
  rw [dropPrefix?_eq_some_iff, eq_comm]

/-! ## Trimming -/

omit [BEq α] [LawfulBEq α] in
/-- `l` without the symbols satisfying `p` at its two ends. -/
def trim (p : α → Bool) (l : List α) : List α := (l.dropWhile p).rdropWhile p

omit [BEq α] [LawfulBEq α] in
theorem trim_sublist (p : α → Bool) (l : List α) : (trim p l).Sublist l :=
  (List.rdropWhile_prefix p _).sublist.trans (List.dropWhile_sublist p)

omit [BEq α] [LawfulBEq α] in
/-- Trimming cuts off two ends; the first holds nothing else. -/
theorem exists_trim (p : α → Bool) (l : List α) :
    ∃ first last, l = first ++ (trim p l ++ last) ∧ ∀ x ∈ first, p x := by
  obtain ⟨last, hlast⟩ := List.rdropWhile_prefix p (l.dropWhile p)
  refine ⟨l.takeWhile p, last, ?_, fun x hx => List.mem_takeWhile_imp hx⟩
  rw [trim, hlast, List.takeWhile_append_dropWhile]

omit [BEq α] [LawfulBEq α] in
theorem not_of_trim_eq_cons {p : α → Bool} {x : α} (h : trim p l = x :: xs) : p x = false := by
  obtain ⟨last, hlast⟩ := List.rdropWhile_prefix p (l.dropWhile p)
  rw [← trim, h, List.cons_append] at hlast
  have hhead := List.head?_dropWhile_not p l
  rw [← hlast] at hhead
  simpa using hhead

omit [BEq α] [LawfulBEq α] in
/-- A last symbol that is trimmed makes no difference. -/
theorem trim_concat {p : α → Bool} {x : α} (hx : p x) : trim p (l ++ [x]) = trim p l := by
  rw [trim, trim, List.dropWhile_append]
  split
  · next hempty =>
    rw [List.isEmpty_iff.mp hempty, List.dropWhile_cons_of_pos hx]
    rfl
  · rw [List.rdropWhile_concat_pos _ _ _ hx]

omit [BEq α] [LawfulBEq α] in
theorem trim_map {β : Type*} (p : β → Bool) (f : α → β) (l : List α) :
    trim p (l.map f) = (trim (p ∘ f) l).map f := by
  simp only [trim, List.rdropWhile, List.dropWhile_map, ← List.map_reverse]

omit [BEq α] [LawfulBEq α] in
/-- Trimming changes nothing exactly where neither end is trimmed. -/
theorem trim_eq_self_iff {p : α → Bool} :
    trim p l = l ↔ (∀ x ∈ l.head?, p x = false) ∧ ∀ x ∈ l.getLast?, p x = false := by
  constructor
  · intro htrim
    constructor
    · intro x hx
      obtain ⟨xs, rfl⟩ := List.head?_eq_some_iff.mp hx
      exact not_of_trim_eq_cons htrim
    · intro x hx
      obtain ⟨xs, rfl⟩ := List.getLast?_eq_some_iff.mp hx
      cases hp : p x with
      | false => rfl
      | true =>
          have hlen := (trim_sublist p xs).length_le
          rw [← trim_concat hp, htrim, List.length_append, List.length_singleton] at hlen
          omega
  · rintro ⟨hhead, hlast⟩
    have hdrop : l.dropWhile p = l := by
      cases l with
      | nil => rfl
      | cons x xs => rw [List.dropWhile_cons_of_neg (by simp [hhead x rfl])]
    rw [trim, hdrop, List.rdropWhile_eq_self_iff]
    intro hne
    simp [hlast _ (List.getLast?_eq_some_getLast hne)]

/-! ## Keeping the first of a kind -/

section

variable {α : Type*} {p : α → Bool} {l : List α} {n : Nat} {x : α}

/-- The first symbol kept of a kind: only other symbols stand before it. -/
theorem head?_take_filter_eq_some_iff :
    ((l.filter p).take (n + 1)).head? = some x ↔
      ∃ before after, l = before ++ x :: after ∧ p x ∧ ∀ y ∈ before, p y = false := by
  rw [List.head?_take, if_neg (Nat.succ_ne_zero n), List.head?_filter,
    List.find?_eq_some_iff_append]
  constructor
  · rintro ⟨hx, before, after, hl, hbefore⟩
    exact ⟨before, after, hl, hx, fun y hy => by simpa using hbefore y hy⟩
  · rintro ⟨before, after, hl, hx, hbefore⟩
    exact ⟨hx, before, after, hl, fun y hy => by simp [hbefore y hy]⟩

/-- The last of a list's first symbols: all of them stand before it, or all that there are. -/
theorem getLast?_take_eq_some_iff :
    (l.take (n + 1)).getLast? = some x ↔
      ∃ before after, l = before ++ x :: after ∧
        (before.length = n ∨ before.length ≤ n ∧ after = []) := by
  rw [List.getLast?_eq_some_iff]
  constructor
  · rintro ⟨before, hbefore⟩
    have hlen := congrArg List.length hbefore
    rw [List.length_take, List.length_append, List.length_singleton] at hlen
    refine ⟨before, l.drop (n + 1), ?_, ?_⟩
    · rw [List.append_cons, ← hbefore, List.take_append_drop]
    · by_cases hshort : before.length = n
      · exact .inl hshort
      · exact .inr ⟨by omega, List.drop_eq_nil_of_le (by omega)⟩
  · rintro ⟨before, after, rfl, hn | ⟨hn, rfl⟩⟩
    · refine ⟨before, ?_⟩
      rw [List.append_cons, List.take_left' (by simp [hn])]
    · exact ⟨before, List.take_of_length_le (by simp [hn])⟩

/-- The last symbol kept of a kind: the count is full with it, or only other symbols follow. -/
theorem getLast?_take_filter_eq_some_iff :
    ((l.filter p).take (n + 1)).getLast? = some x ↔
      ∃ before after, l = before ++ x :: after ∧ p x ∧
        (before.countP p = n ∨ before.countP p ≤ n ∧ ∀ y ∈ after, p y = false) := by
  rw [getLast?_take_eq_some_iff]
  constructor
  · rintro ⟨before, after, hfilter, hcount⟩
    obtain ⟨before', rest, rfl, rfl, hrest⟩ := List.filter_eq_append_iff.mp hfilter
    obtain ⟨skipped, after', rfl, hskipped, hx, rfl⟩ := List.filter_eq_cons_iff.mp hrest
    refine ⟨before' ++ skipped, after', by simp, hx, ?_⟩
    have hnone : skipped.countP p = 0 := List.countP_eq_zero.mpr hskipped
    rw [List.countP_append, hnone, List.countP_eq_length_filter]
    simpa using hcount
  · rintro ⟨before, after, rfl, hx, hcount⟩
    refine ⟨before.filter p, after.filter p, ?_, ?_⟩
    · rw [List.filter_append, List.filter_cons_of_pos hx]
    · rw [← List.countP_eq_length_filter]
      simpa using hcount

end

/-! ## Joining -/

omit [BEq α] [LawfulBEq α] in
/-- Joining two fields with a separator the first one does not contain can be
undone. -/
theorem append_cons_inj (hxs : sep ∉ xs) (hxs' : sep ∉ xs') :
    xs ++ sep :: ys = xs' ++ sep :: ys' ↔ xs = xs' ∧ ys = ys' := by
  induction xs generalizing xs' with
  | nil =>
      cases xs' with
      | nil => simp
      | cons x' xs' =>
          have hne : sep ≠ x' := fun heq => hxs' (by simp [heq])
          simp [hne]
  | cons x xs ih =>
      simp only [List.mem_cons, not_or] at hxs
      cases xs' with
      | nil => simp [Ne.symm hxs.1]
      | cons x' xs' =>
          simp only [List.mem_cons, not_or] at hxs'
          simp [ih hxs.2 hxs'.2, and_assoc]

/-! ## Reading -/

/-- Reading fields each of which can be read. -/
theorem mapM_eq_some {α β : Type} {f : α → Option β} {g : α → β} {l : List α}
    (h : ∀ a ∈ l, f a = some (g a)) : l.mapM f = some (l.map g) := by
  induction l with
  | nil => rfl
  | cons a l ih =>
      rw [List.mapM_cons, h a List.mem_cons_self, ih fun a ha => h a (List.mem_cons_of_mem _ ha)]
      rfl

end Fields
