import Mathlib.Data.List.Basic

/-!
# Readings

A text in which some lines announce a value, and all that do must announce the
same one.  What a line says is a `Reading`; `collect` is what the lines say
together.
-/

universe u v

/-- What a line says. -/
inductive Reading (α : Type u) where
  /-- it announces nothing -/
  | other
  | refused
  | value (a : α)
deriving DecidableEq

namespace Reading

variable {α : Type u} {β : Type v} {rs rs' : List (Reading α)} {a b : α}

def map (f : α → β) : Reading α → Reading β
  | other => other
  | refused => refused
  | value a => value (f a)

theorem map_eq_value {f : α → β} {r : Reading α} {b : β} :
    r.map f = value b ↔ ∃ a, r = value a ∧ f a = b := by
  cases r <;> simp [map]

/-- Readings that are values and none alike are the same. -/
theorem eq_of_iff {r r' : Reading α} (hother : r = other ↔ r' = other)
    (hvalue : ∀ a, r = value a ↔ r' = value a) : r = r' := by
  cases r with
  | other => exact (hother.mp rfl).symm
  | value a => exact ((hvalue a).mp rfl).symm
  | refused =>
      cases r' with
      | other => exact hother.mpr rfl
      | refused => rfl
      | value b => exact (hvalue b).mpr rfl

variable [DecidableEq α]

/-- What the lines say together, with what was found before them. -/
def collect (found : Option α) : List (Reading α) → Option α
  | [] => found
  | other :: rs => collect found rs
  | refused :: _ => none
  | value a :: rs => if found = none ∨ found = some a then collect (some a) rs else none

/-- The lines after one that announced a value say it again, or nothing. -/
theorem collect_some_eq_some_iff :
    collect (some b) rs = some a ↔ b = a ∧ ∀ r ∈ rs, r = other ∨ r = value a := by
  induction rs with
  | nil => simp [collect]
  | cons r rs ih =>
      cases r with
      | other => simp [collect, ih]
      | refused => simp [collect]
      | value c =>
          by_cases hbc : b = c
          · subst hbc
            simp only [collect, or_true, if_true, ih, List.forall_mem_cons]
            grind
          · simp only [collect, List.forall_mem_cons]
            grind

/-- The lines say a value if one announces it and none anything else. -/
theorem collect_eq_some_iff :
    collect none rs = some a ↔ value a ∈ rs ∧ ∀ r ∈ rs, r = other ∨ r = value a := by
  induction rs with
  | nil => simp [collect]
  | cons r rs ih =>
      cases r with
      | other => simp [collect, ih]
      | refused => simp [collect]
      | value c =>
          simp only [collect, true_or, if_true, collect_some_eq_some_iff, List.forall_mem_cons]
          constructor
          · rintro ⟨rfl, hall⟩
            exact ⟨List.mem_cons_self, .inr rfl, hall⟩
          · rintro ⟨-, hc, hall⟩
            exact ⟨by simpa using hc, hall⟩

/-- A line is refused, two announce different values, or none announces any. -/
def Refused (rs : List (Reading α)) : Prop :=
  refused ∈ rs ∨ (∃ a b, a ≠ b ∧ value a ∈ rs ∧ value b ∈ rs) ∨ ∀ r ∈ rs, r = other

theorem collect_eq_none_iff : collect none rs = none ↔ Refused rs := by
  rw [Option.eq_none_iff_forall_ne_some]
  simp only [Ne, collect_eq_some_iff, Refused]
  constructor
  · intro h
    by_contra hnot
    push Not at hnot
    obtain ⟨hrefused, hsame, r, hr, hother⟩ := hnot
    cases r with
    | other => exact hother rfl
    | refused => exact hrefused hr
    | value a =>
        refine h a ⟨hr, fun r hr' => ?_⟩
        cases r with
        | other => exact .inl rfl
        | refused => exact absurd hr' hrefused
        | value b =>
            by_contra hne
            exact hsame a b (fun heq => hne (by simp [heq])) hr hr'
  · rintro (h | ⟨a, b, hne, ha, hb⟩ | h) c ⟨hc, hall⟩
    · simpa using hall _ h
    · have hac : a = c := by simpa using hall _ ha
      have hbc : b = c := by simpa using hall _ hb
      exact hne (hac.trans hbc.symm)
    · simpa using h _ hc

/-- Lines say the same together that announce and refuse the same. -/
theorem collect_congr (h : ∀ r ≠ other, r ∈ rs ↔ r ∈ rs') : collect none rs = collect none rs' := by
  have hall : ∀ a, (∀ r ∈ rs, r = other ∨ r = value a) ↔ ∀ r ∈ rs', r = other ∨ r = value a := by
    intro a
    constructor
    · intro hrs r hr
      by_cases hother : r = other
      · exact .inl hother
      · exact hrs r ((h r hother).mpr hr)
    · intro hrs r hr
      by_cases hother : r = other
      · exact .inl hother
      · exact hrs r ((h r hother).mp hr)
  refine Option.ext fun a => ?_
  rw [collect_eq_some_iff, collect_eq_some_iff, h (value a) (by simp), hall]

theorem collect_append_other {found : Option α} :
    collect found (rs ++ [other]) = collect found rs := by
  induction rs generalizing found with
  | nil => rfl
  | cons r rs ih => cases r <;> simp [collect, ih]

end Reading
