import Mathlib.Algebra.Order.Group.Nat
import Mathlib.Tactic.Common

/-!
# Reassembly

A list cut into pieces, and putting it together again from whatever pieces are there.

The pieces are followed from the front: the first one that starts where the last one ended,
until the end of the list.  When all pieces come from one way of cutting, it does not matter
in which order they are kept or how often each is: the list is whole exactly when every
piece is there, and until then nothing comes out.
-/

namespace Reassembly

variable {α : Type*}

/-- A part of a list and where it starts. -/
structure Piece (α : Type*) where
  offset : Nat
  data : List α

/-- A piece of `l` when it is cut every `n` elements; an empty list is one empty piece. -/
def IsPiece (n : Nat) (l : List α) (p : Piece α) : Prop :=
  n ∣ p.offset ∧ (p.offset < l.length ∨ p.offset = 0) ∧ p.data = (l.drop p.offset).take n

/-- The piece that starts at `offset`. -/
def pieceAt (n : Nat) (l : List α) (offset : Nat) : Piece α := ⟨offset, (l.drop offset).take n⟩

/-- The furthest start of a piece. -/
def lastOffset : List (Piece α) → Nat
  | [] => 0
  | p :: ps => max p.offset (lastOffset ps)

theorem le_lastOffset {p : Piece α} {ps : List (Piece α)} (h : p ∈ ps) :
    p.offset ≤ lastOffset ps := by
  induction ps with
  | nil => cases h
  | cons q ps ih =>
      rw [lastOffset]
      rcases List.mem_cons.mp h with rfl | h
      · exact Nat.le_max_left ..
      · exact (ih h).trans (Nat.le_max_right ..)

/-- Follow the pieces from `start` to `total`, always the first piece that starts where the
last one ended.  A piece without data ends the walk too. -/
def walk (total : Nat) (ps : List (Piece α)) (start : Nat) : Option (List α) :=
  match _h : ps.find? fun p => p.offset == start with
  | none => none
  | some p =>
      if start + p.data.length ≠ total ∧ p.data.length ≠ 0 then
        (walk total ps (start + p.data.length)).map (p.data ++ ·)
      else some p.data
termination_by lastOffset ps + 1 - start
decreasing_by
  have hmem := List.mem_of_find?_eq_some _h
  have hstart : p.offset = start := by simpa using List.find?_some _h
  have hle := le_lastOffset hmem
  omega

section

variable {n : Nat} {l : List α} {ps : List (Piece α)} {start : Nat} {p : Piece α}

theorem walk_none {total : Nat} (h : (ps.find? fun p => p.offset == start) = none) :
    walk total ps start = none := by
  rw [walk]
  split
  · rfl
  · next h' => rw [h] at h'; cases h'

theorem walk_some {total : Nat} (h : (ps.find? fun p => p.offset == start) = some p) :
    walk total ps start =
      if start + p.data.length ≠ total ∧ p.data.length ≠ 0 then
        (walk total ps (start + p.data.length)).map (p.data ++ ·)
      else some p.data := by
  rw [walk]
  split
  · next h' => rw [h] at h'; cases h'
  · next h' => rw [Option.some.inj (h.symm.trans h')]

/-- One way of cutting has one piece at an offset. -/
theorem IsPiece.eq_pieceAt (h : IsPiece n l p) : p = pieceAt n l p.offset := by
  obtain ⟨offset, data⟩ := p
  obtain ⟨-, -, hdata⟩ := h
  exact congrArg (Piece.mk offset) hdata

/-- Pieces are `n` apart. -/
theorem IsPiece.add_le (h : IsPiece n l p) (hdvd : n ∣ start) (hlt : start < p.offset) :
    start + n ≤ p.offset := by
  have hle := Nat.le_of_dvd (by omega) (Nat.dvd_sub h.1 hdvd)
  omega

theorem isPiece_pieceAt (hdvd : n ∣ start) (hstart : start < l.length ∨ start = 0) :
    IsPiece n l (pieceAt n l start) := ⟨hdvd, hstart, rfl⟩

theorem length_pieceAt (n : Nat) (l : List α) (start : Nat) :
    (pieceAt n l start).data.length = min n (l.length - start) := by
  rw [pieceAt, List.length_take, List.length_drop]

/-- The walk's first step, with the pieces of one cutting. -/
theorem find?_eq (hps : ∀ p ∈ ps, IsPiece n l p) :
    (ps.find? fun p => p.offset == start) =
      if (∃ p ∈ ps, p.offset = start) then some (pieceAt n l start) else none := by
  split
  · next h =>
      obtain ⟨p, hp, hoff⟩ := h
      cases hfind : ps.find? fun p => p.offset == start with
      | none =>
          have := List.find?_eq_none.mp hfind p hp
          simp [hoff] at this
      | some q =>
          have hq : q.offset = start := by simpa using List.find?_some hfind
          rw [(hps q (List.mem_of_find?_eq_some hfind)).eq_pieceAt, hq]
  · next h =>
      refine List.find?_eq_none.mpr fun p hp => ?_
      have hoff : p.offset ≠ start := fun hoff => h ⟨p, hp, hoff⟩
      simpa using hoff

/-- A multiple of `n` inside the list: the piece there reaches the end or the next one. -/
theorem next_start (hn : 0 < n) (hdvd : n ∣ start) (hstart : start < l.length ∨ start = 0)
    (hend : start + (pieceAt n l start).data.length ≠ l.length) :
    (pieceAt n l start).data.length = n ∧ n ∣ start + n ∧ start + n < l.length := by
  rw [length_pieceAt] at hend ⊢
  have hdvd' : n ∣ start + n := Nat.dvd_add_self_right.mpr hdvd
  omega

/-- **All pieces are there**: the walk gives the rest of the list. -/
theorem walk_eq_some (hn : 0 < n) (hps : ∀ p ∈ ps, IsPiece n l p)
    (hall : ∀ p, IsPiece n l p → start ≤ p.offset → p ∈ ps)
    (hdvd : n ∣ start) (hstart : start < l.length ∨ start = 0) :
    walk l.length ps start = some (l.drop start) := by
  induction hm : l.length - start using Nat.strongRecOn generalizing start with
  | ind m ih =>
      have hpiece := isPiece_pieceAt hdvd hstart
      have hfind : (ps.find? fun p => p.offset == start) = some (pieceAt n l start) := by
        rw [find?_eq hps, if_pos ⟨_, hall _ hpiece (Nat.le_refl _), rfl⟩]
      rw [walk_some hfind]
      have hlen := length_pieceAt n l start
      by_cases hend : start + (pieceAt n l start).data.length = l.length
      · rw [if_neg (by omega), pieceAt, List.take_of_length_le]
        rw [List.length_drop]
        omega
      · obtain ⟨hlen, hdvd', hlt⟩ := next_start hn hdvd hstart hend
        have hrest := ih (l.length - (start + n)) (by omega)
          (fun p hp hle => hall p hp (by omega)) hdvd' (.inl hlt) rfl
        rw [if_pos ⟨hend, by omega⟩, hlen, hrest, Option.map_some, pieceAt, ← List.drop_drop,
          List.take_append_drop]

/-- **A piece is missing**: the walk gives nothing. -/
theorem walk_eq_none (hn : 0 < n) (hps : ∀ p ∈ ps, IsPiece n l p)
    (hmiss : ∃ p, IsPiece n l p ∧ start ≤ p.offset ∧ p ∉ ps)
    (hdvd : n ∣ start) (hstart : start < l.length ∨ start = 0) :
    walk l.length ps start = none := by
  induction hm : l.length - start using Nat.strongRecOn generalizing start with
  | ind m ih =>
      by_cases hex : ∃ p ∈ ps, p.offset = start
      · have hfind : (ps.find? fun p => p.offset == start) = some (pieceAt n l start) := by
          rw [find?_eq hps, if_pos hex]
        obtain ⟨q, hq, hle, hnot⟩ := hmiss
        -- the missing piece is not this one, so the list goes on after it
        have hne : q.offset ≠ start := fun heq => by
          obtain ⟨p, hp, hoff⟩ := hex
          have hpq : p = q := by rw [(hps p hp).eq_pieceAt, hq.eq_pieceAt, hoff, heq]
          exact hnot (hpq ▸ hp)
        have hlt := hq.2.1
        have hstep := hq.add_le hdvd (by omega)
        have hend : start + (pieceAt n l start).data.length ≠ l.length := by
          rw [length_pieceAt]
          omega
        obtain ⟨hlen, hdvd', hlt'⟩ := next_start hn hdvd hstart hend
        have hrest := ih (l.length - (start + n)) (by omega) ⟨q, hq, hstep, hnot⟩ hdvd'
          (.inl hlt') rfl
        rw [walk_some hfind, if_pos ⟨hend, by omega⟩, hlen, hrest, Option.map_none]
      · exact walk_none (by rw [find?_eq hps, if_neg hex])

/-- Every piece is there. -/
def Complete (n : Nat) (l : List α) (ps : List (Piece α)) : Prop :=
  ∀ p, IsPiece n l p → p ∈ ps

/-- What the walk gives from the front: the list or nothing. -/
theorem walk_zero_of_complete (hn : 0 < n) (hps : ∀ p ∈ ps, IsPiece n l p)
    (h : Complete n l ps) : walk l.length ps 0 = some l := by
  rw [walk_eq_some hn hps (fun p hp _ => h p hp) (Nat.dvd_zero n) (.inr rfl), List.drop_zero]

theorem walk_zero_of_not_complete (hn : 0 < n) (hps : ∀ p ∈ ps, IsPiece n l p)
    (h : ¬ Complete n l ps) : walk l.length ps 0 = none := by
  rw [Complete, not_forall] at h
  obtain ⟨p, hp⟩ := h
  rw [Classical.not_imp] at hp
  exact walk_eq_none hn hps ⟨p, hp.1, Nat.zero_le _, hp.2⟩ (Nat.dvd_zero n) (.inr rfl)

end

/-! ## Cutting -/

/-- The list cut every `n` elements. -/
def cut (n : Nat) (l : List α) : List (List α) :=
  if _h : l = [] ∨ n = 0 then [] else l.take n :: cut n (l.drop n)
termination_by l.length
decreasing_by
  have : 0 < l.length := List.length_pos_iff.mpr fun hnil => _h (.inl hnil)
  rw [List.length_drop]
  omega

/-- The parts of a list with where each starts, the first at `offset`. -/
def numbered (offset : Nat) : List (List α) → List (Piece α)
  | [] => []
  | data :: parts => ⟨offset, data⟩ :: numbered (offset + data.length) parts

/-- The numbered parts of the rest of a list are its pieces from there on. -/
theorem mem_numbered_cut {n : Nat} {l : List α} {offset : Nat} {p : Piece α} (hn : 0 < n)
    (hdvd : n ∣ offset) (hlt : offset < l.length) :
    p ∈ numbered offset (cut n (l.drop offset)) ↔ IsPiece n l p ∧ offset ≤ p.offset := by
  induction hm : l.length - offset using Nat.strongRecOn generalizing offset with
  | ind m ih =>
      have hne : ¬ (l.drop offset = [] ∨ n = 0) := by
        rw [List.drop_eq_nil_iff]
        omega
      rw [cut, dif_neg hne, numbered, List.mem_cons, List.drop_drop, List.length_take,
        List.length_drop]
      have hhead : p = ⟨offset, (l.drop offset).take n⟩ ↔ IsPiece n l p ∧ p.offset = offset := by
        constructor
        · rintro rfl
          exact ⟨⟨hdvd, .inl hlt, rfl⟩, rfl⟩
        · rintro ⟨hp, hoff⟩
          rw [hp.eq_pieceAt, hoff, pieceAt]
      by_cases hmore : offset + n < l.length
      · rw [Nat.min_eq_left (by omega), hhead, ih (l.length - (offset + n)) (by omega)
          (Nat.dvd_add_self_right.mpr hdvd) hmore rfl]
        constructor
        · rintro (⟨hp, hoff⟩ | ⟨hp, hle⟩)
          · exact ⟨hp, by omega⟩
          · exact ⟨hp, by omega⟩
        · rintro ⟨hp, hle⟩
          by_cases hoff : p.offset = offset
          · exact .inl ⟨hp, hoff⟩
          · exact .inr ⟨hp, hp.add_le hdvd (by omega)⟩
      · have hnil : l.drop (offset + n) = [] := List.drop_eq_nil_iff.mpr (by omega)
        rw [hnil, cut, dif_pos (.inl rfl), numbered, hhead]
        constructor
        · rintro (⟨hp, hoff⟩ | h)
          · exact ⟨hp, by omega⟩
          · cases h
        · rintro ⟨hp, hle⟩
          refine .inl ⟨hp, ?_⟩
          by_contra hoff
          have := hp.add_le hdvd (by omega)
          have := hp.2.1
          omega

/-- **Cutting makes every piece**, an empty list one empty piece. -/
theorem mem_numbered_iff {n : Nat} {l : List α} {p : Piece α} (hn : 0 < n) :
    p ∈ numbered 0 (if cut n l = [] then [[]] else cut n l) ↔ IsPiece n l p := by
  cases l with
  | nil =>
      have hcut : cut n ([] : List α) = [] := by rw [cut, dif_pos (.inl rfl)]
      rw [if_pos hcut]
      obtain ⟨offset, data⟩ := p
      simp only [numbered, List.mem_singleton, Piece.mk.injEq, IsPiece, List.length_nil,
        List.drop_nil, List.take_nil]
      constructor
      · rintro ⟨rfl, rfl⟩
        exact ⟨Nat.dvd_zero n, .inr rfl, rfl⟩
      · rintro ⟨-, hoff, hdata⟩
        exact ⟨by omega, hdata⟩
  | cons x l =>
      have hcut : cut n (x :: l) ≠ [] := by
        rw [cut, dif_neg (by simp; omega)]
        simp
      rw [if_neg hcut, ← List.drop_zero (l := x :: l), mem_numbered_cut hn (Nat.dvd_zero n)
        (by simp), List.drop_zero]
      simp

end Reassembly
