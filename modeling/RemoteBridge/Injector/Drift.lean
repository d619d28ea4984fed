import Mathlib.Algebra.Group.Prod
import Mathlib.Algebra.BigOperators.Group.List.Basic
import RemoteBridge.Double.Exact
import RemoteBridge.Injector.Calls

/-!
# Injector.Drift

Relative moves and scrolls in exact arithmetic: what is left of a distance once the
whole points are taken is carried over, so that the points taken never fall behind
the distance asked for.
-/

namespace RemoteBridge.Injector

open Exact

variable {K : Type} [Field K] [LinearOrder K] [FloorRing K]

/-- The injector thread, in exact arithmetic. -/
def exactMachine (K : Type) [Field K] [LinearOrder K] [FloorRing K] (os : Os) :
    Machine (State K) (InputEvent K) :=
  letI := Number.exact K
  machine os

/-- The injector as started. -/
def exactInit (map : FrameMap K) : State K :=
  letI := Number.exact K
  init map

/-! ## Distances and points -/

/-- The distance a relative move asks for, in display points. -/
def moveDistance (map : FrameMap K) : InputEvent K → K × K
  | .moveRel dx dy => letI := Number.exact K; map.toPoints dx dy
  | _ => 0

/-- The distance a scroll asks for. -/
def scrollDistance (map : FrameMap K) : InputEvent K → K × K
  | .scroll dx dy => letI := Number.exact K; map.toPoints dx dy
  | _ => 0

/-- The whole points that a relative move takes. -/
def moved (s : State K) : InputEvent K → ℤ × ℤ
  | .moveRel dx dy =>
      letI := Number.exact K
      ((moveSteps s dx dy).1.2.toInt, (moveSteps s dx dy).2.2.toInt)
  | _ => 0

/-- What one call scrolls along an axis. -/
def scrollLength (axis : Axis) : Call × Bool → ℤ
  | (.smoothScroll length axis', true) => if axis' = axis then length.toInt else 0
  | _ => 0

/-- What calls scroll along an axis, altogether. -/
def scrolled (axis : Axis) (calls : List (Call × Bool)) : ℤ := (calls.map (scrollLength axis)).sum

/-- A number whose whole part is a 32-bit integer. -/
def FitsInt32 (x : K) : Prop := -2 ^ 31 ≤ trunc x ∧ trunc x < 2 ^ 31

/-- The relative amounts of an event stay within `i32`. -/
def Small (s : State K) : InputEvent K → Prop
  | .moveRel dx dy =>
      FitsInt32 (s.moveRest.1 + (moveDistance s.map (.moveRel dx dy)).1) ∧
        FitsInt32 (s.moveRest.2 + (moveDistance s.map (.moveRel dx dy)).2)
  | .scroll dx dy =>
      FitsInt32 (s.scrollRest.1 - (scrollDistance s.map (.scroll dx dy)).1) ∧
        FitsInt32 (s.scrollRest.2 - (scrollDistance s.map (.scroll dx dy)).2)
  | _ => True

instance (x : K) : Decidable (FitsInt32 x) := inferInstanceAs (Decidable (_ ∧ _))

instance (s : State K) : ∀ event, Decidable (Small s event)
  | .moveRel _ _ | .scroll _ _ => inferInstanceAs (Decidable (_ ∧ _))
  | .down _ _ | .move _ _ | .up _ _ | .click _ | .press _ | .release _ | .text _ | .key _ _
  | .reset => inferInstanceAs (Decidable True)

/-- The points taken so far and the remainder are the distance asked for, from
which the points differ by less than one. -/
structure Carried (points : ℤ) (rest distance : K) : Prop where
  sum : points + rest = distance
  rest : -1 < rest ∧ rest < 1
  near : |(points : K) - distance| < 1

variable [IsStrictOrderedRing K] {os : Os} {s : State K} {points : ℤ} {rest distance delta : K}

theorem carried_zero : Carried 0 (0 : K) 0 := by
  constructor <;> simp

omit [FloorRing K] in
theorem Carried.of_sum (hsum : points + rest = distance) (hrest : -1 < rest ∧ rest < 1) :
    Carried points rest distance := by
  refine ⟨hsum, hrest, ?_⟩
  rw [← hsum, abs_lt]
  constructor <;> linarith

/-- Taking the whole points out keeps the account. -/
theorem Carried.takeWhole (h : Carried points rest distance) (hfits : FitsInt32 (rest + delta)) :
    letI := Number.exact K
    Carried (points + (Injector.takeWhole rest delta).2.toInt) (Injector.takeWhole rest delta).1
      (distance + delta) := by
  have hsteps : (saturate (trunc ((trunc (rest + delta) : ℤ) : K))).toInt = trunc (rest + delta) := by
    rw [trunc_intCast, toInt_saturate hfits.1 hfits.2]
  have hrest := sub_trunc_mem (x := rest + delta)
  refine .of_sum ?_ hrest
  change ((points + (saturate (trunc ((trunc (rest + delta) : ℤ) : K))).toInt : ℤ) : K) +
    (rest + delta - trunc (rest + delta)) = distance + delta
  rw [hsteps, ← h.sum]
  push_cast
  ring

/-! ## Scrolling -/

section

omit [Field K] [LinearOrder K] [FloorRing K] [IsStrictOrderedRing K]

theorem scrolled_append (axis : Axis) (calls new : List (Call × Bool)) :
    scrolled axis (calls ++ new) = scrolled axis calls + scrolled axis new := by
  rw [scrolled, List.map_append, List.sum_append]
  rfl

/-- Other calls do not scroll. -/
theorem scrolled_of_other (axis : Axis) {new : List (Call × Bool)}
    (h : ∀ c ∈ new, ∀ n axis, c.1 ≠ .smoothScroll n axis) : scrolled axis new = 0 := by
  refine List.sum_eq_zero fun n hn => ?_
  obtain ⟨⟨call, ok⟩, hc, rfl⟩ := List.mem_map.mp hn
  have hcall := h _ hc
  cases call with
  | smoothScroll n axis' => exact absurd rfl (hcall n axis')
  | _ => cases ok <;> rfl

/-- One scroll, which is not called for when there is nothing to scroll. -/
def scrollCall (length : Int32) (axis : Axis) : List (Call × Bool) :=
  if length ≠ 0 then [(.smoothScroll length axis, true)] else []

theorem scrolled_scrollCall (length : Int32) (axis axis' : Axis) :
    scrolled axis (scrollCall length axis') = if axis' = axis then length.toInt else 0 := by
  rw [scrollCall]
  by_cases hlength : length = 0
  · subst hlength
    rw [if_neg (not_not_intro rfl)]
    split <;> rfl
  · rw [if_pos hlength]
    simp [scrolled, scrollLength]

theorem calls_scrollOne {length : Int32} {axis : Axis}
    (h : ∀ c ∈ (after (if length ≠ 0 then enigo os (.smoothScroll length axis) else pure () :
      Inject K Unit) s).calls, c.2) :
    (after (if length ≠ 0 then enigo os (.smoothScroll length axis) else pure () :
      Inject K Unit) s).calls = s.calls ++ scrollCall length axis := by
  rw [scrollCall]
  by_cases hlength : length ≠ 0
  · rw [if_pos hlength, after_enigo] at h ⊢
    have hok : os.succeeds s.calls.length = true :=
      h _ (List.mem_append_right _ List.mem_cons_self)
    rw [if_pos hlength, hok]
  · rw [if_neg hlength, if_neg hlength, after_pure, List.append_nil]

/-- Where no call fails, both steps of a scroll are passed on. -/
theorem calls_scrollBy {stepX stepY : Int32}
    (h : ∀ c ∈ (after (scrollBy os stepX stepY) s).calls, c.2) :
    (after (scrollBy os stepX stepY) s).calls =
      s.calls ++ (scrollCall stepY .vertical ++ scrollCall stepX .horizontal) := by
  unfold scrollBy at h ⊢
  dsimp only at h ⊢
  rw [scrollCall]
  by_cases hy : stepY ≠ 0
  · rw [if_pos hy, after_enigo_bind] at h ⊢
    dsimp only at h ⊢
    cases hok : os.succeeds s.calls.length with
    | false =>
        rw [hok, if_neg Bool.false_ne_true] at h
        exact absurd (h _ (List.mem_append_right _ List.mem_cons_self)) Bool.false_ne_true
    | true =>
        rw [hok, if_pos rfl] at h
        rw [if_pos rfl, calls_scrollOne h, if_pos hy, List.append_assoc]
  · rw [if_neg hy] at h ⊢
    rw [calls_scrollOne h, if_neg hy, List.nil_append]

end

/-! ## Moving -/

/-- Where an event is a relative move, the cursor goes from where it is by the points that
it takes, clamped to the display. -/
def MovesBy (os : Os) (s : State K) (event : InputEvent K) : Prop :=
  letI := Number.exact K
  let cursor := os.location s.calls.length
  ∀ dx dy, event = .moveRel dx dy → (after (apply os event) s).calls = s.calls ++
    if moved s event = 0 then []
    else
      [(.location, true),
        (.moveMouse
          (clampInt32 (cursor.1 + Int32.ofInt (moved s event).1) 0
            (Double.toInt32 s.map.displayWidth - 1))
          (clampInt32 (cursor.2 + Int32.ofInt (moved s event).2) 0
            (Double.toInt32 s.map.displayHeight - 1)), true)]

omit [IsStrictOrderedRing K] in
theorem moved_eq_zero {dx dy : K} :
    letI := Number.exact K
    moved s (.moveRel dx dy) = 0 ↔
      ¬ ((moveSteps s dx dy).1.2 ≠ 0 ∨ (moveSteps s dx dy).2.2 ≠ 0) := by
  rw [not_or, not_not, not_not, moved, Prod.mk_eq_zero, ← Int32.toInt_zero, Int32.toInt_inj,
    Int32.toInt_inj]

omit [IsStrictOrderedRing K] in
/-- Where no call fails. -/
theorem movesBy (event : InputEvent K) :
    letI := Number.exact K
    (∀ c ∈ (after (apply os event) s).calls, c.2) → MovesBy os s event := by
  let _ := Number.exact K
  rintro hcalls dx dy rfl
  rw [apply, after_moveRel, calls_moveBy] at hcalls ⊢
  by_cases hmoved : moved s (.moveRel dx dy) = 0
  · rw [if_pos hmoved, if_neg (moved_eq_zero.mp hmoved)]
  · have hsteps := not_not.mp (mt moved_eq_zero.mpr hmoved)
    rw [if_pos hsteps] at hcalls
    have hlocation : os.succeeds s.calls.length = true :=
      hcalls _ (List.mem_append_right _ List.mem_cons_self)
    rw [hlocation, if_pos rfl] at hcalls
    have hmove : os.succeeds (s.calls.length + 1) = true :=
      hcalls _ (List.mem_append_right _ (List.mem_cons_of_mem _ List.mem_cons_self))
    rw [if_neg hmoved, if_pos hsteps, hlocation, if_pos rfl, hmove, moved, Int32.ofInt_toInt,
      Int32.ofInt_toInt]
    rfl

/-! ## One event -/

/-- The account of both axes of the moves and the scrolls.  What is passed to
`smooth_scroll` has the sign reversed. -/
structure Account (map : FrameMap K) (points : ℤ × ℤ) (move scroll : K × K) (s : State K) :
    Prop where
  map : s.map = map
  moveX : Carried points.1 s.moveRest.1 move.1
  moveY : Carried points.2 s.moveRest.2 move.2
  scrollX : Carried (scrolled .horizontal s.calls) s.scrollRest.1 (-scroll.1)
  scrollY : Carried (scrolled .vertical s.calls) s.scrollRest.2 (-scroll.2)

theorem account_init (map : FrameMap K) : Account map 0 0 0 (exactInit map) := by
  have hrest : ((Number.exact K).ofInt 0 : K) = 0 := Int.cast_zero
  refine ⟨rfl, ?_, ?_, ?_, ?_⟩ <;>
  · simp only [exactInit, init, hrest, Prod.fst_zero, Prod.snd_zero, neg_zero]
    exact carried_zero

omit [FloorRing K] [IsStrictOrderedRing K] in
/-- Steps that only make other calls keep the account. -/
theorem Account.calls {map : FrameMap K} {points : ℤ × ℤ} {move scroll : K × K} {s' : State K}
    {P : Call → Prop} (h : Account map points move scroll s) (hcalls : Calls P s s')
    (hP : ∀ n axis, ¬ P (.smoothScroll n axis)) : Account map points move scroll s' := by
  obtain ⟨new, hnew, hall⟩ := hcalls.calls
  have hscrolled (axis : Axis) : scrolled axis s'.calls = scrolled axis s.calls := by
    rw [hnew, scrolled_append, scrolled_of_other axis fun c hc n a heq => hP n a (heq ▸ hall c hc),
      add_zero]
  constructor
  · rw [hcalls.map, h.map]
  · rw [hcalls.moveRest]
    exact h.moveX
  · rw [hcalls.moveRest]
    exact h.moveY
  · rw [hcalls.scrollRest, hscrolled]
    exact h.scrollX
  · rw [hcalls.scrollRest, hscrolled]
    exact h.scrollY

/-- A relative move takes the whole points of its distances out. -/
theorem Account.moveRel {map : FrameMap K} {points : ℤ × ℤ} {move scroll : K × K} {dx dy : K}
    (h : Account map points move scroll s) (hsmall : Small s (.moveRel dx dy)) :
    letI := Number.exact K
    Account map (points + moved s (.moveRel dx dy)) (move + moveDistance map (.moveRel dx dy)) scroll
      (after (apply os (.moveRel dx dy)) s) := by
  let _ := Number.exact K
  obtain ⟨hx, hy⟩ := hsmall
  rw [h.map] at hx hy
  rw [apply, after_moveRel]
  refine Account.calls (P := CallOf (.moveRel dx dy)) (s := { s with
    moveRest := ((moveSteps s dx dy).1.1, (moveSteps s dx dy).2.1) })
    ?_ (makes_moveBy os _ _ trivial (fun _ _ => trivial) _) fun n axis h => h
  refine ⟨h.map, ?_, ?_, h.scrollX, h.scrollY⟩
  · have hcarried := h.moveX.takeWhole hx
    rw [← h.map] at hcarried ⊢
    exact hcarried
  · have hcarried := h.moveY.takeWhole hy
    rw [← h.map] at hcarried ⊢
    exact hcarried

/-- A scroll passes the whole points of its distances on, with the sign reversed. -/
theorem Account.scroll {map : FrameMap K} {points : ℤ × ℤ} {move scroll : K × K} {dx dy : K}
    (h : Account map points move scroll s) (hsmall : Small s (.scroll dx dy)) :
    letI := Number.exact K
    (∀ c ∈ (after (apply os (.scroll dx dy)) s).calls, c.2) →
      Account map points move (scroll + scrollDistance map (.scroll dx dy))
        (after (apply os (.scroll dx dy)) s) := by
  let _ := Number.exact K
  intro hcalls
  obtain ⟨hx, hy⟩ := hsmall
  rw [sub_eq_add_neg, h.map] at hx hy
  rw [apply, after_scroll] at hcalls ⊢
  have hmade := makes_scrollBy (P := CallOf (.scroll dx dy)) os (scrollSteps s dx dy).1.2
    (scrollSteps s dx dy).2.2 (fun _ _ => trivial)
    { s with scrollRest := ((scrollSteps s dx dy).1.1, (scrollSteps s dx dy).2.1) }
  have hall := calls_scrollBy hcalls
  have hscrolled (axis : Axis) := congrArg (scrolled axis) hall
  simp only [scrolled_append, scrolled_scrollCall] at hscrolled
  refine ⟨hmade.map.trans h.map, ?_, ?_, ?_, ?_⟩
  · rw [hmade.moveRest]
    exact h.moveX
  · rw [hmade.moveRest]
    exact h.moveY
  · have hcarried := h.scrollX.takeWhole hx
    rw [← h.map] at hcarried ⊢
    rw [hscrolled, if_neg (by decide), if_pos rfl, zero_add, hmade.scrollRest, Prod.fst_add, neg_add]
    exact hcarried
  · have hcarried := h.scrollY.takeWhole hy
    rw [← h.map] at hcarried ⊢
    rw [hscrolled, if_pos rfl, if_neg (by decide), add_zero, hmade.scrollRest, Prod.snd_add, neg_add]
    exact hcarried

/-- One event keeps the account, if its amounts stay within `i32` and no call fails. -/
theorem Account.apply {map : FrameMap K} {points : ℤ × ℤ} {move scroll : K × K}
    (h : Account map points move scroll s) (event : InputEvent K) (hsmall : Small s event) :
    letI := Number.exact K
    (∀ c ∈ (after (Injector.apply os event) s).calls, c.2) →
      Account map (points + moved s event) (move + moveDistance map event)
        (scroll + scrollDistance map event) (after (Injector.apply os event) s) := by
  let _ := Number.exact K
  intro hcalls
  by_cases hmove : ∃ dx dy, event = .moveRel dx dy
  · obtain ⟨dx, dy, rfl⟩ := hmove
    have hscroll : scrollDistance map (.moveRel dx dy) = 0 := rfl
    rw [hscroll, add_zero]
    exact h.moveRel hsmall
  · by_cases hscroll : ∃ dx dy, event = .scroll dx dy
    · obtain ⟨dx, dy, rfl⟩ := hscroll
      have hmoved : moved s (.scroll dx dy) = 0 := rfl
      have hdistance : moveDistance map (.scroll dx dy) = 0 := rfl
      rw [hmoved, hdistance, add_zero, add_zero]
      exact h.scroll hsmall hcalls
    · have hmade := makes_apply os event (fun dx dy h => hmove ⟨dx, dy, h⟩)
        (fun dx dy h => hscroll ⟨dx, dy, h⟩) s
      have hnone : moved s event = 0 ∧ moveDistance map event = 0 ∧
          scrollDistance map event = 0 := by
        cases event with
        | moveRel dx dy => exact absurd ⟨dx, dy, rfl⟩ hmove
        | scroll dx dy => exact absurd ⟨dx, dy, rfl⟩ hscroll
        | _ => exact ⟨rfl, rfl, rfl⟩
      rw [hnone.1, hnone.2.1, hnone.2.2, add_zero, add_zero, add_zero]
      refine h.calls hmade fun n axis hcall => ?_
      cases event with
      | scroll dx dy => exact hscroll ⟨dx, dy, rfl⟩
      | _ => exact hcall

/-! ## Every run -/

/-- **Relative movement never drifts**: over all events together, whatever comes in
between, the points that moves take and scrolls pass on are the distances asked for
less a remainder below one point, on each axis; and by the points that a move takes the
cursor goes. -/
theorem points_carried (os : Os) (map : FrameMap K) (es : List (InputEvent K)) (s : State K)
    (hrun : (exactMachine K os).Run (exactInit map) es s)
    (hsmall : (exactMachine K os).Along (exactInit map) es Small) (hcalls : ∀ c ∈ s.calls, c.2) :
    let points := (exactMachine K os).total moved (exactInit map) es
    let move := (es.map (moveDistance map)).sum
    let scroll := (es.map (scrollDistance map)).sum
    Carried points.1 s.moveRest.1 move.1 ∧ Carried points.2 s.moveRest.2 move.2 ∧
      Carried (scrolled .horizontal s.calls) s.scrollRest.1 (-scroll.1) ∧
      Carried (scrolled .vertical s.calls) s.scrollRest.2 (-scroll.2) ∧
      (exactMachine K os).Along (exactInit map) es (MovesBy os) := by
  obtain ⟨haccount, hmoves⟩ : Account map ((exactMachine K os).total moved (exactInit map) es)
      (es.map (moveDistance map)).sum (es.map (scrollDistance map)).sum s ∧
        (exactMachine K os).Along (exactInit map) es (MovesBy os) := by
    refine hrun.rec_snoc (P := fun es s => (exactMachine K os).Along (exactInit map) es Small →
      (∀ c ∈ s.calls, c.2) → Account map ((exactMachine K os).total moved (exactInit map) es)
        (es.map (moveDistance map)).sum (es.map (scrollDistance map)).sum s ∧
          (exactMachine K os).Along (exactInit map) es (MovesBy os)) ?_ ?_ hsmall hcalls
    · intro _ _
      exact ⟨account_init map, Machine.along_nil⟩
    · intro es event s s' hrun ih hstep hsmall hcalls
      obtain ⟨hsmall, hevent⟩ := (Machine.along_snoc hrun).mp hsmall
      let _ := Number.exact K
      obtain rfl := Option.some.inj hstep
      obtain ⟨new, hnew, -⟩ := calls_apply os event s
      have hbefore : ∀ c ∈ s.calls, c.2 := fun c hc =>
        hcalls c (hnew ▸ List.mem_append_left new hc)
      obtain ⟨haccount, hmoves⟩ := ih hsmall hbefore
      refine ⟨?_, (Machine.along_snoc hrun).mpr ⟨hmoves, movesBy event hcalls⟩⟩
      rw [Machine.total_snoc hrun, List.map_append, List.sum_append, List.map_append,
        List.sum_append, List.map_singleton, List.sum_singleton, List.map_singleton,
        List.sum_singleton]
      exact haccount.apply event hevent hcalls
  exact ⟨haccount.moveX, haccount.moveY, haccount.scrollX, haccount.scrollY, hmoves⟩

/-- A slow finger: two moves of three quarters of a point each, with a click in
between, and a scroll. -/
theorem points_carried_slowly :
    let os : Os := ⟨fun _ => true, fun _ => (0, 0)⟩
    let es : List (InputEvent ℚ) :=
      [.moveRel (3 / 8) 0, .click .left, .moveRel (3 / 8) 0, .scroll 0 (3 / 4)]
    ∃ s, (exactMachine ℚ os).Run (exactInit smallMap) es s ∧
      Carried ((exactMachine ℚ os).total moved (exactInit smallMap) es).1 s.moveRest.1
        (es.map (moveDistance smallMap)).sum.1 ∧
      Carried (scrolled .vertical s.calls) s.scrollRest.2
        (-(es.map (scrollDistance smallMap)).sum.2) ∧
      (exactMachine ℚ os).Along (exactInit smallMap) es (MovesBy os) := by
  intro os es
  obtain ⟨s, hrun, hcalls⟩ := (exactMachine ℚ os).exists_run (exactInit smallMap) es
    (fun s => s.calls.all (·.2)) (by decide +kernel)
  have h := points_carried os smallMap es s hrun (by decide +kernel) (List.all_eq_true.mp hcalls)
  exact ⟨s, hrun, h.1, h.2.2.2⟩

end RemoteBridge.Injector
