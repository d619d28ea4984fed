import Mathlib.Algebra.BigOperators.Group.List.Basic
import Mathlib.Algebra.Group.Prod
import Mathlib.Tactic.Abel
import Mathlib.Tactic.Ring
import RemoteBridge.Double.Exact
import RemoteBridge.Trackpad.Watch

/-!
# Trackpad.Centre

The centre of the fingers, which movements are measured from: wherever fingers land
and lift, it is the average of those that are down.  So in exact arithmetic what is
sent is what the fingers moved.
-/

namespace RemoteBridge.Trackpad

/-! ## Touches -/

namespace Touches

variable {α A : Type} {touches : Touches α} {id : Int} {p q : Point α}

/-- Moving a finger that is down changes a sum by what the finger moved. -/
theorem sum_set [AddCommGroup A] (f : Point α → A) (hnodup : touches.ids.Nodup)
    (hmem : (id, q) ∈ touches) :
    ((touches.set id p).map fun t => f t.2).sum = (touches.map fun t => f t.2).sum + (f p - f q) := by
  have hhas : touches.has id := has_iff.mpr (List.mem_map_of_mem hmem)
  rw [set, if_pos hhas]
  clear hhas
  induction touches with
  | nil => contradiction
  | cons t touches ih =>
      rw [ids, List.map_cons, List.nodup_cons] at hnodup
      rw [List.map_cons, List.map_cons, List.sum_cons, List.map_cons, List.sum_cons]
      rcases List.mem_cons.mp hmem with rfl | hmem
      · have hrest : (List.map (fun t => if t.1 == id then (id, p) else t) touches) = touches := by
          refine (List.map_congr_left fun t ht => ?_).trans (List.map_id _)
          have hids : t.1 ∈ touches.map Prod.fst := List.mem_map_of_mem ht
          have hne : t.1 ≠ id := fun heq => hnodup.1 (heq ▸ hids)
          simp [hne]
        rw [hrest, beq_self_eq_true, if_pos rfl]
        abel
      · have hne : t.1 ≠ id := fun heq => hnodup.1 (heq ▸ List.mem_map_of_mem hmem)
        rw [ih hnodup.2 hmem, beq_eq_false_iff_ne.mpr hne, if_neg Bool.false_ne_true]
        abel

theorem length_set (hhas : touches.has id) : (touches.set id p).length = touches.length := by
  rw [set, if_pos hhas, List.length_map]

end Touches

/-! ## What messages say of movement -/

variable {α : Type}

/-- The distance a message carries. -/
def Message.distance : Message α → Option (α × α)
  | .moveRel dx dy | .scroll dx dy => some (dx, dy)
  | _ => none

/-- Movement, and the press that starts a drag. -/
def Message.isMotion : Message α → Bool
  | .moveRel _ _ | .scroll _ _ | .press _ => true
  | _ => false

variable [Double α] {s s' : State α} {g : Gesture α} {event : PointerEvent α} {type : LiftType}

/-! ## The record of a gesture -/

/-- The record of the gesture in progress: its last point is the centre of the fingers
that are down, and it is one of two fingers once two are down. -/
structure Tracked (touches : Touches α) (g : Gesture α) : Prop where
  last : g.last = some (touchCentre touches)
  fingers : 2 ≤ touches.length → g.fingers = 2

/-- Between two calls: no pointer is down twice, and the gesture in progress is
tracked. -/
structure Centred (s : State α) : Prop where
  nodup : s.touches.ids.Nodup
  tracked : ∀ g, s.gesture = some g → Tracked s.touches g

omit [Double α] in
theorem fingers_land (h : g.Ok) (touches : Touches α) (hlen : 2 ≤ touches.length) :
    (g.land touches).1.fingers = 2 := by
  rw [Gesture.land]
  rcases h.fingers with hone | htwo
  · rw [if_pos ⟨hlen, hone⟩]
    rfl
  · rw [if_neg (by omega)]
    exact htwo

theorem fingers_track (last centre : Point α) (frame : Option (Frame α)) :
    (g.track last centre frame).1.fingers = g.fingers := by
  grind [Gesture.track, Gesture.startDrag]

theorem last_track (last centre : Point α) (frame : Option (Frame α)) :
    (g.track last centre frame).1.last = some centre := by
  grind [Gesture.track, Gesture.startDrag]

theorem Step.centred {e : Event α} (hstep : Step s e s') (h : Centred s) : Centred s' := by
  cases hstep with
  | first event =>
      refine ⟨List.nodup_singleton _, fun g hg => ?_⟩
      obtain rfl := Option.some.inj hg
      exact ⟨rfl, fun hlen => absurd hlen (by simp)⟩
  | next event g hg =>
      refine ⟨Touches.nodup_set h.nodup, fun g' hg' => ?_⟩
      obtain rfl := Option.some.inj hg'
      exact ⟨rfl, fingers_land hg.ok _⟩
  | moved event frame g last hg hhas hlast =>
      refine ⟨Touches.nodup_set h.nodup, fun g' hg' => ?_⟩
      obtain rfl := Option.some.inj hg'
      refine ⟨last_track _ _ _, fun hlen => ?_⟩
      rw [State.landed, Touches.length_set hhas] at hlen
      rw [fingers_track]
      exact (h.tracked g hg.gesture).fingers hlen
  | strayMove => exact h
  | lifted event type g hg hhas hmore =>
      refine ⟨Touches.nodup_delete h.nodup, fun g' hg' => ?_⟩
      obtain rfl := Option.some.inj hg'
      refine ⟨rfl, fun hlen => ?_⟩
      have hle : (s.touches.delete event.pointerId).length ≤ s.touches.length :=
        List.length_filter_le _ _
      exact (h.tracked g hg.gesture).fingers (hlen.trans hle)
  | ended event type g hg =>
      refine ⟨by simp [Touches.ids], fun g' hg' => ?_⟩
      rw [gesture_finish] at hg'
      contradiction
  | strayUp => exact h
  | fired id htouches hgesture =>
      exact ⟨h.nodup, h.tracked⟩

theorem centred_of_run {es : List (Event α)} (h : machine.Run init es s) : Centred s := by
  have hboth := h.invariant (I := fun s => Inv s ∧ Centred s)
    ⟨inv_init, by simp [init, Touches.ids], by simp [init]⟩
    fun s e s' hs hstep => ⟨(step_of_eq hs.1 hstep).inv hs.1, (step_of_eq hs.1 hstep).centred hs.2⟩
  exact hboth.2

/-! ## What a movement sends -/

/-- The movement of a centre, in fractions of a frame, at the trackpad's speed or
not. -/
theorem distance_track {last centre : Point α} {frame : Option (Frame α)}
    (hspeed : ∀ x : α, x * trackpadSpeed = x) :
    (g.track last centre frame).2.filterMap Message.distance =
      if (g.track last centre frame).1.moved then
        (frame.map fun f => ((centre.x - last.x) / f.width, (centre.y - last.y) / f.height)).toList
      else [] := by
  unfold Gesture.track
  dsimp only
  split
  · next hslop => simp [hslop.1]
  · cases frame with
    | none => simp
    | some f =>
        dsimp only
        split
        · simp [Message.distance]
        · unfold Gesture.startDrag
          dsimp only
          split <;> simp only [hspeed] <;> rfl

/-- Nothing that moves is sent before the slop. -/
theorem motion_track {last centre : Point α} {frame : Option (Frame α)} {m : Message α}
    (hm : m ∈ (g.track last centre frame).2) : (g.track last centre frame).1.moved := by
  unfold Gesture.track at hm ⊢
  dsimp only at hm ⊢
  split at hm
  · contradiction
  · next hslop =>
    rw [if_neg hslop]
    cases frame with
    | none => contradiction
    | some f =>
        dsimp only
        split
        · rfl
        · unfold Gesture.startDrag
          dsimp only
          split <;> rfl

/-- A gesture of two fingers does not move the cursor. -/
theorem moveRel_track {last centre : Point α} {frame : Option (Frame α)} {dx dy : α}
    (hfingers : g.fingers = 2) : .moveRel dx dy ∉ (g.track last centre frame).2 := by
  unfold Gesture.track
  dsimp only
  split
  · simp
  · cases frame with
    | none => simp
    | some f => simp

theorem travelled_track (last centre : Point α) (frame : Option (Frame α)) :
    (g.track last centre frame).1.travelled =
      g.travelled + Double.hypot (centre.x - last.x) (centre.y - last.y) := by
  grind [Gesture.track, Gesture.startDrag]

theorem moved_track (last centre : Point α) (frame : Option (Frame α)) :
    (g.track last centre frame).1.moved =
      (g.moved || !Double.lt (g.track last centre frame).1.travelled tapSlopPx) := by
  rw [travelled_track]
  grind [Gesture.track, Gesture.startDrag]

/-- A message that moves nothing. -/
def Message.still (m : Message α) : Prop := m.isMotion = false ∧ m.distance = none

omit [Double α] in
theorem still_land {touches : Touches α} : ∀ m ∈ (g.land touches).2, m.still := by
  unfold Gesture.land Gesture.secondFinger
  split
  · cases g.owesClick <;> cases g.dragging <;>
      simp [leftClick, Message.still, Message.isMotion, Message.distance]
  · simp

/-- The end of a gesture moves nothing. -/
theorem still_ending : ∀ m ∈ g.ending event type, m.still := by
  have hclick (b : Button) : Message.still (.click b : Message α) := ⟨rfl, rfl⟩
  have hrelease : Message.still (.release .left : Message α) := ⟨rfl, rfl⟩
  unfold Gesture.ending leftClick
  grind

omit [Double α] in
theorem filterMap_still {out : List (Message α)} (h : ∀ m ∈ out, m.still) :
    out.filterMap Message.distance = [] :=
  List.filterMap_eq_nil_iff.mpr fun m hm => (h m hm).2

/-- The distance that a step sends, if it does: the movement of the centre, once the
gesture has moved. -/
def centreMovement (s s' : State α) : Event α → List (α × α)
  | .move event frame =>
      if s.touches.has event.pointerId && s'.gesture.any (·.moved) then
        (frame.map fun f =>
          (((touchCentre (s.landed event)).x - (touchCentre s.touches).x) / f.width,
            ((touchCentre (s.landed event)).y - (touchCentre s.touches).y) / f.height)).toList
      else []
  | _ => []

/-- What a step sends: only movements move anything, and only by that of the centre. -/
theorem Step.exists_out {e : Event α} (hstep : Step s e s') (hcentred : Centred s)
    (hspeed : ∀ x : α, x * trackpadSpeed = x) :
    ∃ out, s'.sent = s.sent ++ out ∧ out.filterMap Message.distance = centreMovement s s' e ∧
      ∀ m ∈ out, m.isMotion → s'.gesture.any (·.moved) := by
  have hstill {out : List (Message α)} (h : ∀ m ∈ out, m.still) :
      ∀ m ∈ out, m.isMotion → s'.gesture.any (·.moved) := by
    intro m hm hmotion
    rw [(h m hm).1] at hmotion
    contradiction
  cases hstep with
  | first event => exact ⟨[], (List.append_nil _).symm, rfl, hstill (by simp)⟩
  | next event g hg => exact ⟨_, rfl, filterMap_still still_land, hstill still_land⟩
  | moved event frame g last hg hhas hlast =>
      obtain rfl : last = touchCentre s.touches :=
        Option.some.inj (hlast.symm.trans (hcentred.tracked g hg.gesture).last)
      refine ⟨_, rfl, ?_, fun m hm _ => motion_track hm⟩
      rw [distance_track hspeed, centreMovement, hhas]
      rfl
  | strayMove event frame hhas =>
      refine ⟨[], (List.append_nil _).symm, ?_, hstill (by simp)⟩
      rw [centreMovement, Bool.not_eq_true _ |>.mp hhas]
      rfl
  | lifted event => exact ⟨[], (List.append_nil _).symm, rfl, hstill (by simp)⟩
  | ended event type g hg =>
      exact ⟨_, sent_finish, filterMap_still still_ending, hstill still_ending⟩
  | strayUp => exact ⟨[], (List.append_nil _).symm, rfl, hstill (by simp)⟩
  | fired id =>
      exact ⟨[leftClick], rfl, rfl, hstill (by simp [Message.still, leftClick, Message.isMotion,
        Message.distance])⟩

/-- A gesture of two fingers stays one, and does not move the cursor. -/
theorem Step.two {e : Event α} (hstep : Step s e s')
    (htwo : ∀ g, s.gesture = some g → g.fingers = 2) (hs : s.gesture.isSome)
    (hs' : s'.gesture.isSome) :
    (∀ g, s'.gesture = some g → g.fingers = 2) ∧
      ∃ out, s'.sent = s.sent ++ out ∧ ∀ dx dy, .moveRel dx dy ∉ out := by
  cases hstep with
  | first event htouches hgesture =>
      rw [hgesture] at hs
      contradiction
  | next event g hg =>
      have hfingers := htwo g hg.gesture
      have hland : g.land (s.landed event) = (g, []) := by
        rw [Gesture.land, if_neg (by omega)]
      refine ⟨fun g' hg' => ?_, _, rfl, ?_⟩
      · obtain rfl := Option.some.inj hg'
        rw [hland]
        exact hfingers
      · simp [hland]
  | moved event frame g last hg =>
      have hfingers := htwo g hg.gesture
      refine ⟨fun g' hg' => ?_, _, rfl, fun dx dy => moveRel_track hfingers⟩
      obtain rfl := Option.some.inj hg'
      rw [fingers_track]
      exact hfingers
  | strayMove => exact ⟨htwo, [], (List.append_nil _).symm, by simp⟩
  | lifted event type g hg =>
      refine ⟨fun g' hg' => ?_, [], (List.append_nil _).symm, by simp⟩
      obtain rfl := Option.some.inj hg'
      exact htwo g hg.gesture
  | ended event type g hg =>
      rw [gesture_finish] at hs'
      contradiction
  | strayUp => exact ⟨htwo, [], (List.append_nil _).symm, by simp⟩
  | fired id htouches hgesture =>
      rw [hgesture] at hs
      contradiction

/-- Over a part of a gesture of two fingers. -/
theorem two_of_run {es : List (Event α)} (hrun : machine.Run s es s')
    (hduring : machine.Throughout s es fun s => s.gesture.isSome) (hinv : Inv s)
    (htwo : ∀ g, s.gesture = some g → g.fingers = 2) :
    (Inv s' ∧ ∀ g, s'.gesture = some g → g.fingers = 2) ∧
      ∃ out, s'.sent = s.sent ++ out ∧ ∀ dx dy, .moveRel dx dy ∉ out := by
  refine hrun.rec_throughout hduring (P := fun _ s' =>
    (Inv s' ∧ ∀ g, s'.gesture = some g → g.fingers = 2) ∧
      ∃ out, s'.sent = s.sent ++ out ∧ ∀ dx dy, .moveRel dx dy ∉ out) ?_ ?_
  · exact ⟨⟨hinv, htwo⟩, [], (List.append_nil _).symm, by simp⟩
  · intro es e t t' hs hbefore hafter ⟨⟨hinv, hfingers⟩, out, hout, hnone⟩ hstep
    have hstep := step_of_eq hinv hstep
    obtain ⟨hfingers', new, hnew, hnone'⟩ := hstep.two hfingers hbefore hafter
    refine ⟨⟨hstep.inv hinv, hfingers'⟩, out ++ new, by rw [hnew, hout, List.append_assoc], ?_⟩
    intro dx dy hmem
    exact (List.mem_append.mp hmem).elim (hnone dx dy) (hnone' dx dy)

/-- A gesture that has moved has for as long as it lasts. -/
theorem Step.still_moved {e : Event α} (hstep : Step s e s') (hs : s.gesture.any (·.moved))
    (hs' : s'.gesture.isSome) : s'.gesture.any (·.moved) := by
  cases hstep with
  | first event htouches hgesture =>
      rw [hgesture] at hs
      contradiction
  | next event g hg =>
      rw [hg.gesture] at hs
      have hland : (g.land (s.landed event)).1.moved = g.moved := by
        grind [Gesture.land, Gesture.secondFinger]
      simpa [hland] using hs
  | moved event frame g last hg =>
      rw [hg.gesture] at hs
      have hmoved : g.moved = true := hs
      rw [Option.any_some, moved_track, hmoved, Bool.true_or]
  | strayMove => exact hs
  | lifted event type g hg =>
      rw [hg.gesture] at hs
      exact hs
  | ended event type g hg =>
      rw [gesture_finish] at hs'
      contradiction
  | strayUp => exact hs
  | fired id htouches hgesture =>
      rw [hgesture] at hs
      contradiction

/-! ## Exact arithmetic -/

section

variable {K : Type} [Field K] [LinearOrder K] [FloorRing K] {hypot : K → K → {r : K // 0 ≤ r}}
  {s s' : State K} {g : Gesture K} {event : PointerEvent K} {p : Point K}

/-- Exact arithmetic, with any measure of lengths. -/
@[reducible] def arithmetic (hypot : K → K → {r : K // 0 ≤ r}) : Double K :=
  { (Number.exact K).toDouble with hypot := fun x y => hypot x y }

/-- The trackpad, in exact arithmetic. -/
def exactMachine (hypot : K → K → {r : K // 0 ≤ r}) : Machine (State K) (Event K) :=
  letI := arithmetic hypot
  machine

/-- The average position of the fingers. -/
def average (touches : Touches K) : Point K :=
  ⟨(touches.map (·.2.x)).sum / touches.length, (touches.map (·.2.y)).sum / touches.length⟩

/-- What a movement of a finger that is down moves it by, divided by the number of
fingers. -/
def displacement (s : State K) : Event K → K × K
  | .move event _ =>
      match s.touches.find? (·.1 == event.pointerId) with
      | some t =>
          ((event.clientX - t.2.x) / s.touches.length, (event.clientY - t.2.y) / s.touches.length)
      | none => 0
  | _ => 0

omit [LinearOrder K] [FloorRing K] in
theorem foldl_add (touches : Touches K) (p : Point K) :
    touches.foldl (fun s t => (⟨s.x + t.2.x, s.y + t.2.y⟩ : Point K)) p =
      ⟨p.x + (touches.map (·.2.x)).sum, p.y + (touches.map (·.2.y)).sum⟩ := by
  induction touches generalizing p with
  | nil => simp
  | cons t touches ih => simp [ih, add_assoc]

theorem touchCentre_eq (touches : Touches K) :
    letI := arithmetic hypot
    touchCentre touches = average touches := by
  have hsum := foldl_add touches ⟨((0 : ℤ) : K), ((0 : ℤ) : K)⟩
  rw [Int.cast_zero, zero_add, zero_add] at hsum
  change (⟨(touches.foldl (fun s t => (⟨s.x + t.2.x, s.y + t.2.y⟩ : Point K))
      ⟨((0 : ℤ) : K), ((0 : ℤ) : K)⟩).x / ((touches.length : ℤ) : K),
    (touches.foldl (fun s t => (⟨s.x + t.2.x, s.y + t.2.y⟩ : Point K))
      ⟨((0 : ℤ) : K), ((0 : ℤ) : K)⟩).y / ((touches.length : ℤ) : K)⟩ : Point K) = _
  rw [Int.cast_zero, hsum, Int.cast_natCast]
  rfl

omit [Field K] [LinearOrder K] [FloorRing K] in
theorem find?_eq_some (hnodup : s.touches.ids.Nodup) (hmem : (event.pointerId, p) ∈ s.touches) :
    s.touches.find? (·.1 == event.pointerId) = some (event.pointerId, p) := by
  cases hfind : s.touches.find? (·.1 == event.pointerId) with
  | none => exact absurd (beq_self_eq_true _) (List.find?_eq_none.mp hfind _ hmem)
  | some t =>
      have hid : t.1 = event.pointerId := by simpa using List.find?_some hfind
      rw [List.inj_on_of_nodup_map hnodup (List.mem_of_find?_eq_some hfind) hmem hid]

/-- The centre moves by the displacement of the finger. -/
theorem average_landed (hnodup : s.touches.ids.Nodup) (hmem : (event.pointerId, p) ∈ s.touches)
    (frame : Option (Frame K)) :
    ((average (s.landed event)).x - (average s.touches).x,
      (average (s.landed event)).y - (average s.touches).y) =
        displacement s (.move event frame) := by
  have hhas : s.touches.has event.pointerId :=
    Touches.has_iff.mpr (List.mem_map_of_mem hmem)
  rw [displacement, find?_eq_some hnodup hmem, average, average, State.landed,
    Touches.length_set hhas, Touches.sum_set (·.x) hnodup hmem, Touches.sum_set (·.y) hnodup hmem]
  refine Prod.ext ?_ ?_
  · ring
  · ring

variable [IsStrictOrderedRing K]

/-- What a gesture travelled has reached the slop exactly if it has moved. -/
def Slop (s : State K) : Prop := ∀ g, s.gesture = some g → (g.moved ↔ 10 ≤ g.travelled)

theorem Step.slop {e : Event K} :
    letI := arithmetic hypot
    Step s e s' → Slop s → Slop s' := by
  let _ := arithmetic hypot
  intro hstep h g' hg'
  cases hstep with
  | first event =>
      obtain rfl := Option.some.inj hg'
      have hzero : ¬ (10 : K) ≤ ((0 : ℤ) : K) := by norm_num
      exact iff_of_false Bool.false_ne_true hzero
  | next event g hg =>
      obtain rfl := Option.some.inj hg'
      have hland : (g.land (s.landed event)).1.moved = g.moved ∧
          (g.land (s.landed event)).1.travelled = g.travelled := by
        grind [Gesture.land, Gesture.secondFinger]
      rw [hland.1, hland.2]
      exact h g hg.gesture
  | moved event frame g last hg =>
      obtain rfl := Option.some.inj hg'
      have hlt (x : K) : Double.lt x tapSlopPx = decide (x < ((10 : ℤ) : K)) := rfl
      have hnonneg : (0 : K) ≤ Double.hypot ((touchCentre (s.landed event)).x - last.x)
          ((touchCentre (s.landed event)).y - last.y) := (hypot _ _).2
      have hg := h g hg.gesture
      rw [moved_track, travelled_track, hlt, Bool.or_eq_true, hg, Bool.not_eq_true',
        decide_eq_false_iff_not, not_lt, Int.cast_ofNat]
      constructor
      · rintro (hle | hle)
        · exact hle.trans (le_add_of_nonneg_right hnonneg)
        · exact hle
      · exact .inr
  | strayMove => exact h g' hg'
  | lifted event type g hg =>
      obtain rfl := Option.some.inj hg'
      exact h g hg.gesture
  | ended event type g hg =>
      rw [gesture_finish] at hg'
      contradiction
  | strayUp => exact h g' hg'
  | fired => exact h g' hg'

/-- What holds of a state between two calls. -/
structure Kept (hypot : K → K → {r : K // 0 ≤ r}) (s : State K) : Prop where
  inv : Inv s
  centred : letI := arithmetic hypot; Centred s
  slop : Slop s

omit [IsStrictOrderedRing K] in
theorem Kept.nodup (h : Kept hypot s) : s.touches.ids.Nodup := by
  let _ := arithmetic hypot
  exact h.centred.nodup

theorem Kept.step {e : Event K} (h : Kept hypot s) (hstep : (exactMachine hypot).step s e = some s') :
    letI := arithmetic hypot
    Step s e s' ∧ Kept hypot s' := by
  let _ := arithmetic hypot
  have hs := step_of_eq h.inv hstep
  exact ⟨hs, hs.inv h.inv, hs.centred h.centred, hs.slop h.slop⟩

theorem kept_of_run {es : List (Event K)} (h : (exactMachine hypot).Run init es s) :
    Kept hypot s := by
  let _ := arithmetic hypot
  refine h.invariant (I := Kept hypot) ⟨inv_init, ?_, ?_⟩ fun s e s' hs hstep => (hs.step hstep).2
  · exact ⟨List.nodup_nil, fun g hg => absurd hg (by simp [init])⟩
  · exact fun g hg => absurd hg (by simp [init])

omit [IsStrictOrderedRing K] in
theorem mul_speed (x : K) : letI := arithmetic hypot; x * trackpadSpeed = x := by
  change x * ((1 : ℤ) : K) = x
  rw [Int.cast_one, mul_one]

/-- The distance, in fractions of a frame. -/
def inFrame (f : Frame K) (d : K × K) : K × K := (d.1 / f.width, d.2 / f.height)

/-- The distance that a step sends, if it does: the displacement of a finger, in
fractions of the frame, once the gesture has moved. -/
def movement (s s' : State K) : Event K → List (K × K)
  | .move event frame =>
      if s.touches.has event.pointerId && s'.gesture.any (·.moved) then
        (frame.map fun f => inFrame f (displacement s (.move event frame))).toList
      else []
  | _ => []

omit [IsStrictOrderedRing K] in
theorem centreMovement_eq {e : Event K} (h : Kept hypot s) :
    letI := arithmetic hypot
    centreMovement s s' e = movement s s' e := by
  let _ := arithmetic hypot
  cases e with
  | move event frame =>
      rw [centreMovement, movement]
      cases hhas : s.touches.has event.pointerId with
      | false => rfl
      | true =>
          obtain ⟨p, hmem⟩ := Touches.has_iff_exists.mp hhas
          rw [← average_landed h.centred.nodup hmem frame, touchCentre_eq, touchCentre_eq]
          rfl
  | _ => rfl

/-- What a step sends: only the movement of a finger moves anything, and only once the
slop is passed. -/
theorem Kept.sent {e : Event K} (h : Kept hypot s) (hstep : (exactMachine hypot).step s e = some s') :
    ∃ out, s'.sent = s.sent ++ out ∧ out.filterMap Message.distance = movement s s' e ∧
      ∀ m ∈ out, m.isMotion → ∃ g, s'.gesture = some g ∧ 10 ≤ g.travelled := by
  obtain ⟨hs, hs'⟩ := h.step hstep
  obtain ⟨out, hout, hdistance, hmotion⟩ :=
    @Step.exists_out K (arithmetic hypot) _ _ _ hs h.centred mul_speed
  refine ⟨out, hout, hdistance.trans (centreMovement_eq h), fun m hm hm' => ?_⟩
  obtain ⟨g, hg, hmoved⟩ := (Option.any_eq_true _ _).mp (hmotion m hm hm')
  exact ⟨g, hg, (hs'.slop g hg).mp hmoved⟩

omit [IsStrictOrderedRing K] in
/-- A movement that is sent is that of a finger that is down. -/
theorem eq_of_mem_movement {e : Event K} {d : K × K} (h : Kept hypot s) (hd : d ∈ movement s s' e) :
    ∃ event f p, e = .move event (some f) ∧ (event.pointerId, p) ∈ s.touches ∧
      d = ((event.clientX - p.x) / s.touches.length / f.width,
        (event.clientY - p.y) / s.touches.length / f.height) := by
  cases e with
  | move event frame =>
      rw [movement] at hd
      split at hd
      · next hif =>
        obtain ⟨p, hmem⟩ := Touches.has_iff_exists.mp (Bool.and_eq_true _ _ |>.mp hif).1
        obtain ⟨f, rfl, rfl⟩ := Option.map_eq_some_iff.mp (Option.mem_toList.mp hd)
        refine ⟨event, f, p, rfl, hmem, ?_⟩
        rw [displacement, find?_eq_some h.nodup hmem]
        rfl
      · contradiction
  | _ => contradiction

/-- Part of a gesture: events during which there is one in progress. -/
def Stretch (hypot : K → K → {r : K // 0 ≤ r}) (s : State K) (es : List (Event K)) (s' : State K) :
    Prop :=
  (exactMachine hypot).Run s es s' ∧
    (exactMachine hypot).Throughout s es fun s => s.gesture.isSome

omit [LinearOrder K] [FloorRing K] [IsStrictOrderedRing K] in
theorem sum_movement {e : Event K} {f : Frame K} (hmoved : s'.gesture.any (·.moved))
    (hframe : ∀ event frame, e = .move event frame → frame = some f) :
    (movement s s' e).sum = inFrame f (displacement s e) := by
  have hzero : inFrame f 0 = 0 := Prod.ext (zero_div _) (zero_div _)
  cases e with
  | move event frame =>
      obtain rfl := hframe event frame rfl
      rw [movement, hmoved, Bool.and_true]
      cases hhas : s.touches.has event.pointerId with
      | true => exact List.sum_singleton
      | false =>
          have hnone : s.touches.find? (·.1 == event.pointerId) = none :=
            List.find?_eq_none.mpr (List.any_eq_false.mp hhas)
          rw [displacement, hnone, hzero]
          rfl
  | _ => exact hzero.symm

omit [LinearOrder K] [FloorRing K] [IsStrictOrderedRing K] in
theorem inFrame_add (f : Frame K) (d d' : K × K) :
    inFrame f (d + d') = inFrame f d + inFrame f d' :=
  Prod.ext (add_div _ _ _) (add_div _ _ _)

/-- Over a stretch past the slop, what is sent is what the fingers moved. -/
theorem sum_of_stretch {s₁ s₂ : State K} {es : List (Event K)} {f : Frame K} (h : Kept hypot s₁)
    (hmoved : s₁.gesture.any (·.moved)) (hstretch : Stretch hypot s₁ es s₂)
    (hframe : ∀ event frame, .move event frame ∈ es → frame = some f) :
    ∃ out, s₂.sent = s₁.sent ++ out ∧ (out.filterMap Message.distance).sum =
      inFrame f ((exactMachine hypot).total displacement s₁ es) := by
  obtain ⟨hrun, hthroughout⟩ := hstretch
  suffices hall : (Kept hypot s₂ ∧ s₂.gesture.any (·.moved)) ∧ ∃ out, s₂.sent = s₁.sent ++ out ∧
      (out.filterMap Message.distance).sum =
        inFrame f ((exactMachine hypot).total displacement s₁ es) from hall.2
  refine hrun.rec_throughout hthroughout (P := fun es s =>
    (∀ event frame, .move event frame ∈ es → frame = some f) →
    (Kept hypot s ∧ s.gesture.any (·.moved)) ∧ ∃ out, s.sent = s₁.sent ++ out ∧
      (out.filterMap Message.distance).sum =
        inFrame f ((exactMachine hypot).total displacement s₁ es)) ?_ ?_ hframe
  · intro _
    exact ⟨⟨h, hmoved⟩, [], (List.append_nil _).symm, Prod.ext (zero_div _).symm (zero_div _).symm⟩
  · intro es e s s' hs _ hafter ih hstep hframe
    obtain ⟨⟨hkept, hmoved⟩, out, hout, hsum⟩ :=
      ih fun event frame hmem => hframe event frame (List.mem_append_left _ hmem)
    obtain ⟨hs', hkept'⟩ := hkept.step hstep
    obtain ⟨new, hnew, hdistance, -⟩ := hkept.sent hstep
    have hmoved' := @Step.still_moved K (arithmetic hypot) _ _ _ hs' hmoved hafter
    refine ⟨⟨hkept', hmoved'⟩, out ++ new, by rw [hnew, hout, List.append_assoc], ?_⟩
    have hlast : ∀ event frame, e = .move event frame → frame = some f := by
      rintro event frame rfl
      exact hframe event frame (List.mem_append_right _ List.mem_cons_self)
    rw [List.filterMap_append, List.sum_append, hsum, hdistance, sum_movement hmoved' hlast,
      Machine.total_snoc hs, inFrame_add]

/-- The way that a step adds to the centre's: that of the finger that moves. -/
def way (hypot : K → K → {r : K // 0 ≤ r}) (s : State K) : Event K → K
  | .move event frame =>
      if s.touches.has event.pointerId then
        hypot (displacement s (.move event frame)).1 (displacement s (.move event frame)).2
      else 0
  | _ => 0

omit [IsStrictOrderedRing K] in
theorem Kept.travelled {e : Event K} {g' : Gesture K} (h : Kept hypot s)
    (hstep : (exactMachine hypot).step s e = some s') (hg : s.gesture = some g)
    (hg' : s'.gesture = some g') : g'.travelled = g.travelled + way hypot s e := by
  let _ := arithmetic hypot
  cases step_of_eq h.inv hstep with
  | first event htouches hgesture =>
      rw [hgesture] at hg
      contradiction
  | next event g₀ hg₀ =>
      obtain rfl : g₀ = g := Option.some.inj (hg₀.gesture.symm.trans hg)
      obtain rfl := Option.some.inj hg'
      have hland : (g₀.land (s.landed event)).1.travelled = g₀.travelled := by
        grind [Gesture.land, Gesture.secondFinger]
      exact hland.trans (add_zero _).symm
  | moved event frame g₀ last hg₀ hhas hlast =>
      obtain rfl : g₀ = g := Option.some.inj (hg₀.gesture.symm.trans hg)
      obtain rfl := Option.some.inj hg'
      obtain rfl : last = touchCentre s.touches :=
        Option.some.inj (hlast.symm.trans (h.centred.tracked g₀ hg₀.gesture).last)
      obtain ⟨p, hmem⟩ := Touches.has_iff_exists.mp hhas
      rw [travelled_track, way, if_pos hhas, ← average_landed h.nodup hmem, touchCentre_eq,
        touchCentre_eq]
      rfl
  | strayMove event frame hhas =>
      obtain rfl := Option.some.inj (hg.symm.trans hg')
      rw [way, if_neg hhas, add_zero]
  | lifted event type g₀ hg₀ =>
      obtain rfl : g₀ = g := Option.some.inj (hg₀.gesture.symm.trans hg)
      obtain rfl := Option.some.inj hg'
      exact (add_zero _).symm
  | ended =>
      rw [gesture_finish] at hg'
      contradiction
  | strayUp =>
      obtain rfl := Option.some.inj (hg.symm.trans hg')
      exact (add_zero _).symm
  | fired id htouches hgesture =>
      rw [hgesture] at hg
      contradiction

/-- **What a gesture travelled is what its fingers moved the centre by**: nothing when the
first one lands, and then the way of each movement. -/
theorem travelled_of_stretch {s₁ s₂ : State K} {es : List (Event K)} {g₁ g₂ : Gesture K}
    (h : Kept hypot s₁) (hstretch : Stretch hypot s₁ es s₂) (hg₁ : s₁.gesture = some g₁)
    (hg₂ : s₂.gesture = some g₂) :
    g₂.travelled = g₁.travelled + (exactMachine hypot).total (way hypot) s₁ es := by
  obtain ⟨hrun, hduring⟩ := hstretch
  suffices hall : Kept hypot s₂ ∧ ∀ g, s₂.gesture = some g →
      g.travelled = g₁.travelled + (exactMachine hypot).total (way hypot) s₁ es from hall.2 g₂ hg₂
  refine hrun.rec_throughout hduring (P := fun es s => Kept hypot s ∧ ∀ g, s.gesture = some g →
    g.travelled = g₁.travelled + (exactMachine hypot).total (way hypot) s₁ es) ?_ ?_
  · refine ⟨h, fun g hg => ?_⟩
    obtain rfl := Option.some.inj (hg.symm.trans hg₁)
    exact (add_zero _).symm
  · intro es e s s' hs hbefore _ ⟨hkept, htravelled⟩ hstep
    obtain ⟨g, hg⟩ := Option.isSome_iff_exists.mp hbefore
    refine ⟨(hkept.step hstep).2, fun g' hg' => ?_⟩
    rw [hkept.travelled hstep hg hg', htravelled g hg, Machine.total_snoc hs, add_assoc]

omit [IsStrictOrderedRing K] in
/-- Once a second finger has landed, the cursor is not moved. -/
theorem two_of_stretch {s₁ s₂ : State K} {es : List (Event K)} (h : Kept hypot s₁)
    (htwo : 2 ≤ s₁.touches.length) (hstretch : Stretch hypot s₁ es s₂) :
    ∃ out, s₂.sent = s₁.sent ++ out ∧ ∀ dx dy, .moveRel dx dy ∉ out := by
  let _ := arithmetic hypot
  exact (two_of_run hstretch.1 hstretch.2 h.inv fun g hg =>
    (h.centred.tracked g hg).fingers htwo).2

/-- **Fingers landing or lifting never move anything**: in every state with a gesture
in progress its last point is the average of the fingers that are down, so what is
sent is what the finger that moved contributes to it, once the slop is passed. -/
theorem landing_moves_nothing (hypot : K → K → {r : K // 0 ≤ r}) {es : List (Event K)}
    (hrun : (exactMachine hypot).Run init es s) :
    (∀ g, s.gesture = some g → g.last = some (average s.touches)) ∧
    (∀ e s', (exactMachine hypot).step s e = some s' → ∃ out, s'.sent = s.sent ++ out ∧
      (∀ m ∈ out, ∀ d, m.distance = some d → ∃ event f p, e = .move event (some f) ∧
        (event.pointerId, p) ∈ s.touches ∧
        d = ((event.clientX - p.x) / s.touches.length / f.width,
          (event.clientY - p.y) / s.touches.length / f.height)) ∧
      ∀ m ∈ out, m.isMotion → ∃ g, s'.gesture = some g ∧ 10 ≤ g.travelled) ∧
    (∀ g es' s' f, s.gesture = some g → 10 ≤ g.travelled → Stretch hypot s es' s' →
      (∀ event frame, .move event frame ∈ es' → frame = some f) →
      ∃ out, s'.sent = s.sent ++ out ∧ (out.filterMap Message.distance).sum =
        inFrame f ((exactMachine hypot).total displacement s es')) ∧
    ∀ es' s', 2 ≤ s.touches.length → Stretch hypot s es' s' →
      ∃ out, s'.sent = s.sent ++ out ∧ ∀ dx dy, .moveRel dx dy ∉ out := by
  have hkept := kept_of_run hrun
  refine ⟨fun g hg => ?_, fun e s' hstep => ?_, ?_, fun es' s' => two_of_stretch hkept⟩
  · let _ := arithmetic hypot
    rw [(hkept.centred.tracked g hg).last, touchCentre_eq]
  · obtain ⟨out, hout, hdistance, hmotion⟩ := hkept.sent hstep
    refine ⟨out, hout, fun m hm d hd => ?_, hmotion⟩
    exact eq_of_mem_movement hkept (hdistance ▸ List.mem_filterMap.mpr ⟨m, hm, hd⟩)
  · intro g es' s' f hg hslop hstretch hframe
    refine sum_of_stretch hkept ?_ hstretch hframe
    rw [hg, Option.any_some]
    exact (hkept.slop g hg).mpr hslop

end

/-- Lengths along the axes. -/
def axisLength (x y : ℚ) : {r : ℚ // 0 ≤ r} := ⟨|x| + |y|, add_nonneg (abs_nonneg x) (abs_nonneg y)⟩

/-- A finger slides; a second one lands and slides too, also when it is alone again. -/
theorem landing_moves_nothing_scroll :
    ∃ s s' out, (exactMachine axisLength).Run init
      [.down ⟨1, 0, 0, 0⟩, .move ⟨1, 20, 0, 10⟩ (some ⟨100, 50⟩)] s ∧
      (∀ g, s.gesture = some g → g.last = some (average s.touches)) ∧
      Stretch axisLength s [.down ⟨2, 40, 40, 20⟩, .move ⟨2, 40, 60, 30⟩ (some ⟨100, 50⟩),
        .up ⟨1, 20, 0, 40⟩ .pointerup, .move ⟨2, 60, 60, 50⟩ (some ⟨100, 50⟩)] s' ∧
      s'.sent = s.sent ++ out ∧
      (out.filterMap Message.distance).sum = inFrame ⟨100, 50⟩ ((exactMachine axisLength).total
        displacement s [.down ⟨2, 40, 40, 20⟩, .move ⟨2, 40, 60, 30⟩ (some ⟨100, 50⟩),
          .up ⟨1, 20, 0, 40⟩ .pointerup, .move ⟨2, 60, 60, 50⟩ (some ⟨100, 50⟩)]) ∧
      s'.sent = [.moveRel (1 / 5) 0, .scroll 0 (1 / 5), .scroll (1 / 5) 0] := by
  let es : List (Event ℚ) := [.down ⟨2, 40, 40, 20⟩, .move ⟨2, 40, 60, 30⟩ (some ⟨100, 50⟩),
    .up ⟨1, 20, 0, 40⟩ .pointerup, .move ⟨2, 60, 60, 50⟩ (some ⟨100, 50⟩)]
  obtain ⟨s, hrun, hend⟩ := (exactMachine axisLength).exists_run init
    [.down ⟨1, 0, 0, 0⟩, .move ⟨1, 20, 0, 10⟩ (some ⟨100, 50⟩)]
    (fun s => s.gesture.any (fun g => 10 ≤ g.travelled) &&
      decide ((exactMachine axisLength).Throughout s es fun s => s.gesture.isSome) &&
      ((exactMachine axisLength).exec s es).any fun s' =>
        s'.sent = [.moveRel (1 / 5) 0, .scroll 0 (1 / 5), .scroll (1 / 5) 0]) (by decide +kernel)
  simp only [Bool.and_eq_true, Option.any_eq_true, decide_eq_true_iff] at hend
  obtain ⟨⟨⟨g, hg, hslop⟩, hduring⟩, s', hes, hsent⟩ := hend
  obtain ⟨hlast, -, hsum, -⟩ := landing_moves_nothing axisLength hrun
  have hframe : ∀ event frame, .move event frame ∈ es → frame = some ⟨100, 50⟩ := by
    intro event frame hmem
    simp only [es, List.mem_cons, List.not_mem_nil, reduceCtorEq, Event.move.injEq, or_false,
      false_or] at hmem
    rcases hmem with ⟨-, rfl⟩ | ⟨-, rfl⟩ <;> rfl
  obtain ⟨out, hout, hout'⟩ := hsum g es s' ⟨100, 50⟩ hg hslop ⟨hes, hduring⟩ hframe
  exact ⟨s, s', out, hrun, hlast, ⟨hes, hduring⟩, hout, hout', hsent⟩

end RemoteBridge.Trackpad
