import Mathlib.Data.List.Nodup
import RemoteBridge.Binary64
import RemoteBridge.Trackpad.Invariant

/-!
# Trackpad.Watch

What an observer of the events sees, without a look at the trackpad: where the fingers are
that are down and, of the gesture they make, when it started, how far its centre has moved
and whether it may still be a tap.  The trackpad's own record says the same.
-/

namespace RemoteBridge.Trackpad

/-! ## Touches -/

namespace Touches

variable {α : Type} {touches : Touches α} {id id' : Int} {p p' : Point α}

/-- The pointers that are down. -/
def ids (touches : Touches α) : List Int := touches.map Prod.fst

theorem has_iff : touches.has id ↔ id ∈ touches.ids := by
  simp [has, ids]

theorem ids_set : (touches.set id p).ids =
    if touches.has id then touches.ids else touches.ids ++ [id] := by
  rw [set]
  split
  · rw [ids, List.map_map, ids]
    refine List.map_congr_left fun t _ => ?_
    by_cases ht : t.1 = id <;> simp [ht]
  · rw [ids, List.map_append, ids]
    rfl

theorem nodup_set (h : touches.ids.Nodup) : (touches.set id p).ids.Nodup := by
  rw [ids_set]
  split
  · exact h
  · next hnot =>
    rw [Bool.not_eq_true, ← Bool.not_eq_true, has_iff] at hnot
    exact List.nodup_append.mpr ⟨h, List.nodup_singleton id, by grind⟩

theorem nodup_delete (h : touches.ids.Nodup) : (touches.delete id).ids.Nodup :=
  h.sublist ((List.filter_sublist ..).map Prod.fst)

theorem has_iff_exists : touches.has id ↔ ∃ p, (id, p) ∈ touches := by
  rw [has_iff, ids, List.mem_map]
  exact ⟨fun ⟨t, ht, hid⟩ => ⟨t.2, hid ▸ ht⟩, fun ⟨p, hp⟩ => ⟨(id, p), hp, rfl⟩⟩

/-- The pointer that landed or moved is where the event has it, the others stay. -/
theorem mem_set : (id', p') ∈ touches.set id p ↔
    if id' = id then p' = p else (id', p') ∈ touches := by
  rw [set]
  split
  · next hhas =>
    obtain ⟨q, hq⟩ := has_iff_exists.mp hhas
    rw [List.mem_map]
    constructor
    · rintro ⟨t, ht, heq⟩
      by_cases hid : t.1 = id <;> grind
    · intro h
      split at h
      · next hid => exact ⟨(id, q), hq, by simp [hid, h]⟩
      · next hid => exact ⟨(id', p'), h, by simp [hid]⟩
  · next hnot =>
    have hnone : id' = id → (id', p') ∉ touches := by
      rintro rfl hmem
      exact hnot (has_iff_exists.mpr ⟨p', hmem⟩)
    rw [List.mem_append, List.mem_singleton, Prod.mk.injEq]
    split <;> grind

theorem delete_of_not_has (h : ¬ touches.has id) : touches.delete id = touches := by
  rw [Bool.not_eq_true, has, List.any_eq_false] at h
  rw [delete, List.filter_eq_self]
  exact fun t ht => by simpa using h t ht

theorem mem_delete : (id', p') ∈ touches.delete id ↔ id' ≠ id ∧ (id', p') ∈ touches := by
  rw [delete, List.mem_filter, bne_iff_ne, and_comm]

end Touches

/-! ## The observer -/

variable {α : Type}

/-- What an observer of the events keeps: the touches down, and of the current
gesture when it started, how far its centre has moved, whether there was never
more than one finger and whether the movement stayed below the slop. -/
structure Watch (α : Type) where
  touches : Touches α
  startedAt : α
  centre : Point α
  travelled : α
  alone : Bool
  still : Bool
  taps : Nat

variable [Double α]

def Watch.init : Watch α :=
  ⟨[], Double.ofInt 0, ⟨Double.ofInt 0, Double.ofInt 0⟩, Double.ofInt 0, true, true, 0⟩

/-- The first touch of a gesture. -/
def Watch.start (w : Watch α) (event : PointerEvent α) : Watch α :=
  { w with startedAt := event.timeStamp, travelled := Double.ofInt 0, alone := true, still := true }

/-- The touches with this pointer where the event has it. -/
def Watch.landed (w : Watch α) (event : PointerEvent α) : Touches α :=
  w.touches.set event.pointerId ⟨event.clientX, event.clientY⟩

/-- How far the centre has moved once this pointer moved. -/
def Watch.path (w : Watch α) (event : PointerEvent α) : α :=
  w.travelled + Double.hypot ((touchCentre (w.landed event)).x - w.centre.x)
    ((touchCentre (w.landed event)).y - w.centre.y)

/-- Whether the gesture that ends here was a one-finger tap. -/
def Watch.isTap (w : Watch α) (event : PointerEvent α) (type : LiftType) : Bool :=
  w.alone && w.still && !Double.lt tapMaxMs (event.timeStamp - w.startedAt) && type = .pointerup

/-- What the observer makes of one event. -/
def Watch.see (w : Watch α) : Event α → Watch α
  | .down event =>
      let w := if w.touches = [] then w.start event else w
      { w with
        touches := w.landed event
        centre := touchCentre (w.landed event)
        alone := w.alone && (w.landed event).length < 2 }
  | .move event _ =>
      if w.touches.has event.pointerId then
        { w with
          touches := w.landed event
          centre := touchCentre (w.landed event)
          travelled := w.path event
          still := w.still && Double.lt (w.path event) tapSlopPx }
      else w
  | .up event type =>
      if w.touches.has event.pointerId then
        let touches := w.touches.delete event.pointerId
        if touches = [] then
          { w with touches, taps := if w.isTap event type then w.taps + 1 else w.taps }
        else { w with touches, centre := touchCentre touches }
      else w
  | .fire _ => w

/-- What is seen of a run. -/
def watch (es : List (Event α)) : Watch α := es.foldl .see .init

/-- The observer agrees with the gesture record. -/
structure Seen (w : Watch α) (g : Gesture α) : Prop where
  startedAt : w.startedAt = g.startedAt
  centre : g.last = some w.centre
  travelled : w.travelled = g.travelled
  alone : w.alone = decide (g.fingers = 1)
  still : w.still = !g.moved

/-- The observer agrees with the state. -/
structure Watched (w : Watch α) (s : State α) : Prop where
  touches : w.touches = s.touches
  seen : ∀ g, s.gesture = some g → Seen w g

variable {w : Watch α} {s s' : State α} {g : Gesture α} {event : PointerEvent α}

/-- The observer's part of a movement. -/
theorem seen_track {last : Point α} {frame : Option (Frame α)} (hseen : Seen w g)
    (hlast : g.last = some last) (htouches : w.touches = s.touches) :
    Seen { w with
        touches := w.landed event
        centre := touchCentre (w.landed event)
        travelled := w.path event
        still := w.still && Double.lt (w.path event) tapSlopPx }
      (g.track last (touchCentre (s.landed event)) frame).1 := by
  have hlanded : w.landed event = s.landed event := by rw [Watch.landed, State.landed, htouches]
  obtain rfl : w.centre = last := Option.some.inj (hseen.centre.symm.trans hlast)
  obtain ⟨hstarted, hcentre, htravelled, halone, hstill⟩ := hseen
  have hpath : w.path event = g.travelled + Double.hypot
      ((touchCentre (s.landed event)).x - w.centre.x)
      ((touchCentre (s.landed event)).y - w.centre.y) := by
    rw [Watch.path, hlanded, htravelled]
  rw [hlanded, hpath]
  constructor <;> grind [Gesture.track, Gesture.startDrag]

theorem seen_land (hseen : Seen w g) (hok : g.Ok) (touches : Touches α) :
    Seen { w with
        touches
        centre := touchCentre touches
        alone := w.alone && touches.length < 2 }
      { (g.land touches).1 with last := some (touchCentre touches) } := by
  have hfingers := hok.fingers
  obtain ⟨hstarted, hcentre, htravelled, halone, hstill⟩ := hseen
  constructor <;> grind [Gesture.land, Gesture.secondFinger]

/-- **One step** is seen: the record it leaves is what the observer makes of the event. -/
theorem watched_step {e : Event α} (h : Watched w s) (hstep : Step s e s') :
    Watched (w.see e) s' := by
  obtain ⟨htouches, hseen⟩ := h
  cases hstep with
  | first event hnone =>
      have hw : w.touches = [] := htouches.trans hnone
      refine ⟨by simp [Watch.see, Watch.landed, Watch.start, hw, Touches.set, Touches.has], ?_⟩
      rintro g' heq
      obtain rfl := Option.some.inj heq
      constructor <;> simp [Watch.see, Watch.landed, Watch.start, hw, Touches.set, Touches.has,
        firstGesture]
  | next event g hg =>
      have hw : w.touches ≠ [] := htouches ▸ hg.touches
      have hlanded : w.landed event = s.landed event := by rw [Watch.landed, State.landed, htouches]
      simp only [Watch.see, if_neg hw, hlanded]
      refine ⟨rfl, ?_⟩
      rintro g' heq
      obtain rfl := Option.some.inj heq
      exact seen_land (hseen g hg.gesture) hg.ok _
  | moved event frame g last hg hhas hlast =>
      have hw : w.touches.has event.pointerId := htouches ▸ hhas
      rw [Watch.see, if_pos hw]
      refine ⟨by rw [State.landed, Watch.landed, htouches], ?_⟩
      rintro g' heq
      obtain rfl := Option.some.inj heq
      exact seen_track (hseen g hg.gesture) hlast htouches
  | strayMove event frame hhas =>
      rw [Watch.see, if_neg (htouches ▸ hhas)]
      exact ⟨htouches, hseen⟩
  | lifted event type g hg hhas hmore =>
      simp only [Watch.see, htouches, if_pos hhas, if_neg hmore]
      refine ⟨rfl, ?_⟩
      rintro g' heq
      obtain rfl := Option.some.inj heq
      obtain ⟨hstarted, hcentre, htravelled, halone, hstill⟩ := hseen g hg.gesture
      exact ⟨hstarted, rfl, htravelled, halone, hstill⟩
  | ended event type g hg hhas hnone =>
      simp only [Watch.see, htouches, if_pos hhas, if_pos hnone]
      refine ⟨by rw [hnone, touches_finish], fun g' heq => ?_⟩
      rw [gesture_finish] at heq
      contradiction
  | strayUp event type hhas =>
      rw [Watch.see, if_neg (htouches ▸ hhas)]
      exact ⟨htouches, hseen⟩
  | fired id hnone hgesture =>
      exact ⟨htouches, fun g heq => by simp [fire, State.send, hgesture] at heq⟩

/-- **The trackpad's record is what an observer sees**, after any events. -/
theorem watched_of_run {es : List (Event α)} (h : machine.Run init es s) :
    Watched (watch es) s := by
  have hboth : Inv s ∧ Watched (watch es) s := by
    refine h.rec_snoc (P := fun es s => Inv s ∧ Watched (watch es) s)
      ⟨inv_init, rfl, fun g heq => by simp [init] at heq⟩ ?_
    intro es e s s' hrun ⟨hinv, hwatched⟩ hstep
    have hstep := step_of_eq hinv hstep
    rw [watch, List.foldl_append]
    exact ⟨hstep.inv hinv, watched_step hwatched hstep⟩
  exact hboth.2

/-! ## Where the fingers are -/

/-- Where each pointer was seen last, if it is down. -/
abbrev Fingers (α : Type) := Int → Option (Point α)

omit [Double α] in
def Fingers.see (fingers : Fingers α) : Event α → Fingers α
  | .down event =>
      Function.update fingers event.pointerId (some ⟨event.clientX, event.clientY⟩)
  | .move event _ =>
      if (fingers event.pointerId).isSome then
        Function.update fingers event.pointerId (some ⟨event.clientX, event.clientY⟩)
      else fingers
  | .up event _ => Function.update fingers event.pointerId none
  | .fire _ => fingers

def fingers (es : List (Event α)) : Fingers α := es.foldl .see fun _ => none

/-- The touches are the pointers that are down, once each. -/
structure Lists (touches : Touches α) (fingers : Fingers α) : Prop where
  nodup : touches.ids.Nodup
  mem : ∀ id p, (id, p) ∈ touches ↔ fingers id = some p

section

variable {touches : Touches α} {f : Fingers α} {es : List (Event α)}

omit [Double α] in
theorem Lists.has (h : Lists touches f) (id : Int) : touches.has id ↔ (f id).isSome := by
  rw [Touches.has_iff_exists, Option.isSome_iff_exists]
  exact exists_congr fun p => h.mem id p

omit [Double α] in
theorem Lists.set (h : Lists touches f) (id : Int) (p : Point α) :
    Lists (touches.set id p) (Function.update f id (some p)) where
  nodup := Touches.nodup_set h.nodup
  mem id' p' := by
    rw [Touches.mem_set, Function.update_apply]
    split
    · rw [Option.some.injEq, eq_comm]
    · exact h.mem id' p'

omit [Double α] in
theorem Lists.delete (h : Lists touches f) (id : Int) :
    Lists (touches.delete id) (Function.update f id none) where
  nodup := Touches.nodup_delete h.nodup
  mem id' p' := by
    rw [Touches.mem_delete, Function.update_apply, h.mem]
    split <;> simp [*]

theorem Lists.see {e : Event α} (h : Lists w.touches f) : Lists (w.see e).touches (f.see e) := by
  cases e with
  | down event =>
      have hlanded : (w.see (.down event)).touches = w.landed event := by
        rw [Watch.see]
        split <;> rfl
      rw [hlanded]
      exact h.set _ _
  | move event frame =>
      rw [Watch.see, Fingers.see]
      by_cases hhas : w.touches.has event.pointerId
      · rw [if_pos hhas, if_pos ((h.has _).mp hhas)]
        exact h.set _ _
      · rw [if_neg hhas, if_neg fun hsome => hhas ((h.has _).mpr hsome)]
        exact h
  | up event type =>
      have hdeleted : (w.see (.up event type)).touches = w.touches.delete event.pointerId := by
        rw [Watch.see]
        split
        · dsimp only
          split <;> rfl
        · next hnot => exact (Touches.delete_of_not_has hnot).symm
      rw [hdeleted]
      exact h.delete _
  | fire => exact h

theorem lists_watch (es : List (Event α)) : Lists (watch es).touches (fingers es) := by
  induction es using List.reverseRecOn with
  | nil => exact ⟨List.nodup_nil, fun id p => by simp [watch, Watch.init, fingers]⟩
  | append_singleton es e ih =>
      rw [watch, fingers, List.foldl_append, List.foldl_append]
      exact ih.see

/-- The touches of a run are where the events left the fingers. -/
theorem mem_touches_iff {id : Int} {p : Point α} (hrun : machine.Run init es s) :
    (id, p) ∈ s.touches ↔ fingers es id = some p := by
  rw [← (watched_of_run hrun).touches]
  exact (lists_watch es).mem id p

omit [Double α] in
/-- One pointer is down. -/
theorem Lists.eq_singleton {id : Int} {p : Point α} (h : Lists touches f) (hdown : f id = some p)
    (halone : ∀ id', id' ≠ id → f id' = none) : touches = [(id, p)] := by
  have hall : ∀ t ∈ touches, t = (id, p) := by
    rintro ⟨id', p'⟩ ht
    have hid := (h.mem id' p').mp ht
    by_cases heq : id' = id
    · subst heq
      rw [hdown] at hid
      rw [Option.some.inj hid]
    · rw [halone id' heq] at hid
      contradiction
  have hmem := (h.mem id p).mpr hdown
  have hnodup := h.nodup
  match touches, hall, hmem, hnodup with
  | [t], hall, _, _ => rw [hall t List.mem_cons_self]
  | t :: t' :: rest, hall, _, hnodup =>
      have ht := hall t List.mem_cons_self
      have ht' := hall t' (List.mem_cons_of_mem _ List.mem_cons_self)
      rw [ht, ht'] at hnodup
      simp [Touches.ids] at hnodup

/-! ## What it measures from -/

theorem Watch.centred_see {e : Event α}
    (h : w.touches ≠ [] → w.centre = touchCentre w.touches) (hdown : (w.see e).touches ≠ []) :
    (w.see e).centre = touchCentre (w.see e).touches := by
  cases e with
  | down event =>
      rfl
  | move event frame =>
      rw [see] at hdown ⊢
      split
      · rfl
      · next hnot =>
        rw [if_neg hnot] at hdown
        exact h hdown
  | up event type =>
      rw [see] at hdown ⊢
      split
      · next hhas =>
        rw [if_pos hhas] at hdown
        dsimp only at hdown ⊢
        split
        · next hnone =>
          rw [if_pos hnone] at hdown
          contradiction
        · rfl
      · next hnot =>
        rw [if_neg hnot] at hdown
        exact h hdown
  | fire => exact h hdown

/-- While fingers are down, the next movement is measured from their centre. -/
theorem centre_watch (h : (watch es).touches ≠ []) :
    (watch es).centre = touchCentre (watch es).touches := by
  induction es using List.reverseRecOn with
  | nil => contradiction
  | append_singleton es e ih =>
      rw [watch, List.foldl_append] at h ⊢
      exact Watch.centred_see ih h

end

section

variable {hypot : Binary64 → Binary64 → Binary64} {es : List (Event Binary64)}
  {event : PointerEvent Binary64} {p : Point Binary64}

/-- The centre of one finger is its position. -/
theorem touchCentre_singleton (id : Int) (p : Point Binary64) :
    letI := Binary64.number hypot
    touchCentre [(id, p)] = p := by
  change (⟨((Binary64.ofInt 0).add p.x).div (.ofInt 1), ((Binary64.ofInt 0).add p.y).div (.ofInt 1)⟩ :
    Point Binary64) = p
  rw [Binary64.ofInt_zero_add, Binary64.ofInt_zero_add, Binary64.div_ofInt_one,
    Binary64.div_ofInt_one]

/-- **One finger is measured by its own positions.** -/
theorem path_alone (hdown : fingers es event.pointerId = some p)
    (halone : ∀ id, id ≠ event.pointerId → fingers es id = none) :
    letI := Binary64.number hypot
    (watch es).path event = (watch es).travelled.add
      (hypot (event.clientX.sub p.x) (event.clientY.sub p.y)) := by
  let _ := Binary64.number hypot
  have htouches := (lists_watch es).eq_singleton hdown halone
  have hlanded : (watch es).landed event =
      [(event.pointerId, ⟨event.clientX, event.clientY⟩)] := by
    simp [Watch.landed, htouches, Touches.set, Touches.has]
  have hcentre : (watch es).centre = p := by
    rw [centre_watch (by simp [htouches]), htouches]
    exact touchCentre_singleton _ p
  rw [Watch.path, hlanded, hcentre, @touchCentre_singleton hypot]
  rfl

end

end RemoteBridge.Trackpad
