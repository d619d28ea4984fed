import RemoteBridge.Trackpad

/-!
# Trackpad.Invariant

What the gesture record, the touch map and the timer say of one another between
two calls, and that no handler ever throws.
-/

namespace RemoteBridge.Trackpad

variable {α : Type}

/-- The record of a gesture in progress: dragging is for one finger that moved,
a drag owes no click, and until it starts an armed drag owes one. -/
structure Gesture.Ok (g : Gesture α) : Prop where
  last : g.last.isSome
  fingers : g.fingers = 1 ∨ g.fingers = 2
  drag : g.dragging → g.fingers = 1 ∧ g.moved ∧ ¬ g.owesClick
  owes : g.owesClick → g.fingers = 1
  armed : g.dragArmed → ¬ g.dragging → g.owesClick

/-- Between two calls, while a finger is down: a gesture is in progress and no
click is held back. -/
structure Touching (s : State α) (g : Gesture α) : Prop where
  touches : s.touches ≠ []
  gesture : s.gesture = some g
  ok : g.Ok
  heldClick : s.heldClick = none
  timers : s.timers = []

/-- Between two calls: a gesture is in progress, or no finger is down and the
pending timer is the held click's. -/
inductive Inv (s : State α) : Prop
  | idle (touches : s.touches = []) (gesture : s.gesture = none)
      (timers : s.timers = s.heldClick.toList)
  | touching (g : Gesture α) (h : Touching s g)

theorem inv_init : Inv (init : State α) := .idle rfl rfl rfl

/-- What a further finger does to the gesture. -/
def Gesture.land (g : Gesture α) (touches : Touches α) : Gesture α × List (Message α) :=
  if touches.length ≥ 2 ∧ g.fingers = 1 then g.secondFinger else (g, [])

theorem Gesture.Ok.land {g : Gesture α} (h : g.Ok) (touches : Touches α) (centre : Point α) :
    Gesture.Ok { (g.land touches).1 with last := some centre } := by
  obtain ⟨hlast, hfingers, hdrag, howes, harmed⟩ := h
  constructor <;> grind [Gesture.land, Gesture.secondFinger]

variable [Double α] {s s' : State α} {g : Gesture α} {event : PointerEvent α}
  {type : LiftType}

/-! ## The handlers, by their two cases -/

/-- The gesture the first finger starts. -/
def firstGesture (event : PointerEvent α) (afterTap : Bool) : Gesture α :=
  { startedAt := event.timeStamp
    fingers := 1
    travelled := Double.ofInt 0
    moved := false
    dragArmed := afterTap
    owesClick := afterTap
    dragging := false
    last := some (touchCentre [(event.pointerId, ⟨event.clientX, event.clientY⟩)]) }

/-- The first finger. -/
theorem down_first (htouches : s.touches = []) (htimers : s.timers = s.heldClick.toList) :
    down s event = some { s with
      touches := [(event.pointerId, ⟨event.clientX, event.clientY⟩)]
      gesture := some (firstGesture event s.heldClick.isSome)
      heldClick := none
      timers := [] } := by
  cases hheld : s.heldClick <;>
    simp [down, State.startGesture, firstGesture, Touches.set, Touches.has, htouches, htimers, hheld]

/-- The touches after one more finger. -/
def State.landed (s : State α) (event : PointerEvent α) : Touches α :=
  s.touches.set event.pointerId ⟨event.clientX, event.clientY⟩

/-- A further finger. -/
theorem down_next (htouches : s.touches ≠ []) (hg : s.gesture = some g) :
    down s event = some { s with
      touches := s.landed event
      gesture := some { (g.land (s.landed event)).1 with
        last := some (touchCentre (s.landed event)) }
      sent := s.sent ++ (g.land (s.landed event)).2 } := by
  simp only [down, List.length_eq_zero_iff, htouches, ↓reduceIte, hg, Option.bind_eq_bind,
    Option.bind_some]
  rfl

/-- A movement of a finger that is down. -/
theorem move_eq {last : Point α} {frame : Option (Frame α)} (hhas : s.touches.has event.pointerId)
    (hg : s.gesture = some g) (hlast : g.last = some last) :
    move s event frame = some { s with
      touches := s.landed event
      gesture := some (g.track last (touchCentre (s.landed event)) frame).1
      sent := s.sent ++ (g.track last (touchCentre (s.landed event)) frame).2 } := by
  simp only [move, hhas, not_true_eq_false, ↓reduceIte, hg, hlast, Option.bind_eq_bind,
    Option.bind_some]
  rfl

/-- A lift that leaves a finger down. -/
theorem up_more (hhas : s.touches.has event.pointerId) (hg : s.gesture = some g)
    (hmore : s.touches.delete event.pointerId ≠ []) :
    up s event type = some { s with
      touches := s.touches.delete event.pointerId
      gesture := some { g with
        last := some (touchCentre (s.touches.delete event.pointerId)) } } := by
  simp [up, hhas, hg, List.length_pos_iff, hmore]

/-- The last lift. -/
theorem up_last (hhas : s.touches.has event.pointerId) (hg : s.gesture = some g)
    (hlast : s.touches.delete event.pointerId = []) :
    up s event type =
      some (({ s with touches := [], gesture := none } : State α).finish event type g) := by
  simp [up, hhas, hg, hlast]

/-! ## One step -/

theorem Gesture.Ok.track (h : g.Ok) (last centre : Point α) (frame : Option (Frame α)) :
    (g.track last centre frame).1.Ok := by
  obtain ⟨hlast, hfingers, hdrag, howes, harmed⟩ := h
  constructor <;> grind [Gesture.track, Gesture.startDrag]

/-! ## What a step can be -/

/-- The steps from a state that meets the invariant. -/
inductive Step (s : State α) : Event α → State α → Prop
  | first (event : PointerEvent α) (touches : s.touches = []) (gesture : s.gesture = none) :
      Step s (.down event) { s with
        touches := [(event.pointerId, ⟨event.clientX, event.clientY⟩)]
        gesture := some (firstGesture event s.heldClick.isSome)
        heldClick := none
        timers := [] }
  | next (event : PointerEvent α) (g : Gesture α) (h : Touching s g) :
      Step s (.down event) { s with
        touches := s.landed event
        gesture := some
          { (g.land (s.landed event)).1 with last := some (touchCentre (s.landed event)) }
        sent := s.sent ++ (g.land (s.landed event)).2 }
  | moved (event : PointerEvent α) (frame : Option (Frame α)) (g : Gesture α) (last : Point α)
      (h : Touching s g) (has : s.touches.has event.pointerId) (hlast : g.last = some last) :
      Step s (.move event frame) { s with
        touches := s.landed event
        gesture := some (g.track last (touchCentre (s.landed event)) frame).1
        sent := s.sent ++ (g.track last (touchCentre (s.landed event)) frame).2 }
  | strayMove (event : PointerEvent α) (frame : Option (Frame α))
      (has : ¬ s.touches.has event.pointerId) : Step s (.move event frame) s
  | lifted (event : PointerEvent α) (type : LiftType) (g : Gesture α) (h : Touching s g)
      (has : s.touches.has event.pointerId) (more : s.touches.delete event.pointerId ≠ []) :
      Step s (.up event type) { s with
        touches := s.touches.delete event.pointerId
        gesture := some
          { g with last := some (touchCentre (s.touches.delete event.pointerId)) } }
  | ended (event : PointerEvent α) (type : LiftType) (g : Gesture α) (h : Touching s g)
      (has : s.touches.has event.pointerId) (noMore : s.touches.delete event.pointerId = []) :
      Step s (.up event type)
        (({ s with touches := [], gesture := none } : State α).finish event type g)
  | strayUp (event : PointerEvent α) (type : LiftType) (has : ¬ s.touches.has event.pointerId) :
      Step s (.up event type) s
  | fired (id : Nat) (touches : s.touches = []) (gesture : s.gesture = none)
      (heldClick : s.heldClick = some id) (timers : s.timers = [id]) :
      Step s (.fire id) (fire s id)

/-- Every handler call succeeds, and is one of these steps. -/
theorem exists_step (h : Inv s) :
    ∀ e : Event α, (∀ id, e = .fire id → id ∈ s.timers) →
      ∃ s', machine.step s e = some s' ∧ Step s e s' := by
  intro e hfire
  cases h with
  | idle htouches hgesture htimers =>
      have hhas : ∀ id, ¬ s.touches.has id := fun id h => Touches.ne_nil_of_has h htouches
      cases e with
      | down event => exact ⟨_, down_first htouches htimers, .first event htouches hgesture⟩
      | move event frame =>
          exact ⟨s, by simp [machine, move, hhas], .strayMove event frame (hhas _)⟩
      | up event type => exact ⟨s, by simp [machine, up, hhas], .strayUp event type (hhas _)⟩
      | fire id =>
          have hid := hfire id rfl
          have hheld : s.heldClick = some id := by rwa [htimers, Option.mem_toList] at hid
          exact ⟨_, if_pos hid, .fired id htouches hgesture hheld (by rw [htimers, hheld]; rfl)⟩
  | touching g h =>
      cases e with
      | down event => exact ⟨_, down_next h.touches h.gesture, .next event g h⟩
      | move event frame =>
          by_cases hhas : s.touches.has event.pointerId
          · obtain ⟨last, hlast⟩ := Option.isSome_iff_exists.mp h.ok.last
            exact ⟨_, move_eq hhas h.gesture hlast, .moved event frame g last h hhas hlast⟩
          · exact ⟨s, by simp [machine, move, hhas], .strayMove event frame hhas⟩
      | up event type =>
          by_cases hhas : s.touches.has event.pointerId
          · by_cases hmore : s.touches.delete event.pointerId = []
            · exact ⟨_, up_last hhas h.gesture hmore, .ended event type g h hhas hmore⟩
            · exact ⟨_, up_more hhas h.gesture hmore, .lifted event type g h hhas hmore⟩
          · exact ⟨s, by simp [machine, up, hhas], .strayUp event type hhas⟩
      | fire id =>
          have hid := hfire id rfl
          simp [h.timers] at hid

theorem step_of_eq {e : Event α} (h : Inv s) (hstep : machine.step s e = some s') :
    Step s e s' := by
  have hfire : ∀ id, e = .fire id → id ∈ s.timers := by
    rintro id rfl
    by_contra hid
    simp [machine, hid] at hstep
  obtain ⟨s₁, heq, hs₁⟩ := exists_step h e hfire
  exact Option.some.inj (heq.symm.trans hstep) ▸ hs₁

@[simp] theorem gesture_finish : (s.finish event type g).gesture = s.gesture := by
  grind [State.finish, State.send, State.holdClick]

@[simp] theorem touches_finish : (s.finish event type g).touches = s.touches := by
  grind [State.finish, State.send, State.holdClick]

/-- Whether a gesture that ends like this ends in a click of its own. -/
def Gesture.clicks (g : Gesture α) (event : PointerEvent α) (type : LiftType) : Bool :=
  !g.dragging && type = .pointerup && !g.moved &&
    !Double.lt tapMaxMs (event.timeStamp - g.startedAt)

/-- What is sent at the end of a gesture: a release, or the click it owes and a click
of its own, which is held back if it is a single tap's. -/
def Gesture.ending (g : Gesture α) (event : PointerEvent α) (type : LiftType) : List (Message α) :=
  if g.dragging then [.release .left]
  else
    (if g.owesClick then [leftClick] else []) ++
      if g.clicks event type then
        if g.fingers = 2 then [.click .right] else if g.owesClick then [leftClick] else []
      else []

theorem sent_finish : (s.finish event type g).sent = s.sent ++ g.ending event type := by
  unfold State.finish Gesture.ending Gesture.clicks
  dsimp only
  cases type <;> cases g.dragging <;> cases g.owesClick <;> cases g.moved <;>
    cases Double.lt tapMaxMs (event.timeStamp - g.startedAt) <;> by_cases hf : g.fingers = 2 <;>
    simp [hf, State.send, State.holdClick]

/-- The click that is held back is that of a single tap. -/
theorem heldClick_finish (g : Gesture α) (event : PointerEvent α) (type : LiftType)
    (hheld : s.heldClick = none) :
    (s.finish event type g).heldClick.isSome ↔
      g.clicks event type ∧ g.fingers ≠ 2 ∧ ¬ g.owesClick := by
  unfold State.finish Gesture.clicks
  dsimp only
  cases type <;> cases g.dragging <;> cases g.owesClick <;> cases g.moved <;>
    cases Double.lt tapMaxMs (event.timeStamp - g.startedAt) <;> by_cases hf : g.fingers = 2 <;>
    simp [hf, State.send, State.holdClick, hheld]

/-- Without fingers, a gesture that ends leaves at most one held click, with its
timer. -/
theorem inv_finish (htouches : s.touches = []) (hg : s.gesture = none) (hheld : s.heldClick = none)
    (htimers : s.timers = []) : Inv (s.finish event type g) := by
  refine .idle ?_ ?_ ?_ <;> grind [State.finish, State.send, State.holdClick]

theorem Step.inv {e : Event α} (h : Inv s) (hstep : Step s e s') : Inv s' := by
  cases hstep with
  | first event =>
      refine .touching _ ⟨by simp, rfl, ?_, rfl, rfl⟩
      constructor <;> simp [firstGesture]
  | next event g hg =>
      exact .touching _
        ⟨Touches.set_ne_nil _ _ _, rfl, hg.ok.land _ _, hg.heldClick, hg.timers⟩
  | moved event frame g last hg =>
      exact .touching _
        ⟨Touches.set_ne_nil _ _ _, rfl, hg.ok.track _ _ _, hg.heldClick, hg.timers⟩
  | strayMove => exact h
  | lifted event type g hg hhas hmore =>
      exact .touching _
        ⟨hmore, rfl, ⟨rfl, hg.ok.fingers, hg.ok.drag, hg.ok.owes, hg.ok.armed⟩, hg.heldClick,
          hg.timers⟩
  | ended event type g hg => exact inv_finish rfl rfl hg.heldClick hg.timers
  | strayUp => exact h
  | fired id htouches hgesture hheld htimers =>
      exact .idle htouches hgesture (by simp [fire, State.send, htimers])

theorem inv_of_run {es : List (Event α)} (h : machine.Run init es s) : Inv s :=
  h.invariant inv_init fun _ _ _ hs hstep => (step_of_eq hs hstep).inv hs

end RemoteBridge.Trackpad
