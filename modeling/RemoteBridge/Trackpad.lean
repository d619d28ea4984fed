import RemoteBridge.Double
import RemoteBridge.Machine

/-!
# Trackpad

The touch gestures of the page, `createTrackpad` in `input.mjs`: the handlers of
pointer events and of the timer that holds a tap's click back, as a machine.

A handler is `none` where JavaScript would throw, on a property of null.
-/

namespace RemoteBridge

/-- A mouse button, as the messages name it. -/
inductive Button where
  | left
  | right
deriving DecidableEq

namespace Trackpad

variable {α : Type}

/-- What the trackpad sends. -/
inductive Message (α : Type) where
  | click (button : Button)
  | press (button : Button)
  | release (button : Button)
  | scroll (dx dy : α)
  | moveRel (dx dy : α)
deriving DecidableEq

structure Point (α : Type) where
  x : α
  y : α
deriving DecidableEq

/-- What `frameSize` returns, when it does not return null. -/
structure Frame (α : Type) where
  width : α
  height : α

/-- The two types of event that `up` is called with. -/
inductive LiftType where
  | pointerup
  | pointercancel
deriving DecidableEq

/-- A pointer event, less the type that its handler knows. -/
structure PointerEvent (α : Type) where
  pointerId : Int
  clientX : α
  clientY : α
  timeStamp : α

/-- The current gesture, from first touch to last lift. -/
structure Gesture (α : Type) where
  startedAt : α
  fingers : Nat
  travelled : α
  moved : Bool
  dragArmed : Bool
  owesClick : Bool
  dragging : Bool
  last : Option (Point α)

/-! ## Touches -/

/-- The `touches` map, in insertion order. -/
abbrev Touches (α : Type) := List (Int × Point α)

namespace Touches

/-- `touches.has`. -/
def has (touches : Touches α) (id : Int) : Bool := touches.any (·.1 == id)

/-- `touches.set`: a known pointer keeps its place. -/
def set (touches : Touches α) (id : Int) (p : Point α) : Touches α :=
  if touches.has id then touches.map fun t => if t.1 == id then (id, p) else t
  else touches ++ [(id, p)]

/-- `touches.delete`. -/
def delete (touches : Touches α) (id : Int) : Touches α := touches.filter (·.1 != id)

theorem set_ne_nil (touches : Touches α) (id : Int) (p : Point α) : touches.set id p ≠ [] := by
  unfold set
  split
  · rintro h
    rw [List.map_eq_nil_iff] at h
    simp_all [has]
  · simp

theorem ne_nil_of_has {touches : Touches α} {id : Int} (h : touches.has id) : touches ≠ [] := by
  rintro rfl
  simp [has] at h

end Touches

variable [Double α]

/-- The fingers' average position. -/
def touchCentre (touches : Touches α) : Point α :=
  let sum : Point α := touches.foldl (fun s t => ⟨s.x + t.2.x, s.y + t.2.y⟩)
    ⟨Double.ofInt 0, Double.ofInt 0⟩
  ⟨sum.x / Double.ofInt touches.length, sum.y / Double.ofInt touches.length⟩

/-! ## Constants -/

/-- A finger moving less than this is still tapping. -/
def tapSlopPx : α := Double.ofInt 10

/-- A touch held longer than this is not a tap. -/
def tapMaxMs : α := Double.ofInt 300

/-- Cursor distance per finger distance. -/
def trackpadSpeed : α := Double.ofInt 1

/-! ## State and handlers -/

/-- The variables `createTrackpad` closes over, what was sent so far and the
timers that may still run. -/
structure State (α : Type) where
  touches : Touches α
  gesture : Option (Gesture α)
  heldClick : Option Nat
  sent : List (Message α)
  timers : List Nat
  nextTimer : Nat

/-- A trackpad as created. -/
def init : State α := ⟨[], none, none, [], [], 0⟩

def State.send (s : State α) (m : Message α) : State α := { s with sent := s.sent ++ [m] }

def leftClick : Message α := .click .left

/-- The first finger: a click still held back becomes this gesture's to decide. -/
def State.startGesture (s : State α) (event : PointerEvent α) : State α :=
  let afterTap := s.heldClick.isSome
  { s with
    timers := match s.heldClick with
      | some id => s.timers.erase id
      | none => s.timers
    heldClick := none
    gesture := some
      { startedAt := event.timeStamp
        fingers := 1
        travelled := Double.ofInt 0
        moved := false
        dragArmed := afterTap
        owesClick := afterTap
        dragging := false
        last := none } }

/-- What landing a second finger does to the gesture, and what it sends. -/
def Gesture.secondFinger (g : Gesture α) : Gesture α × List (Message α) :=
  ({ g with fingers := 2, dragArmed := false, owesClick := false, dragging := false },
    (if g.owesClick then [leftClick] else []) ++ if g.dragging then [.release .left] else [])

def down (s : State α) (event : PointerEvent α) : Option (State α) := do
  let s := if s.touches.length = 0 then s.startGesture event else s
  let touches := s.touches.set event.pointerId ⟨event.clientX, event.clientY⟩
  let gesture ← s.gesture
  let (gesture, out) :=
    if touches.length ≥ 2 ∧ gesture.fingers = 1 then gesture.secondFinger else (gesture, [])
  some { s with
    touches
    gesture := some { gesture with last := some (touchCentre touches) }
    sent := s.sent ++ out }

/-- Arming a drag turns into dragging at the first movement that is sent. -/
def Gesture.startDrag (g : Gesture α) : Gesture α × List (Message α) :=
  if g.dragArmed ∧ ¬ g.dragging then
    ({ g with dragging := true, owesClick := false }, [.press .left])
  else (g, [])

/-- What a movement of the centre does to the gesture, and what it sends; `frame`
is what `frameSize` returns if it is called. -/
def Gesture.track (g : Gesture α) (last centre : Point α) (frame : Option (Frame α)) :
    Gesture α × List (Message α) :=
  let dx := centre.x - last.x
  let dy := centre.y - last.y
  let g := { g with last := some centre, travelled := g.travelled + Double.hypot dx dy }
  if ¬ g.moved ∧ Double.lt g.travelled tapSlopPx then (g, [])
  else
    let g := { g with moved := true }
    match frame with
    | none => (g, [])
    | some frame =>
        let fx := dx / frame.width
        let fy := dy / frame.height
        if g.fingers = 2 then (g, [.scroll fx fy])
        else
          let (g, out) := g.startDrag
          (g, out ++ [.moveRel (fx * trackpadSpeed) (fy * trackpadSpeed)])

def move (s : State α) (event : PointerEvent α) (frame : Option (Frame α)) :
    Option (State α) :=
  if ¬ s.touches.has event.pointerId then some s
  else do
    let touches := s.touches.set event.pointerId ⟨event.clientX, event.clientY⟩
    let gesture ← s.gesture
    let last ← gesture.last
    let (gesture, out) := gesture.track last (touchCentre touches) frame
    some { s with touches, gesture := some gesture, sent := s.sent ++ out }

/-- Holds a tap's click back (`timers.set`). -/
def State.holdClick (s : State α) : State α :=
  { s with
    heldClick := some s.nextTimer
    timers := s.timers ++ [s.nextTimer]
    nextTimer := s.nextTimer + 1 }

/-- The last lift: what becomes of the gesture that ended. -/
def State.finish (s : State α) (event : PointerEvent α) (type : LiftType) (ended : Gesture α) :
    State α :=
  if ended.dragging then s.send (.release .left)
  else
    let s := if ended.owesClick then s.send leftClick else s
    if type = .pointercancel then s
    else if ended.moved ∨ Double.lt tapMaxMs (event.timeStamp - ended.startedAt) then s
    else if ended.fingers = 2 then s.send (.click .right)
    else if ended.owesClick then s.send leftClick
    else s.holdClick

def up (s : State α) (event : PointerEvent α) (type : LiftType) : Option (State α) :=
  if ¬ s.touches.has event.pointerId then some s
  else do
    let touches := s.touches.delete event.pointerId
    let gesture ← s.gesture
    if touches.length > 0 then
      return { s with touches, gesture := some { gesture with last := some (touchCentre touches) } }
    some ({ s with touches, gesture := none : State α }.finish event type gesture)

/-- A timer runs: the click it holds back is sent. -/
def fire (s : State α) (id : Nat) : State α :=
  { s with timers := s.timers.erase id, heldClick := none }.send leftClick

/-! ## The machine -/

inductive Event (α : Type) where
  | down (event : PointerEvent α)
  | move (event : PointerEvent α) (frame : Option (Frame α))
  | up (event : PointerEvent α) (type : LiftType)
  | fire (id : Nat)

/-- The handlers are called in any order; a timer that was set and not cleared
may run once, between two calls. -/
def machine : Machine (State α) (Event α) where
  step s
    | .down event => down s event
    | .move event frame => move s event frame
    | .up event type => up s event type
    | .fire id => if id ∈ s.timers then some (fire s id) else none

end Trackpad

end RemoteBridge
