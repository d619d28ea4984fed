import RemoteBridge.Double

/-!
# Mouse

The page's direct pointing (`input.mjs`): where the frame is drawn in the video
element, where a pointer event is in the frame, and what `createMouse` sends.
-/

namespace RemoteBridge

namespace Mouse

/-- An area of the page: the element's bounding box, or the frame drawn in it. -/
structure Rect (α : Type) where
  left : α
  top : α
  width : α
  height : α

/-- A position in the frame, in fractions of it. -/
structure Position (α : Type) where
  x : α
  y : α

/-- The types of message that carry a position. -/
inductive MessageType where
  | down
  | move
  | up
deriving DecidableEq

structure Message (α : Type) where
  type : MessageType
  x : α
  y : α
deriving DecidableEq

/-- The pointer events of a mouse; the button of the others is not looked at. -/
inductive PointerEvent where
  | pointerdown (button : Int)
  | pointermove
  | pointerup
  | pointercancel
deriving DecidableEq

variable {α : Type} [Number α]

/-! ## Positions -/

/-- The area the video is drawn in (`object-fit: contain`), null before it has a
size. -/
def frameRect (videoWidth videoHeight : Nat) (rect : Rect α) : Option (Rect α) :=
  if videoWidth = 0 ∨ videoHeight = 0 then none
  else
    let videoWidth : α := Double.ofInt videoWidth
    let videoHeight : α := Double.ofInt videoHeight
    let scale := Double.min (rect.width / videoWidth) (rect.height / videoHeight)
    some
      { left := rect.left + (rect.width - videoWidth * scale) / Double.ofInt 2
        top := rect.top + (rect.height - videoHeight * scale) / Double.ofInt 2
        width := videoWidth * scale
        height := videoHeight * scale }

def framePosition (frame : Option (Rect α)) (clientX clientY : α) : Option (Position α) :=
  frame.map fun frame =>
    { x := (clientX - frame.left) / frame.width
      y := (clientY - frame.top) / frame.height }

def clamp01 (v : α) : α := Double.min (Number.max v (Double.ofInt 0)) (Double.ofInt 1)

def positionMessage (type : MessageType) (pos : Position α) : Message α :=
  ⟨type, clamp01 pos.x, clamp01 pos.y⟩

/-- A position on the black bars around the video, or off the page. -/
def Position.outside (pos : Position α) : Bool :=
  Double.lt pos.x (Double.ofInt 0) || Double.lt (Double.ofInt 1) pos.x ||
    Double.lt pos.y (Double.ofInt 0) || Double.lt (Double.ofInt 1) pos.y

/-! ## Handling -/

/-- What a call of `handle` leaves in `down`, what it sent, and what it returned:
whether a press started. -/
structure Handled (α : Type) where
  down : Bool
  sent : List (Message α)
  started : Bool
deriving DecidableEq

def handle (down : Bool) (event : PointerEvent) (pos : Option (Position α)) : Handled α :=
  match event with
  | .pointerdown button =>
      if button ≠ 0 then ⟨down, [], false⟩
      else
        match pos with
        | none => ⟨down, [], false⟩
        | some pos =>
            if pos.outside then ⟨down, [], false⟩
            else ⟨true, [positionMessage .down pos], true⟩
  | .pointermove =>
      if down then ⟨down, (pos.map (positionMessage .move)).toList, false⟩ else ⟨down, [], false⟩
  | .pointerup | .pointercancel =>
      if down then ⟨false, (pos.map (positionMessage .up)).toList, false⟩ else ⟨down, [], false⟩

end Mouse

end RemoteBridge
