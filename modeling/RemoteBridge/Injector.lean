import RemoteBridge.Double
import RemoteBridge.Machine
import RemoteBridge.Unicode

/-!
# Injector

The host's injector thread (`input.rs`): the events it is sent and what it asks
of the operating system through enigo for each.

The operating system is an oracle, `Os`, that says for each call whether it
succeeds; a call that fails has no effect.  All calls are logged with their
outcomes, so the state of the buttons can be read off the log.
-/

namespace RemoteBridge

open Unicode (Text)

/-! ## Input events -/

inductive MouseButton where
  | left
  | right
deriving DecidableEq

/-- The keys of enigo the host uses. -/
inductive Key where
  | returnKey
  | backspace
  | delete
  | tab
  | escape
  | space
  | upArrow
  | downArrow
  | leftArrow
  | rightArrow
  | home
  | endKey
  | pageUp
  | pageDown
  | shift
  | control
  | option
  | metaKey
  | unicode (c : Nat)
deriving DecidableEq

inductive Modifier where
  | shift
  | control
  | alt
  | metaKey
deriving DecidableEq

def Modifier.toEnigo : Modifier → Key
  | .shift => .shift
  | .control => .control
  | .alt => .option
  | .metaKey => .metaKey

/-- One input event from the viewer; `reset` is sent by the host itself. -/
inductive InputEvent (α : Type) where
  | down (x y : α)
  | move (x y : α)
  | up (x y : α)
  | moveRel (dx dy : α)
  | click (button : MouseButton)
  | press (button : MouseButton)
  | release (button : MouseButton)
  | scroll (dx dy : α)
  | text (text : Text)
  | key (key : Key) (mods : List Modifier)
  | reset
deriving DecidableEq

namespace Injector

variable {α β : Type}

/-! ## The frame -/

/-- Where the display sits inside the captured frame. -/
structure FrameMap (α : Type) where
  frameWidth : α
  frameHeight : α
  displayWidth : α
  displayHeight : α
  scale : α
  offsetX : α
  offsetY : α

section

variable [Double α]

def FrameMap.new (frameWidth frameHeight : UInt32) (displayWidth displayHeight : Int32) :
    FrameMap α :=
  let fw : α := Double.ofInt frameWidth.toNat
  let fh : α := Double.ofInt frameHeight.toNat
  let dw : α := Double.ofInt displayWidth.toInt
  let dh : α := Double.ofInt displayHeight.toInt
  let scale := Double.min (fw / dw) (fh / dh)
  { frameWidth := fw
    frameHeight := fh
    displayWidth := dw
    displayHeight := dh
    scale := scale
    offsetX := (fw - dw * scale) / Double.ofInt 2
    offsetY := (fh - dh * scale) / Double.ofInt 2 }

/-- Frame fractions to display points. -/
def FrameMap.toScreen (map : FrameMap α) (x y : α) : Int32 × Int32 :=
  let px := (x * map.frameWidth - map.offsetX) / map.scale
  let py := (y * map.frameHeight - map.offsetY) / map.scale
  let zero := Double.ofInt 0
  let one := Double.ofInt 1
  (Double.toInt32 (Double.round (Double.clamp px zero (map.displayWidth - one))),
    Double.toInt32 (Double.round (Double.clamp py zero (map.displayHeight - one))))

/-- A distance in frame fractions to a distance in display points. -/
def FrameMap.toPoints (map : FrameMap α) (dx dy : α) : α × α :=
  (dx * map.frameWidth / map.scale, dy * map.frameHeight / map.scale)

/-- Adds `delta` to the carried-over remainder and takes out the whole points:
the new remainder and the points. -/
def takeWhole (rest delta : α) : α × Int32 :=
  let rest := rest + delta
  let whole := Double.trunc rest
  (rest - whole, Double.toInt32 whole)

end

/-- `Ord::clamp` of `i32`. -/
def clampInt32 (x lo hi : Int32) : Int32 := if x < lo then lo else if x > hi then hi else x

/-! ## Calls to the operating system -/

inductive Direction where
  | press
  | release
  | click
deriving DecidableEq

inductive Axis where
  | vertical
  | horizontal
deriving DecidableEq

/-- A call of enigo. -/
inductive Call where
  | moveMouse (x y : Int32)
  | button (button : MouseButton) (direction : Direction)
  | location
  | smoothScroll (length : Int32) (axis : Axis)
  | text (text : Text)
  | key (key : Key) (direction : Direction)
deriving DecidableEq

/-- How the operating system answers the `n`-th call. -/
structure Os where
  succeeds : Nat → Bool
  location : Nat → Int32 × Int32

/-- The error of a call, told apart by the call that failed. -/
structure InputError where
  call : Nat
deriving DecidableEq

/-- The injector thread's state, and the calls so far with their outcomes. -/
structure State (α : Type) where
  map : FrameMap α
  held : List MouseButton
  moveRest : α × α
  scrollRest : α × α
  calls : List (Call × Bool)

/-- A step of the injector: `?` leaves with the state as it is. -/
abbrev Inject (α β : Type) := EStateM InputError (State α) β

/-- One call. -/
def enigo (os : Os) (call : Call) : Inject α Unit := do
  let n := (← get).calls.length
  modify fun s => { s with calls := s.calls ++ [(call, os.succeeds n)] }
  if os.succeeds n then pure () else throw ⟨n⟩

/-- `enigo.location()`. -/
def location (os : Os) : Inject α (Int32 × Int32) := do
  let n := (← get).calls.length
  enigo os .location
  pure (os.location n)

/-- The outcome of a step as a value, where the source keeps a `Result`. -/
def attempt (step : Inject α Unit) : Inject α (Except InputError Unit) := fun s =>
  match step s with
  | .ok a s => .ok (.ok a) s
  | .error e s => .ok (.error e) s

/-! ## The injector -/

def press (os : Os) (button : MouseButton) : Inject α Unit := do
  enigo os (.button button .press)
  modify fun s => if s.held.contains button then s else { s with held := s.held ++ [button] }

def release (os : Os) (button : MouseButton) : Inject α Unit := do
  enigo os (.button button .release)
  modify fun s => { s with held := s.held.filter (· != button) }

/-- Presses modifiers up to the first failure: those that went down, and the
result of the last press. -/
def pressMods (os : Os) : List Modifier → Inject α (List Modifier × Except InputError Unit)
  | [] => pure ([], .ok ())
  | m :: mods => do
      match ← attempt (enigo os (.key m.toEnigo .press)) with
      | .error e => pure ([], .error e)
      | .ok () =>
          let (pressed, result) ← pressMods os mods
          pure (m :: pressed, result)

/-- Releases modifiers, all of them, keeping the first error in `result`. -/
def releaseMods (os : Os) (result : Except InputError Unit) :
    List Modifier → Inject α (Except InputError Unit)
  | [] => pure result
  | m :: mods => do
      let released ← attempt (enigo os (.key m.toEnigo .release))
      releaseMods os (match result with | .ok () => released | .error e => .error e) mods

/-- Clicks the key if all the modifiers went down. -/
def clickKey (os : Os) (key : Key) :
    Except InputError Unit → Inject α (Except InputError Unit)
  | .ok () => attempt (enigo os (.key key .click))
  | .error e => pure (.error e)

def keyCombo (os : Os) (key : Key) (mods : List Modifier) : Inject α Unit := do
  let (pressed, result) ← pressMods os mods
  let result ← clickKey os key result
  match ← releaseMods os result pressed.reverse with
  | .ok () => pure ()
  | .error e => throw e

/-- Releases the buttons one after the other; a failure ends it. -/
def releaseAll (os : Os) : List MouseButton → Inject α Unit
  | [] => pure ()
  | button :: rest => do
      enigo os (.button button .release)
      releaseAll os rest

section

variable [Double α]

/-- A relative move is computed here and sent as absolute, clamped to the
display. -/
def moveRel (os : Os) (dx dy : α) : Inject α Unit := do
  let s ← get
  let (dx, dy) := s.map.toPoints dx dy
  let (restX, stepX) := takeWhole s.moveRest.1 dx
  let (restY, stepY) := takeWhole s.moveRest.2 dy
  modify fun s => { s with moveRest := (restX, restY) }
  if stepX ≠ 0 ∨ stepY ≠ 0 then
    let (cx, cy) ← location os
    let x := clampInt32 (cx + stepX) 0 (Double.toInt32 s.map.displayWidth - 1)
    let y := clampInt32 (cy + stepY) 0 (Double.toInt32 s.map.displayHeight - 1)
    enigo os (.moveMouse x y)

def scroll (os : Os) (dx dy : α) : Inject α Unit := do
  let s ← get
  let (dx, dy) := s.map.toPoints dx dy
  let (restX, stepX) := takeWhole s.scrollRest.1 (-dx)
  let (restY, stepY) := takeWhole s.scrollRest.2 (-dy)
  modify fun s => { s with scrollRest := (restX, restY) }
  if stepY ≠ 0 then enigo os (.smoothScroll stepY .vertical)
  if stepX ≠ 0 then enigo os (.smoothScroll stepX .horizontal)

/-- Moves the cursor to a frame position. -/
def moveTo (os : Os) (x y : α) : Inject α Unit := do
  let (px, py) := (← get).map.toScreen x y
  enigo os (.moveMouse px py)

def apply (os : Os) : InputEvent α → Inject α Unit
  | .down x y => do
      moveTo os x y
      press os .left
  | .move x y => moveTo os x y
  | .up x y => do
      moveTo os x y
      release os .left
  | .moveRel dx dy => moveRel os dx dy
  | .click button => enigo os (.button button .click)
  | .press button => press os button
  | .release button => release os button
  | .scroll dx dy => scroll os dx dy
  | .text t => enigo os (.text t)
  | .key k mods => keyCombo os k mods
  | .reset => do
      let held := (← get).held
      -- `std::mem::take`: the list is empty before the first release
      modify fun s => { s with held := [] }
      releaseAll os held

/-- The injector as started. -/
def init (map : FrameMap α) : State α :=
  { map
    held := []
    moveRest := (Double.ofInt 0, Double.ofInt 0)
    scrollRest := (Double.ofInt 0, Double.ofInt 0)
    calls := [] }

/-- The state a step leaves, whether it failed or not. -/
def after (step : Inject α β) (s : State α) : State α :=
  match step s with
  | .ok _ s => s
  | .error _ s => s

/-- The thread: an event that fails is reported and the next one is taken. -/
def machine (os : Os) : Machine (State α) (InputEvent α) where
  step s event := some (after (apply os event) s)

end

end Injector

end RemoteBridge
