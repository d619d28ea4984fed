import RemoteBridge.Unicode

/-!
# Keyboard

The page's keyboard (`input.mjs`): the message for a `keydown`, and the message for an edit
of the hidden field that a phone's keyboard types into.
-/

namespace RemoteBridge.Keyboard

open Unicode

/-- What the page reads of a `keydown`. -/
structure KeyboardEvent where
  isComposing : Bool
  metaKey : Bool
  ctrlKey : Bool
  altKey : Bool
  shiftKey : Bool
  key : Text
  code : Text

inductive Message where
  | text (text : Text)
  | key (key : Text) (mods : List Text)
deriving DecidableEq

/-! ## Keys -/

/-- `NAMED_KEYS`. -/
def namedKeys : List Text :=
  [text "Enter", text "Backspace", text "Delete", text "Tab", text "Escape",
    text "ArrowUp", text "ArrowDown", text "ArrowLeft", text "ArrowRight",
    text "Home", text "End", text "PageUp", text "PageDown"]

def modifiers (event : KeyboardEvent) : List Text :=
  (if event.shiftKey then [text "shift"] else []) ++
    (if event.ctrlKey then [text "control"] else []) ++
    (if event.altKey then [text "alt"] else []) ++
    if event.metaKey then [text "meta"] else []

/-- One character, of the BMP or not. -/
def isCharacter (key : Text) : Bool := key.length = 1

/-- What `/^(?:Key([A-Z])|Digit([0-9]))$/` captures. -/
def physicalKey (code : Text) : Option Nat :=
  match List.dropPrefix? code (text "Key"), List.dropPrefix? code (text "Digit") with
  | some [c], _ => if 0x41 ≤ c ∧ c ≤ 0x5A then some c else none
  | _, some [c] => if 0x30 ≤ c ∧ c ≤ 0x39 then some c else none
  | _, _ => none

/-- The key a shortcut is on: the unshifted character of the physical key, where that is a
letter or a digit. -/
def shortcutKey (event : KeyboardEvent) : Text :=
  match physicalKey event.code with
  | some c => [asciiLower c]
  | none => event.key

/-- The message for a `keydown`, if there is something to send; `inField` while the hidden
field has focus. -/
def keyMessage (event : KeyboardEvent) (inField : Bool) : Option Message :=
  if event.isComposing then none
  else if event.metaKey || event.ctrlKey then
    if !isCharacter event.key && !namedKeys.contains event.key then none
    else some (.key (shortcutKey event) (modifiers event))
  else if namedKeys.contains event.key then
    if inField ∧ event.key = text "Backspace" then none
    else some (.key event.key (modifiers event))
  else if isCharacter event.key then
    if inField then none else some (.text event.key)
  else none

/-! ## The hidden field -/

/-- The zero-width space that the field holds. -/
def sentinel : Nat := 0x200B

/-- The message for an edit that leaves `value` in the field.  (Between two surrogates, a
sentinel that is taken out leaves them two here; in JavaScript they become one character.) -/
def typingMessage (value : Text) : Option Message :=
  if [sentinel] <+: value then
    if utf16Length value > 1 then some (.text (value.drop 1)) else none
  else if value = [] then some (.key (text "Backspace") [])
  else some (.text (value.filter (· ≠ sentinel)))

end RemoteBridge.Keyboard
