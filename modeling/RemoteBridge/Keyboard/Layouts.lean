import RemoteBridge.Messages

/-!
# Keyboard.Layouts

Shortcuts on the viewer's keyboard.  A layout says which letter each physical key types; the
page names the key of a shortcut by the physical key's code, which is called after the letter
of one layout.
-/

namespace RemoteBridge.Keyboard

open Fields Unicode
open Injector (parse)

/-! ## Layouts -/

/-- A letter, in lower case and in upper case: a character that is no blank and no control
character. -/
structure Letter where
  lower : Nat
  upper : Nat
  valid : lower.isValidChar
  graphic : 0x20 < lower

/-- The character that is typed. -/
def Letter.typed (letter : Letter) (shiftKey : Bool) : Nat :=
  if shiftKey then letter.upper else letter.lower

/-- The letter that a layout has on a physical key, by the key's code. -/
abbrev Layout := Text → Option Letter

/-- A `keydown` of a shortcut, on a key that types a letter. -/
structure Shortcut (layout : Layout) (letter : Letter) (event : KeyboardEvent) : Prop where
  composing : event.isComposing = false
  held : event.metaKey ∨ event.ctrlKey
  alt : event.altKey = false
  code : layout event.code = some letter
  key : event.key = [letter.typed event.shiftKey]

/-- The message names the key that types `c`, with the modifiers held, and the host reads it
as that key. -/
def Names (event : KeyboardEvent) (inField : Bool) (c : Nat) : Prop :=
  keyMessage event inField = some (.key [c] (modifiers event)) ∧
    ∃ held : List Modifier, modifiers event = held.map Modifier.name ∧
      ∀ [SerdeJson], parse (Message.key [c] (modifiers event)).json = some (.key (.unicode c) held)

/-! ## Codes -/

/-- The codes that are called after a character: `KeyA` after "a", `Digit1` after "1". -/
inductive CalledAfter : Text → Nat → Prop
  | key {c : Nat} (lo : 0x41 ≤ c) (hi : c ≤ 0x5A) : CalledAfter (text "Key" ++ [c]) (c + 0x20)
  | digit {c : Nat} (lo : 0x30 ≤ c) (hi : c ≤ 0x39) : CalledAfter (text "Digit" ++ [c]) c

theorem physicalKey_key {c : Nat} (lo : 0x41 ≤ c) (hi : c ≤ 0x5A) :
    physicalKey (text "Key" ++ [c]) = some c := by
  have hkey : List.dropPrefix? (text "Key" ++ [c]) (text "Key") = some [c] := rfl
  rw [physicalKey, hkey]
  exact if_pos ⟨lo, hi⟩

theorem physicalKey_digit {c : Nat} (lo : 0x30 ≤ c) (hi : c ≤ 0x39) :
    physicalKey (text "Digit" ++ [c]) = some c := by
  have hkey : List.dropPrefix? (text "Digit" ++ [c]) (text "Key") = none := rfl
  have hdigit : List.dropPrefix? (text "Digit" ++ [c]) (text "Digit") = some [c] := rfl
  rw [physicalKey, hkey, hdigit]
  exact if_pos ⟨lo, hi⟩

/-- A captured code is called after the character captured. -/
theorem calledAfter_of_physicalKey {code : Text} {c : Nat} (h : physicalKey code = some c) :
    CalledAfter code (asciiLower c) := by
  unfold physicalKey at h
  split at h
  · next p _ hkey =>
    split at h
    · next hrange =>
      obtain rfl := Option.some.inj h
      rw [dropPrefix?_eq_some_iff.mp hkey, asciiLower, if_pos (by simpa using hrange)]
      exact .key hrange.1 hrange.2
    · contradiction
  · next p hdigit _ =>
    split at h
    · next hrange =>
      obtain rfl := Option.some.inj h
      rw [dropPrefix?_eq_some_iff.mp hdigit, asciiLower, if_neg (by simp; omega)]
      exact .digit hrange.1 hrange.2
    · contradiction
  · contradiction

/-- The key of a shortcut is the character that its code is called after. -/
theorem shortcutKey_of_calledAfter {event : KeyboardEvent} {c : Nat}
    (h : CalledAfter event.code c) : shortcutKey event = [c] := by
  generalize hcode : event.code = code at h
  cases h with
  | key lo hi =>
      rw [shortcutKey, hcode, physicalKey_key lo hi]
      simp [asciiLower, lo, hi]
  | digit lo hi =>
      rw [shortcutKey, hcode, physicalKey_digit lo hi]
      simp only [asciiLower]
      rw [if_neg (by simp; omega)]

/-- Of another code, it is what the browser reports. -/
theorem shortcutKey_of_not_calledAfter {event : KeyboardEvent}
    (h : ∀ c, ¬ CalledAfter event.code c) : shortcutKey event = event.key := by
  rw [shortcutKey]
  cases hphysical : physicalKey event.code with
  | none => rfl
  | some c => exact absurd (calledAfter_of_physicalKey hphysical) (h _)

/-! ## What a shortcut names -/

/-- The layout has on the key the letter that the code is called after; or the code is called
after no character, and the browser reports the letter in lower case. -/
def Agrees (event : KeyboardEvent) (letter : Letter) : Prop :=
  CalledAfter event.code letter.lower ∨
    (∀ c, ¬ CalledAfter event.code c) ∧ (event.shiftKey → letter.upper = letter.lower)

section

variable {layout : Layout} {letter : Letter} {event : KeyboardEvent}

/-- A shortcut is sent, as its key with the modifiers held. -/
theorem keyMessage_shortcut (h : Shortcut layout letter event) (inField : Bool) :
    keyMessage event inField = some (.key (shortcutKey event) (modifiers event)) := by
  have hheld : (event.metaKey || event.ctrlKey) = true := by simpa using h.held
  have hcharacter : isCharacter event.key = true := by
    rw [h.key]
    rfl
  rw [keyMessage, if_neg (by simp [h.composing]), if_pos hheld, if_neg (by simp [hcharacter])]

theorem shortcutKey_eq_iff (h : Shortcut layout letter event) :
    shortcutKey event = [letter.lower] ↔ Agrees event letter := by
  by_cases hcalled : ∃ c, CalledAfter event.code c
  · obtain ⟨c, hc⟩ := hcalled
    rw [shortcutKey_of_calledAfter hc]
    constructor
    · intro heq
      obtain rfl : c = letter.lower := by simpa using heq
      exact .inl hc
    · rintro (hletter | ⟨hnone, -⟩)
      · rw [← shortcutKey_of_calledAfter hc, shortcutKey_of_calledAfter hletter]
      · exact absurd hc (hnone c)
  · rw [not_exists] at hcalled
    rw [shortcutKey_of_not_calledAfter hcalled, h.key, Letter.typed]
    constructor
    · intro heq
      refine .inr ⟨hcalled, fun hshift => ?_⟩
      rw [if_pos hshift] at heq
      simpa using heq
    · rintro (hletter | ⟨-, hshift⟩)
      · exact absurd hletter (hcalled _)
      · split
        · next hpressed => rw [hshift hpressed]
        · rfl

/-- The host reads a letter's name as the key that types it. -/
theorem parse_letter [SerdeJson] (letter : Letter) (held : List Modifier) :
    parse (Message.key [letter.lower] (held.map Modifier.name)).json =
      some (.key (.unicode letter.lower) held) := by
  have hkey : (Key.unicode letter.lower).browserName = some [letter.lower] := by
    have hgraphic := letter.graphic
    exact if_neg (by omega)
  exact (Message.Means.key held hkey).parse_json fun c hc => by
    obtain rfl := List.mem_singleton.mp hc
    exact letter.valid

/-- **A shortcut names the layout's letter** exactly where the layout agrees with the code. -/
theorem names_lower_iff (h : Shortcut layout letter event) (inField : Bool) :
    Names event inField letter.lower ↔ Agrees event letter := by
  rw [Names, keyMessage_shortcut h, ← shortcutKey_eq_iff h]
  constructor
  · rintro ⟨hmessage, -⟩
    simpa using hmessage
  · intro hkey
    obtain ⟨held, hheld⟩ := modifiers_eq event
    refine ⟨by rw [hkey], held, hheld, ?_⟩
    intro _
    rw [hheld, parse_letter]

end

/-! ## Two layouts -/

/-- The letter of A. -/
def letterA : Letter where
  lower := 0x61
  upper := 0x41
  valid := by decide
  graphic := by decide

/-- Where A is on a keyboard that starts with QWERTY. -/
def qwerty : Layout := fun code => if code = text "KeyA" then some letterA else none

/-- Where A is on a keyboard that starts with AZERTY. -/
def azerty : Layout := fun code => if code = text "KeyQ" then some letterA else none

/-- Cmd with the key that types "a". -/
def commandA (code : Text) : KeyboardEvent where
  isComposing := false
  metaKey := true
  ctrlKey := false
  altKey := false
  shiftKey := false
  key := text "a"
  code := code

/-- On the first of them Cmd+A is Cmd+A. -/
theorem qwerty_names :
    Shortcut qwerty letterA (commandA (text "KeyA")) ∧
      Names (commandA (text "KeyA")) false 0x61 := by
  have h : Shortcut qwerty letterA (commandA (text "KeyA")) := ⟨rfl, .inl rfl, rfl, rfl, rfl⟩
  exact ⟨h, (names_lower_iff h false).mpr (.inl (.key (by decide) (by decide)))⟩

/-- On the second it is sent as Cmd+Q. -/
theorem azerty_misnames :
    Shortcut azerty letterA (commandA (text "KeyQ")) ∧
      keyMessage (commandA (text "KeyQ")) false = some (.key (text "q") [text "meta"]) ∧
      ¬ Names (commandA (text "KeyQ")) false 0x61 := by
  refine ⟨⟨rfl, .inl rfl, rfl, rfl, rfl⟩, rfl, fun h => ?_⟩
  have hsent := h.1
  exact absurd hsent (by decide)

end RemoteBridge.Keyboard
