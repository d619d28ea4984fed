import RemoteBridge.Injector
import RemoteBridge.Json

/-!
# Injector.Parse

The reading of a message of the input channel (`input.rs`): the reader that serde derives
for `InputEvent`, and the names of keys.
-/

namespace RemoteBridge

open Json Unicode

/-! ## What the browser calls them -/

def MouseButton.name : MouseButton → Text
  | .left => text "left"
  | .right => text "right"

def Modifier.name : Modifier → Text
  | .shift => text "shift"
  | .control => text "control"
  | .alt => text "alt"
  | .metaKey => text "meta"

/-- The key's `KeyboardEvent.key`: a name, or the character that the key types.  Modifiers
are not pressed as keys. -/
def Key.browserName : Key → Option Text
  | .returnKey => some (text "Enter")
  | .backspace => some (text "Backspace")
  | .delete => some (text "Delete")
  | .tab => some (text "Tab")
  | .escape => some (text "Escape")
  | .space => some [0x20]
  | .upArrow => some (text "ArrowUp")
  | .downArrow => some (text "ArrowDown")
  | .leftArrow => some (text "ArrowLeft")
  | .rightArrow => some (text "ArrowRight")
  | .home => some (text "Home")
  | .endKey => some (text "End")
  | .pageUp => some (text "PageUp")
  | .pageDown => some (text "PageDown")
  | .shift | .control | .option | .metaKey => none
  | .unicode c => if c = 0 ∨ c = 0x20 then none else some [c]

namespace Injector

/-! ## Names -/

/-- The names of the variants of `MouseButton`. -/
def mouseButtons : List (Text × MouseButton) := [(text "left", .left), (text "right", .right)]

/-- The names of the variants of `Modifier`. -/
def modifiers : List (Text × Modifier) :=
  [(text "shift", .shift), (text "control", .control), (text "alt", .alt), (text "meta", .metaKey)]

/-- The keys that have a name. -/
def keyNames : List (Text × Key) :=
  [(text "Enter", .returnKey), (text "Backspace", .backspace), (text "Delete", .delete),
    (text "Tab", .tab), (text "Escape", .escape), (text " ", .space), (text "ArrowUp", .upArrow),
    (text "ArrowDown", .downArrow), (text "ArrowLeft", .leftArrow),
    (text "ArrowRight", .rightArrow), (text "Home", .home), (text "End", .endKey),
    (text "PageUp", .pageUp), (text "PageDown", .pageDown)]

inductive KeyError where
  | unknownKey (name : Text)
deriving DecidableEq

/-- A key by its name; another single character is the key that types it. -/
def KeyName.tryFrom (name : Text) : Except KeyError Key :=
  match keyNames.lookup name with
  | some key => .ok key
  | none =>
      match name with
      | [c] => if c ≠ 0 then .ok (.unicode c) else .error (.unknownKey name)
      | _ => .error (.unknownKey name)

/-! ## Readers -/

def readButton (json : Json) : Option MouseButton := do mouseButtons.lookup (← json.unitVariant)

def readModifier (json : Json) : Option Modifier := do modifiers.lookup (← json.unitVariant)

def readKey (json : Json) : Option Key := do (KeyName.tryFrom (← json.toText)).toOption

/-- A variant with two numbers. -/
def readNumbers [SerdeJson] (x y : Text) (make : Binary64 → Binary64 → InputEvent Binary64)
    (body : Body) : Option (InputEvent Binary64) := do
  match ← body.fields [x, y] with
  | [some x, some y] => return make (← x.f64) (← y.f64)
  | _ => none

/-- A variant with a button. -/
def readButtonEvent (make : MouseButton → InputEvent Binary64) (body : Body) :
    Option (InputEvent Binary64) := do
  match ← body.fields [text "button"] with
  | [some button] => return make (← readButton button)
  | _ => none

def readText (body : Body) : Option (InputEvent Binary64) := do
  match ← body.fields [text "text"] with
  | [some typed] => return .text (← typed.toText)
  | _ => none

/-- The modifiers may be left out. -/
def readKeyEvent (body : Body) : Option (InputEvent Binary64) := do
  match ← body.fields [text "key", text "mods"] with
  | [some name, some mods] => return .key (← readKey name) (← mods.toList readModifier)
  | [some name, none] => return .key (← readKey name) []
  | _ => none

/-- The variants that are read: all but `reset`. -/
def variants [SerdeJson] : List (Text × (Body → Option (InputEvent Binary64))) :=
  [(text "down", readNumbers (text "x") (text "y") .down),
    (text "move", readNumbers (text "x") (text "y") .move),
    (text "up", readNumbers (text "x") (text "y") .up),
    (text "move_rel", readNumbers (text "dx") (text "dy") .moveRel),
    (text "click", readButtonEvent .click),
    (text "press", readButtonEvent .press),
    (text "release", readButtonEvent .release),
    (text "scroll", readNumbers (text "dx") (text "dy") .scroll),
    (text "text", readText),
    (text "key", readKeyEvent)]

/-- The event that a message is read as, none if it is rejected. -/
def parse [SerdeJson] (json : Json) : Option (InputEvent Binary64) := do
  if json.readable depthLimit then
    let (name, body) ← json.tagged (text "type")
    (← variants.lookup name) body
  else none

/-! ## What is read -/

variable {type nx ny name t : Text} {fields : List (Text × Json)} {key : Key}

/-- An object with its type first, as the page writes them. -/
def literal (type : Text) (fields : List (Text × Json)) : Json :=
  .object ((text "type", .string type) :: fields)

theorem parse_literal [SerdeJson] {read : Body → Option (InputEvent Binary64)}
    (hread : variants.lookup type = some read) (htype : WellFormed type)
    (hfields : ∀ e ∈ fields, WellFormed e.1 ∧ readable 126 e.2)
    (hnames : text "type" ∉ fields.map Prod.fst) :
    parse (literal type fields) = read (.map fields) := by
  have hreadable : readable depthLimit (literal type fields) := by
    rw [depthLimit, literal, readable_object, List.forall_mem_cons]
    exact ⟨⟨(by decide : WellFormed (text "type")), by simpa using htype⟩, hfields⟩
  rw [parse, if_pos hreadable, literal, tagged_cons hnames]
  simp [hread]

theorem parse_literal_eq_none [SerdeJson] (h : ∃ e ∈ fields, readable 126 e.2 = false) :
    parse (literal type fields) = none := by
  have hunreadable : ¬ readable depthLimit (literal type fields) := by
    rw [depthLimit, literal, readable_object, List.forall_mem_cons]
    rintro ⟨-, hfields⟩
    obtain ⟨e, he, hfalse⟩ := h
    rw [(hfields e he).2] at hfalse
    contradiction
  rw [parse, if_neg hunreadable]

/-- Two numbers are read as serde_json reads their decimals. -/
theorem parse_numbers [SerdeJson] (decimals : Decimals)
    {make : Binary64 → Binary64 → InputEvent Binary64}
    (hread : variants.lookup type = some (readNumbers nx ny make))
    (hwell : WellFormed type ∧ WellFormed nx ∧ WellFormed ny)
    (hnames : [text "type", nx, ny].Nodup) (x y : Binary64) :
    parse (literal type [(nx, ofNumber decimals x), (ny, ofNumber decimals y)]) =
      do return make (← reread decimals x) (← reread decimals y) := by
  obtain ⟨htype, hx, hy⟩ := hwell
  obtain ⟨hnot, hnodup⟩ := List.nodup_cons.mp hnames
  have hfields : (Body.map [(nx, ofNumber decimals x), (ny, ofNumber decimals y)]).fields [nx, ny] =
      some [some (ofNumber decimals x), some (ofNumber decimals y)] := fields_map hnodup
  cases hreadX : readable 126 (ofNumber decimals x) with
  | false =>
      have hnone : reread decimals x = none :=
        Option.eq_none_iff_forall_ne_some.mpr fun v hv => by simp [readable_ofNumber hv] at hreadX
      rw [parse_literal_eq_none ⟨_, List.mem_cons_self, hreadX⟩, hnone]
      rfl
  | true =>
      cases hreadY : readable 126 (ofNumber decimals y) with
      | false =>
          have hnone : reread decimals y = none :=
            Option.eq_none_iff_forall_ne_some.mpr fun v hv => by
              simp [readable_ofNumber hv] at hreadY
          rw [parse_literal_eq_none ⟨_, List.mem_cons_of_mem _ List.mem_cons_self, hreadY⟩, hnone]
          cases reread decimals x <;> rfl
      | true =>
          rw [parse_literal hread htype (by simp [hx, hy, hreadX, hreadY]) (by simpa using hnot),
            readNumbers, hfields]
          rfl

theorem parse_button [SerdeJson] {make : MouseButton → InputEvent Binary64}
    (hread : variants.lookup type = some (readButtonEvent make)) (htype : WellFormed type)
    (button : MouseButton) :
    parse (literal type [(text "button", .string button.name)]) = some (make button) := by
  have hfields : (Body.map [(text "button", .string button.name)]).fields [text "button"] =
      some [some (.string button.name)] := fields_map (by simp)
  have hname : WellFormed button.name := by cases button <;> decide
  have hbutton : mouseButtons.lookup button.name = some button := by cases button <;> decide
  rw [parse_literal hread htype (by simpa [hname] using by decide)
    (by simpa using by decide), readButtonEvent, hfields]
  simp [readButton, unitVariant, hbutton]

theorem parse_text [SerdeJson] (h : WellFormed t) :
    parse (literal (text "text") [(text "text", .string t)]) = some (.text t) := by
  have hfields : (Body.map [(text "text", .string t)]).fields [text "text"] =
      some [some (.string t)] := fields_map (by simp)
  rw [parse_literal rfl (by decide) (by simpa [h] using by decide)
    (by simpa using by decide), readText, hfields]
  rfl

theorem mem_of_lookup {β : Type} {rows : List (Text × β)} {b : β}
    (h : rows.lookup name = some b) : (name, b) ∈ rows := by
  obtain ⟨before, after, rfl, -⟩ := List.lookup_eq_some_iff.mp h
  exact List.mem_append_right _ List.mem_cons_self

/-- The one named key whose name is a character. -/
theorem lookup_character {c : Nat} (h : c ≠ 0x20) : keyNames.lookup [c] = none := by
  have hnames : ∀ row ∈ keyNames, row.1.length = 1 → row.1 = [0x20] := by decide
  rw [List.lookup_eq_none_iff]
  intro row hrow
  rw [bne_iff_ne]
  intro heq
  have hspace := hnames row hrow (by rw [← heq, List.length_singleton])
  rw [← heq, List.cons.injEq] at hspace
  exact h hspace.1

/-- **A key is read by the name that the browser has for it.** -/
theorem tryFrom_eq_ok_iff : KeyName.tryFrom name = .ok key ↔ key.browserName = some name := by
  constructor
  · intro h
    unfold KeyName.tryFrom at h
    split at h
    · next named hnamed =>
      obtain rfl : named = key := Except.ok.inj h
      have hnames : ∀ row ∈ keyNames, row.2.browserName = some row.1 := by decide
      exact hnames _ (mem_of_lookup hnamed)
    · next hnamed =>
      split at h
      · next c =>
        have hspace : c ≠ 0x20 := by
          rintro rfl
          contradiction
        split at h
        · next hzero =>
          obtain rfl : Key.unicode c = key := Except.ok.inj h
          exact if_neg (by omega)
        · contradiction
      · contradiction
  · intro h
    cases key with
    | unicode c =>
        rw [Key.browserName] at h
        split at h
        · contradiction
        · next hc =>
          obtain rfl : [c] = name := Option.some.inj h
          rw [KeyName.tryFrom, lookup_character (by omega)]
          exact if_pos (by omega)
    | shift | control | option | metaKey => contradiction
    | _ =>
        obtain rfl := Option.some.inj h
        decide

theorem parse_key [SerdeJson] {mods : List Modifier} (hkey : key.browserName = some name)
    (hname : WellFormed name) :
    parse (literal (text "key")
      [(text "key", .string name), (text "mods", .array (mods.map (.string ·.name)))]) =
      some (.key key mods) := by
  have hfields : (Body.map [(text "key", .string name),
      (text "mods", .array (mods.map (.string ·.name)))]).fields [text "key", text "mods"] =
      some [some (.string name), some (.array (mods.map (.string ·.name)))] :=
    fields_map (by decide : [text "key", text "mods"].Nodup)
  have hmods : toList readModifier (.array (mods.map (.string ·.name))) = some mods :=
    toList_map fun m _ => by cases m <;> decide
  have hnames : ∀ m : Modifier, WellFormed m.name := fun m => by cases m <;> decide
  rw [parse_literal rfl (by decide) (by simpa [readable_array, hname, hnames] using by decide)
    (by simpa using by decide), readKeyEvent, hfields]
  simp only [Option.bind_eq_bind, Option.bind_some, hmods, readKey, toText,
    tryFrom_eq_ok_iff.mpr hkey]
  rfl

example : ∀ name ∈ [text "F13", text "ab", [], [0]], (KeyName.tryFrom name).toOption = none := by
  decide

theorem bind_ne_reset {β : Type} {read : Option β} {next : β → Option (InputEvent Binary64)}
    (h : ∀ b, next b ≠ some .reset) : (read >>= next) ≠ some .reset := by
  cases read with
  | none => simp
  | some b => exact h b

theorem readNumbers_ne_reset [SerdeJson] {make : Binary64 → Binary64 → InputEvent Binary64}
    {body : Body} (hmake : ∀ x y, make x y ≠ .reset) : readNumbers nx ny make body ≠ some .reset := by
  refine bind_ne_reset fun values => ?_
  split
  · exact bind_ne_reset fun x => bind_ne_reset fun y h => hmake x y (Option.some.inj h)
  · simp

theorem readButtonEvent_ne_reset {make : MouseButton → InputEvent Binary64} {body : Body}
    (hmake : ∀ button, make button ≠ .reset) : readButtonEvent make body ≠ some .reset := by
  refine bind_ne_reset fun values => ?_
  split
  · exact bind_ne_reset fun button h => hmake button (Option.some.inj h)
  · simp

theorem readText_ne_reset {body : Body} : readText body ≠ some .reset := by
  refine bind_ne_reset fun values => ?_
  split
  · exact bind_ne_reset fun typed => by simp
  · simp

theorem readKeyEvent_ne_reset {body : Body} : readKeyEvent body ≠ some .reset := by
  refine bind_ne_reset fun values => ?_
  split
  · exact bind_ne_reset fun named => bind_ne_reset fun held => by simp
  · exact bind_ne_reset fun named => by simp
  · simp

/-- **No message is read as a reset.** -/
theorem parse_ne_reset [SerdeJson] (json : Json) : parse json ≠ some .reset := by
  unfold parse
  split
  · refine bind_ne_reset fun tagged h => ?_
    rw [Option.bind_eq_bind, Option.bind_eq_some_iff] at h
    obtain ⟨read, hread, h⟩ := h
    have hrows : ∀ row ∈ variants, row.2 tagged.2 ≠ some .reset := by
      simp [variants, readNumbers_ne_reset, readButtonEvent_ne_reset, readText_ne_reset,
        readKeyEvent_ne_reset]
    exact hrows _ (mem_of_lookup hread) h
  · simp

end Injector

end RemoteBridge
