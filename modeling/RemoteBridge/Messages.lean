import RemoteBridge.Injector.Parse
import RemoteBridge.Keyboard
import RemoteBridge.Mouse.Presses
import RemoteBridge.Trackpad.Buttons

/-!
# Messages

The messages of the page as it writes them, and that the host reads each as the input that
it stands for, with the numbers that serde_json makes of their decimals.
-/

namespace RemoteBridge

open Json (Decimals ofNumber reread)
open Unicode
open Binary64 (number)
open Injector (literal parse)

variable {α : Type} {hypot : Binary64 → Binary64 → Binary64} {decimals : Decimals}

/-! ## What the page writes -/

def Mouse.MessageType.name : Mouse.MessageType → Text
  | .down => text "down"
  | .move => text "move"
  | .up => text "up"

def Mouse.Message.json (decimals : Decimals) (m : Mouse.Message Binary64) : Json :=
  literal m.type.name [(text "x", ofNumber decimals m.x), (text "y", ofNumber decimals m.y)]

def Button.name : Button → Text
  | .left => text "left"
  | .right => text "right"

def Trackpad.Message.json (decimals : Decimals) : Trackpad.Message Binary64 → Json
  | .click button => literal (text "click") [(text "button", .string button.name)]
  | .press button => literal (text "press") [(text "button", .string button.name)]
  | .release button => literal (text "release") [(text "button", .string button.name)]
  | .scroll dx dy => literal (text "scroll")
      [(text "dx", ofNumber decimals dx), (text "dy", ofNumber decimals dy)]
  | .moveRel dx dy => literal (text "move_rel")
      [(text "dx", ofNumber decimals dx), (text "dy", ofNumber decimals dy)]

def Keyboard.Message.json : Keyboard.Message → Json
  | .text typed => literal (Unicode.text "text") [(Unicode.text "text", .string typed)]
  | .key name mods => literal (Unicode.text "key")
      [(Unicode.text "key", .string name), (Unicode.text "mods", .array (mods.map .string))]

/-! ## What it stands for -/

def Mouse.Message.toEvent : Mouse.Message α → InputEvent α
  | ⟨.down, x, y⟩ => .down x y
  | ⟨.move, x, y⟩ => .move x y
  | ⟨.up, x, y⟩ => .up x y

/-- Characters stand for themselves, a key's name for the key that the browser calls so, and
modifiers for those of their names, in the same order. -/
inductive Keyboard.Message.Means : Keyboard.Message → InputEvent α → Prop
  | text (typed : Text) : Means (.text typed) (.text typed)
  | key {name : Text} {key : Key} (held : List Modifier) (h : key.browserName = some name) :
      Means (.key name (held.map Modifier.name)) (.key key held)

/-! ## How the host reads it -/

/-- The numbers of an event. -/
def InputEvent.numbers : InputEvent α → List α
  | .down x y | .move x y | .up x y | .moveRel x y | .scroll x y => [x, y]
  | _ => []

/-- The event with other numbers, if there is one for each of its own. -/
def InputEvent.mapM (f : α → Option α) : InputEvent α → Option (InputEvent α)
  | .down x y => do return .down (← f x) (← f y)
  | .move x y => do return .move (← f x) (← f y)
  | .up x y => do return .up (← f x) (← f y)
  | .moveRel dx dy => do return .moveRel (← f dx) (← f dy)
  | .scroll dx dy => do return .scroll (← f dx) (← f dy)
  | event => some event

section

variable {f : α → Option α} {event : InputEvent α}

/-- An event with numbers, or one that stays as it is. -/
theorem InputEvent.mapM_cases (event : InputEvent α) :
    (event.numbers = [] ∧ ∀ f, event.mapM f = some event) ∨
      ∃ (make : α → α → InputEvent α) (x y : α), event = make x y ∧ event.numbers = [x, y] ∧
        ∀ f, event.mapM f = do return make (← f x) (← f y) := by
  cases event with
  | down x y => exact .inr ⟨.down, x, y, rfl, rfl, fun _ => rfl⟩
  | move x y => exact .inr ⟨.move, x, y, rfl, rfl, fun _ => rfl⟩
  | up x y => exact .inr ⟨.up, x, y, rfl, rfl, fun _ => rfl⟩
  | moveRel dx dy => exact .inr ⟨.moveRel, dx, dy, rfl, rfl, fun _ => rfl⟩
  | scroll dx dy => exact .inr ⟨.scroll, dx, dy, rfl, rfl, fun _ => rfl⟩
  | click | press | release | text | key | reset => exact .inl ⟨rfl, fun _ => rfl⟩

theorem InputEvent.mapM_isSome (h : ∀ x ∈ event.numbers, (f x).isSome) :
    (event.mapM f).isSome := by
  obtain ⟨-, heq⟩ | ⟨make, x, y, -, hnumbers, heq⟩ := event.mapM_cases
  · rw [heq]
    rfl
  · rw [hnumbers, List.forall_mem_cons, List.forall_mem_singleton] at h
    obtain ⟨v, hv⟩ := Option.isSome_iff_exists.mp h.1
    obtain ⟨w, hw⟩ := Option.isSome_iff_exists.mp h.2
    rw [heq, hv, hw]
    rfl

theorem InputEvent.mapM_eq_self (h : ∀ x ∈ event.numbers, f x = some x) :
    event.mapM f = some event := by
  obtain ⟨-, heq⟩ | ⟨make, x, y, hevent, hnumbers, heq⟩ := event.mapM_cases
  · exact heq f
  · rw [hnumbers, List.forall_mem_cons, List.forall_mem_singleton] at h
    rw [heq, h.1, h.2, hevent]
    rfl

theorem InputEvent.mapM_eq_none (h : ∃ x ∈ event.numbers, f x = none) :
    event.mapM f = none := by
  obtain ⟨v, hv, hnone⟩ := h
  obtain ⟨hnil, -⟩ | ⟨make, x, y, -, hnumbers, heq⟩ := event.mapM_cases
  · rw [hnil] at hv
    contradiction
  · rw [hnumbers, List.mem_cons, List.mem_singleton] at hv
    rw [heq]
    obtain rfl | rfl := hv
    · rw [hnone]
      rfl
    · rw [hnone]
      cases f x <;> rfl

end

/-- A finite number of up to 2¹⁰²³. -/
def Ordinary : Binary64 → Prop
  | .finite x _ => |x| ≤ 2 ^ 1023
  | _ => False

/-- How the host understands a message that stands for an event. -/
structure Understood [SerdeJson] (decimals : Decimals) (json : Json) (event : InputEvent Binary64) :
    Prop where
  /-- It is the event, with the numbers that serde_json makes of the decimals. -/
  parse_eq : parse json = event.mapM (reread decimals)
  taken : (∀ x ∈ event.numbers, Ordinary x) → (parse json).isSome
  same : (∀ x ∈ event.numbers, reread decimals x = some x) → parse json = some event
  rejected : (∃ x ∈ event.numbers, x.isFinite = false) → parse json = none

/-- serde_json takes the decimals of ordinary numbers, as it does all that are not too large. -/
def TakesOrdinary [SerdeJson] : Prop :=
  ∀ x : Numeral, Ordinary (.nearest x.value) → (SerdeJson.number x).isSome

theorem reread_isSome [SerdeJson] (hserde : TakesOrdinary) {x : Binary64} (h : Ordinary x) :
    (reread decimals x).isSome := by
  cases x with
  | nan | infinite => contradiction
  | finite x hx =>
      refine hserde (decimals.print x) ?_
      rw [decimals.nearest_print x hx]
      exact h

theorem Understood.of_parse_eq [SerdeJson] (hserde : TakesOrdinary) {json : Json}
    {event : InputEvent Binary64} (h : parse json = event.mapM (reread decimals)) :
    Understood decimals json event where
  parse_eq := h
  taken hordinary := by
    rw [h]
    exact InputEvent.mapM_isSome fun x hx => reread_isSome hserde (hordinary x hx)
  same hsame := h.trans (InputEvent.mapM_eq_self hsame)
  rejected := by
    rintro ⟨x, hx, hfinite⟩
    exact h.trans (InputEvent.mapM_eq_none ⟨x, hx, Json.reread_eq_none decimals hfinite⟩)

/-! ## The mouse -/

/-- A length of the page: a positive number. -/
def IsLength : Binary64 → Prop
  | .finite x _ => 0 < x
  | _ => False

instance : ∀ x, Decidable (IsLength x)
  | .finite x _ => inferInstanceAs (Decidable (0 < x))
  | .nan | .infinite _ => inferInstanceAs (Decidable False)

/-- A position as the page measures one: of finite coordinates, in a frame of positive
size. -/
def Mouse.Position.Measured (p : Mouse.Position Binary64)
    (hypot : Binary64 → Binary64 → Binary64) : Prop :=
  letI := number hypot
  ∃ (frame : Mouse.Rect Binary64) (clientX clientY : Binary64),
    frame.left.isFinite ∧ frame.top.isFinite ∧ IsLength frame.width ∧ IsLength frame.height ∧
      clientX.isFinite ∧ clientY.isFinite ∧
      Mouse.framePosition (some frame) clientX clientY = some p

/-- The numbers of a measured position may overflow, but they are numbers. -/
theorem sub_div_ne_nan {v start size : Binary64} (hv : v.isFinite) (hstart : start.isFinite)
    (hsize : IsLength size) : (v.sub start).div size ≠ .nan := by
  cases v with
  | nan | infinite => contradiction
  | finite v _ => cases start with
    | nan | infinite => contradiction
    | finite start _ => cases size with
      | nan | infinite => contradiction
      | finite size _ =>
          change (0 : ℚ) < size at hsize
          change (Binary64.nearest (v + -start)).div (.finite size _) ≠ .nan
          cases hdistance : Binary64.nearest (v + -start) with
          | nan => exact absurd hdistance (Binary64.nearest_ne_nan _)
          | infinite => simp [Binary64.div]
          | finite distance _ =>
              rw [Binary64.div, if_neg hsize.ne']
              exact Binary64.nearest_ne_nan _

theorem Mouse.Position.Measured.numeric {p : Mouse.Position Binary64} (h : p.Measured hypot) :
    p.Numeric := by
  obtain ⟨frame, clientX, clientY, hleft, htop, hwidth, hheight, hx, hy, hp⟩ := h
  obtain rfl := Option.some.inj hp
  exact ⟨sub_div_ne_nan hx hleft hwidth, sub_div_ne_nan hy htop hheight⟩

theorem Mouse.ordinary_of_isFraction {x : Binary64} (h : Mouse.IsFraction x) : Ordinary x := by
  cases x with
  | nan | infinite => contradiction
  | finite x hx =>
      obtain ⟨hnonneg, hle⟩ := h
      rw [Ordinary, abs_of_nonneg hnonneg]
      exact hle.trans (one_le_pow₀ one_le_two)

/-- A message of the mouse is read as what it stands for. -/
theorem Mouse.parse_json [SerdeJson] (m : Mouse.Message Binary64) :
    parse (m.json decimals) = m.toEvent.mapM (reread decimals) := by
  obtain ⟨type, x, y⟩ := m
  have hread : Injector.variants.lookup type.name =
      some (Injector.readNumbers (text "x") (text "y") fun x y =>
        (⟨type, x, y⟩ : Mouse.Message Binary64).toEvent) := by cases type <;> rfl
  have hwell : ∀ type : Mouse.MessageType,
      WellFormed type.name ∧ WellFormed (text "x") ∧ WellFormed (text "y") := by
    intro type
    cases type <;> decide
  rw [Mouse.Message.json, Injector.parse_numbers decimals hread (hwell type) (by decide)]
  cases type <;> rfl

theorem Mouse.Message.Fractions.ordinary {m : Mouse.Message Binary64} (h : m.Fractions) :
    ∀ x ∈ m.toEvent.numbers, Ordinary x := by
  obtain ⟨type, x, y⟩ := m
  have hboth : ∀ v ∈ [x, y], Ordinary v := by
    rw [List.forall_mem_cons, List.forall_mem_singleton]
    exact ⟨Mouse.ordinary_of_isFraction h.1, Mouse.ordinary_of_isFraction h.2⟩
  cases type <;> exact hboth

/-! ## The trackpad -/

theorem Button.name_mouseButton (button : Button) :
    (Trackpad.mouseButton button).name = button.name := by cases button <;> rfl

/-- A message of the trackpad is read as what it stands for. -/
theorem Trackpad.parse_json [SerdeJson] (m : Trackpad.Message Binary64) :
    parse (m.json decimals) = m.toEvent.mapM (reread decimals) := by
  cases m with
  | click button | press button | release button =>
      rw [Trackpad.Message.json, ← button.name_mouseButton]
      exact Injector.parse_button rfl (by decide) _
  | scroll dx dy => exact Injector.parse_numbers decimals rfl (by decide) (by decide) dx dy
  | moveRel dx dy => exact Injector.parse_numbers decimals rfl (by decide) (by decide) dx dy

/-! ## The keyboard -/

namespace Keyboard

variable {event : KeyboardEvent} {inField : Bool} {m : Message} {name value : Text}

/-- What a message has of the user's: the characters, or the key's name. -/
def Message.characters : Message → Text
  | .text typed => typed
  | .key name _ => name

theorem Message.Means.parse_json [SerdeJson] {input : InputEvent Binary64} (h : m.Means input)
    (hwell : WellFormed m.characters) : parse m.json = some input := by
  cases h with
  | text typed => exact Injector.parse_text hwell
  | key held hkey =>
      rw [Message.json, List.map_map]
      exact Injector.parse_key hkey hwell

/-- The modifiers' names are the host's. -/
theorem modifiers_eq (event : KeyboardEvent) :
    ∃ held : List Modifier, modifiers event = held.map Modifier.name := by
  refine ⟨(if event.shiftKey then [.shift] else []) ++ (if event.ctrlKey then [.control] else []) ++
    (if event.altKey then [.alt] else []) ++ if event.metaKey then [.metaKey] else [], ?_⟩
  simp only [modifiers, List.map_append, apply_ite (List.map Modifier.name)]
  rfl

/-- A key that is sent: its name is one of the named keys or a character, not U+0000. -/
structure Sendable (name : Text) : Prop where
  known : isCharacter name ∨ name ∈ namedKeys
  nonzero : name ≠ [0]
  wellFormed : WellFormed name

theorem Sendable.exists_key (h : Sendable name) : ∃ key : Key, key.browserName = some name := by
  obtain hcharacter | hnamed := h.known
  · obtain ⟨c, rfl⟩ := List.length_eq_one_iff.mp (of_decide_eq_true hcharacter)
    by_cases hspace : c = 0x20
    · exact ⟨.space, congrArg (fun c => some [c]) hspace.symm⟩
    · exact ⟨.unicode c, if_neg (by simpa [hspace] using h.nonzero)⟩
  · have hnames : ∀ name ∈ namedKeys, ∃ row ∈ Injector.keyNames,
        row.1 = name ∧ row.2.browserName = some row.1 := by decide
    obtain ⟨row, -, rfl, hrow⟩ := hnames name hnamed
    exact ⟨row.2, hrow⟩

theorem physicalKey_mem {code : Text} {c : Nat} (h : physicalKey code = some c) :
    0x30 ≤ c ∧ c ≤ 0x5A := by
  unfold physicalKey at h
  split at h
  · split at h
    · obtain rfl := Option.some.inj h
      omega
    · contradiction
  · split at h
    · obtain rfl := Option.some.inj h
      omega
    · contradiction
  · contradiction

theorem sendable_shortcutKey (h : Sendable event.key) : Sendable (shortcutKey event) := by
  unfold shortcutKey
  split
  · next c hc =>
    obtain ⟨hlo, hhi⟩ := physicalKey_mem hc
    have hrange : 0x30 ≤ asciiLower c ∧ asciiLower c ≤ 0x7A := by
      unfold asciiLower
      split <;> omega
    refine ⟨.inl rfl, by simpa using by omega, fun d hd => ?_⟩
    obtain rfl := List.mem_singleton.mp hd
    exact .inl (by omega)
  · exact h

/-- The page sends a character, or a key with the modifiers held. -/
theorem keyMessage_eq_some (hwell : WellFormed event.key) (hzero : event.key ≠ [0])
    (h : keyMessage event inField = some m) :
    m = .text event.key ∨ ∃ name, Sendable name ∧ m = .key name (modifiers event) := by
  have hsendable (hknown : isCharacter event.key ∨ event.key ∈ namedKeys) :
      Sendable event.key := ⟨hknown, hzero, hwell⟩
  unfold keyMessage at h
  split at h
  · contradiction
  · split at h
    · split at h
      · contradiction
      · next hknown =>
        rw [Bool.and_eq_true, not_and_or] at hknown
        refine .inr ⟨_, sendable_shortcutKey (hsendable ?_), (Option.some.inj h).symm⟩
        simpa using hknown
    · split at h
      · next hnamed =>
        split at h
        · contradiction
        · have hmem := List.contains_iff_mem.mp hnamed
          exact .inr ⟨_, hsendable (.inr hmem), (Option.some.inj h).symm⟩
      · split at h
        · split at h
          · contradiction
          · exact .inl (Option.some.inj h).symm
        · contradiction

/-- **The host reads a key press as the page does.** -/
theorem parse_keyMessage [SerdeJson] (hwell : WellFormed event.key) (hzero : event.key ≠ [0])
    (h : keyMessage event inField = some m) :
    ∃ input : InputEvent Binary64, m.Means input ∧ parse m.json = some input := by
  obtain rfl | ⟨name, hname, rfl⟩ := keyMessage_eq_some hwell hzero h
  · exact ⟨_, .text _, (Message.Means.text _).parse_json hwell⟩
  · obtain ⟨key, hkey⟩ := hname.exists_key
    obtain ⟨held, hheld⟩ := modifiers_eq event
    rw [hheld]
    exact ⟨_, .key held hkey, (Message.Means.key held hkey).parse_json hname.wellFormed⟩

/-- **The host reads an edit as the page does.** -/
theorem parse_typingMessage [SerdeJson] (hwell : WellFormed value)
    (h : typingMessage value = some m) :
    ∃ input : InputEvent Binary64, m.Means input ∧ parse m.json = some input := by
  have htext {typed : Text} (hsub : typed ⊆ value) :
      ∃ input : InputEvent Binary64, (Message.text typed).Means input ∧
        parse (Message.text typed).json = some input :=
    ⟨_, .text _, (Message.Means.text _).parse_json (hwell.of_subset hsub)⟩
  unfold typingMessage at h
  split at h
  · split at h
    · obtain rfl := Option.some.inj h
      exact htext (List.drop_sublist 1 value).subset
    · contradiction
  · split at h
    · obtain rfl := Option.some.inj h
      have hkey : Key.backspace.browserName = some (text "Backspace") := rfl
      exact ⟨_, .key [] hkey, (Message.Means.key [] hkey).parse_json (by decide)⟩
    · obtain rfl := Option.some.inj h
      exact htext List.filter_sublist.subset

end Keyboard

/-! ## The page and the host -/

/-- `createTrackpad` on the numbers of the page. -/
def Trackpad.pageMachine (hypot : Binary64 → Binary64 → Binary64) :
    Machine (Trackpad.State Binary64) (Trackpad.Event Binary64) :=
  letI := number hypot
  Trackpad.machine

/-- **Whatever the page sends, the host reads as the same input**: what the mouse sends of
positions that the page measured, what the trackpad sends unless a distance overflowed, and
what the keyboard and the hidden field send; with the same numbers where serde_json reads them
back.  It never reads a reset. -/
theorem page_understood [SerdeJson] (hserde : TakesOrdinary) (decimals : Decimals)
    (hypot : Binary64 → Binary64 → Binary64) :
    (∀ (es : List (Mouse.Event Binary64)) (s : Mouse.State Binary64),
      (∀ e ∈ es, ∀ p ∈ e.2, p.Measured hypot) →
      (Mouse.pageMachine hypot).Run Mouse.init es s →
      ∀ m ∈ s.sent, Understood decimals (m.json decimals) m.toEvent ∧
        (parse (m.json decimals)).isSome) ∧
    (∀ (es : List (Trackpad.Event Binary64)) (s : Trackpad.State Binary64),
      (Trackpad.pageMachine hypot).Run Trackpad.init es s →
      ∀ m ∈ s.sent, Understood decimals (m.json decimals) m.toEvent) ∧
    (∀ (event : Keyboard.KeyboardEvent) (inField : Bool) (m : Keyboard.Message),
      WellFormed event.key → event.key ≠ [0] → Keyboard.keyMessage event inField = some m →
      ∃ input : InputEvent Binary64, m.Means input ∧ parse m.json = some input) ∧
    (∀ (value : Text) (m : Keyboard.Message),
      WellFormed value → Keyboard.typingMessage value = some m →
      ∃ input : InputEvent Binary64, m.Means input ∧ parse m.json = some input) ∧
    ∀ json, parse json ≠ some .reset := by
  refine ⟨fun es s hmeasured hrun m hm => ?_,
    fun es s hrun m hm => .of_parse_eq hserde (Trackpad.parse_json m),
    fun event inField m hwell hzero h => Keyboard.parse_keyMessage hwell hzero h,
    fun value m hwell h => Keyboard.parse_typingMessage hwell h, Injector.parse_ne_reset⟩
  have hnumeric : ∀ e ∈ es, ∀ p ∈ e.2, p.Numeric := fun e he p hp => (hmeasured e he p hp).numeric
  have hfractions := Mouse.fractions_of_run hnumeric hrun m hm
  have hunderstood : Understood decimals (m.json decimals) m.toEvent :=
    .of_parse_eq hserde (Mouse.parse_json m)
  exact ⟨hunderstood, hunderstood.taken hfractions.ordinary⟩

/-- Where the pointer is at (640, 180), in a frame of 1280 by 720. -/
def Mouse.upperMiddle : Mouse.Position Binary64 :=
  ⟨((Binary64.ofInt 640).sub (.ofInt 0)).div (.ofInt 1280),
    ((Binary64.ofInt 180).sub (.ofInt 0)).div (.ofInt 720)⟩

/-- A touch. -/
def Trackpad.touch (x t : ℚ) : Trackpad.PointerEvent Binary64 :=
  ⟨1, .nearest x, .ofInt 0, .nearest t⟩

/-- The nearest doubles are always taken. -/
theorem takesOrdinary_nearest : @TakesOrdinary .nearest := by
  intro x h
  cases hx : Binary64.nearest x.value with
  | nan | infinite =>
      rw [hx] at h
      contradiction
  | finite v hv =>
      simp only [SerdeJson.number, hx]
      rfl

/-- A press, a tap, Cmd+Shift+4 and a word. -/
theorem page_understood_inputs :
    letI := SerdeJson.nearest
    (∃ s, (Mouse.pageMachine .max).Run Mouse.init [(.pointerdown 0, some Mouse.upperMiddle)] s ∧
      s.sent ≠ [] ∧ ∀ m ∈ s.sent, Understood .exact (m.json .exact) m.toEvent ∧
        (parse (m.json .exact)).isSome) ∧
    (∃ s, (Trackpad.pageMachine .max).Run Trackpad.init
        [.down (Trackpad.touch 100 0), .up (Trackpad.touch 100 80) .pointerup, .fire 0] s ∧
      s.sent ≠ [] ∧ ∀ m ∈ s.sent, Understood .exact (m.json .exact) m.toEvent) ∧
    (∃ input : InputEvent Binary64,
      (Keyboard.Message.key (text "4") [text "shift", text "meta"]).Means input ∧
      parse (Keyboard.Message.key (text "4") [text "shift", text "meta"]).json = some input) ∧
    (∃ input : InputEvent Binary64, (Keyboard.Message.text (text "hi")).Means input ∧
      parse (Keyboard.Message.text (text "hi")).json = some input) ∧
    parse (literal (text "reset") []) ≠ some .reset := by
  let _ := SerdeJson.nearest
  obtain ⟨hmouse, htrackpad, hkeys, htyping, hreset⟩ :=
    page_understood takesOrdinary_nearest .exact .max
  refine ⟨?_, ?_, ?_, ?_, hreset _⟩
  · obtain ⟨s, hrun, hsent⟩ := (Mouse.pageMachine .max).exists_run Mouse.init
      [(.pointerdown 0, some Mouse.upperMiddle)] (fun s => decide (s.sent ≠ [])) (by decide +kernel)
    refine ⟨s, hrun, of_decide_eq_true hsent, hmouse _ s ?_ hrun⟩
    intro e he p hp
    obtain rfl := List.mem_singleton.mp he
    obtain rfl := Option.some.inj hp
    exact ⟨⟨.ofInt 0, .ofInt 0, .ofInt 1280, .ofInt 720⟩, .ofInt 640, .ofInt 180,
      by decide +kernel, by decide +kernel, by decide +kernel, by decide +kernel,
      by decide +kernel, by decide +kernel, rfl⟩
  · obtain ⟨s, hrun, hsent⟩ := (Trackpad.pageMachine .max).exists_run Trackpad.init
      [.down (Trackpad.touch 100 0), .up (Trackpad.touch 100 80) .pointerup, .fire 0]
      (fun s => decide (s.sent ≠ [])) (by decide +kernel)
    exact ⟨s, hrun, of_decide_eq_true hsent, htrackpad _ s hrun⟩
  · exact hkeys ⟨false, true, false, false, true, text "$", text "Digit4"⟩ false _ (by decide)
      (by decide) rfl
  · exact htyping (Keyboard.sentinel :: text "hi") _ (by decide) rfl

/-! ## Numbers that are lost -/

/-- The numbers of an event are finite, and its frame has a positive size. -/
def Trackpad.Event.Measured : Trackpad.Event Binary64 → Prop
  | .down event | .up event _ => event.clientX.isFinite ∧ event.clientY.isFinite
  | .move event frame => event.clientX.isFinite ∧ event.clientY.isFinite ∧
      ∀ f ∈ frame, IsLength f.width ∧ IsLength f.height
  | .fire _ => True

/-- Two positions of a finger, 2¹⁰²⁴ apart. -/
def Trackpad.farApart : List (Trackpad.Event Binary64) :=
  [.down (Trackpad.touch (2 ^ 1023) 0),
    .move (Trackpad.touch (-2 ^ 1023) 16) (some ⟨.ofInt 1280, .ofInt 720⟩)]

/-- Where the pointer is at (57, 254), in a frame of 508 by 508. -/
def Mouse.leftEdge : Mouse.Position Binary64 :=
  ⟨((Binary64.ofInt 57).sub (.ofInt 0)).div (.ofInt 508),
    ((Binary64.ofInt 254).sub (.ofInt 0)).div (.ofInt 508)⟩

/-- 57/508 as JavaScript writes it. -/
def Mouse.leftEdgeDecimal : Numeral := ⟨11220472440944881, 17, none⟩

/-- Every digit of a double, but of 57/508 only those that JavaScript writes. -/
def shortDecimals : Decimals where
  print q :=
    if Binary64.nearest Mouse.leftEdgeDecimal.value = Binary64.nearest q then
      Mouse.leftEdgeDecimal
    else .exact q
  nearest_print q h := by
    split
    · next heq => rw [heq, Binary64.nearest_of_representable h]
    · exact Decimals.exact.nearest_print q h

/-- The digits as a double, divided by a power of ten: a number of few digits is read so. -/
@[reducible] def dividingSerde : SerdeJson where
  number x := some ((Binary64.ofInt x.digits).div (.ofInt (10 ^ x.fraction)))

/-- A distance between finite positions that overflows is sent as null, which the host
rejects; and a position at a pixel is read as the double beside it. -/
theorem numbers_lost :
    letI := dividingSerde
    (∀ e ∈ Trackpad.farApart, e.Measured) ∧
      (∃ s, (Trackpad.pageMachine fun _ _ => .infinite false).Run Trackpad.init
          Trackpad.farApart s ∧
        ∃ m ∈ s.sent, parse (m.json shortDecimals) = none) ∧
      Mouse.leftEdge.Measured .max ∧
      ∃ s, (Mouse.pageMachine .max).Run Mouse.init [(.pointerdown 0, some Mouse.leftEdge)] s ∧
        ∃ m ∈ s.sent, (parse (m.json shortDecimals)).isSome ∧
          parse (m.json shortDecimals) ≠ some m.toEvent := by
  let _ := dividingSerde
  refine ⟨?_, ?_, ?_, ?_⟩
  · rw [Trackpad.farApart, List.forall_mem_cons, List.forall_mem_singleton]
    refine ⟨⟨by decide +kernel, by decide +kernel⟩, by decide +kernel, by decide +kernel, ?_⟩
    intro frame hframe
    obtain rfl := Option.some.inj hframe
    exact ⟨by decide +kernel, by decide +kernel⟩
  · obtain ⟨s, hrun, hsent⟩ := (Trackpad.pageMachine fun _ _ => .infinite false).exists_run
      Trackpad.init Trackpad.farApart
      (fun s => decide (∃ m ∈ s.sent, parse (m.json shortDecimals) = none)) (by decide +kernel)
    exact ⟨s, hrun, of_decide_eq_true hsent⟩
  · exact ⟨⟨.ofInt 0, .ofInt 0, .ofInt 508, .ofInt 508⟩, .ofInt 57, .ofInt 254,
      by decide +kernel, by decide +kernel, by decide +kernel, by decide +kernel,
      by decide +kernel, by decide +kernel, rfl⟩
  · obtain ⟨s, hrun, hsent⟩ := (Mouse.pageMachine .max).exists_run Mouse.init
      [(.pointerdown 0, some Mouse.leftEdge)]
      (fun s => decide (∃ m ∈ s.sent, (parse (m.json shortDecimals)).isSome ∧
        parse (m.json shortDecimals) ≠ some m.toEvent)) (by decide +kernel)
    exact ⟨s, hrun, of_decide_eq_true hsent⟩

end RemoteBridge
