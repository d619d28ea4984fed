import RemoteBridge.Injector.Buttons
import RemoteBridge.Trackpad.Invariant

/-!
# Trackpad.Buttons

The trackpad leaves no button down: what it sends follows a protocol of presses
and releases whose state is the drag in progress, and a host that is sent the
messages holds the left button exactly during a drag.
-/

namespace RemoteBridge.Trackpad

variable {α : Type}

/-! ## The protocol -/

/-- One message, with or without the left button pressed before it: a press
needs it up, a release down, clicks and scrolls are sent with the button up
only, and movement at any time. -/
def follow : Bool → Message α → Option Bool
  | false, .press .left => some true
  | true, .release .left => some false
  | false, .click _ => some false
  | false, .scroll _ _ => some false
  | pressed, .moveRel _ _ => some pressed
  | _, _ => none

/-- Whether a press is outstanding after these messages, `none` if they break
the protocol. -/
def pressed (sent : List (Message α)) : Option Bool := sent.foldlM follow false

theorem pressed_append {sent out : List (Message α)} {b : Bool} (h : pressed sent = some b) :
    pressed (sent ++ out) = out.foldlM follow b := by
  rw [pressed, List.foldlM_append]
  simp only [pressed] at h
  rw [h]
  rfl

/-- Whether a drag is in progress. -/
def State.dragging (s : State α) : Bool := s.gesture.any (·.dragging)

/-! ## The steps -/

theorem follow_land {g : Gesture α} (h : g.Ok) (touches : Touches α) :
    (g.land touches).2.foldlM follow g.dragging = some (g.land touches).1.dragging := by
  have hdrag := h.drag
  unfold Gesture.land Gesture.secondFinger
  split
  · cases hd : g.dragging <;> cases ho : g.owesClick <;> simp_all [follow, leftClick]
  · simp

variable [Double α] {s s' : State α} {g : Gesture α} {event : PointerEvent α}
  {type : LiftType}

theorem follow_track (h : g.Ok) (last centre : Point α) (frame : Option (Frame α)) :
    (g.track last centre frame).2.foldlM follow g.dragging =
      some (g.track last centre frame).1.dragging := by
  have hdrag := h.drag
  unfold Gesture.track
  dsimp only
  split
  · simp
  · split
    · simp
    · split
      · next hfingers =>
        have hd : g.dragging = false := by
          cases hd : g.dragging
          · rfl
          · have := (hdrag hd).1; simp_all
        simp [follow, hd]
      · unfold Gesture.startDrag
        split
        · simp_all [follow]
        · cases g.dragging <;> simp [follow]

omit [Double α] in
theorem pressed_send {m : Message α} {b b' : Bool} (h : pressed s.sent = some b)
    (hm : follow b m = some b') : pressed (s.send m).sent = some b' := by
  rw [State.send, pressed_append h]
  simp [hm]

/-- The end of a gesture releases the button if it was dragging. -/
theorem pressed_finish (h : pressed s.sent = some g.dragging) :
    pressed (s.finish event type g).sent = some false := by
  unfold State.finish
  split
  · next hd => exact pressed_send h (by simp [hd, follow])
  · next hd =>
    have hidle : pressed s.sent = some false := by simpa [hd] using h
    have hclick : ∀ {s : State α} {b : Button}, pressed s.sent = some false →
        pressed (s.send (.click b)).sent = some false := fun h => pressed_send h rfl
    have howed : pressed (if g.owesClick then s.send leftClick else s).sent = some false := by
      split
      · exact hclick hidle
      · exact hidle
    dsimp only
    generalize (if g.owesClick then s.send leftClick else s) = t at howed
    split
    · exact howed
    · split
      · exact howed
      · split
        · exact hclick howed
        · split
          · exact hclick howed
          · exact howed

/-- One step keeps what was sent in line with the drag in progress. -/
theorem Step.pressed {e : Event α} (hstep : Step s e s') (h : pressed s.sent = some s.dragging) :
    Trackpad.pressed s'.sent = some s'.dragging := by
  cases hstep with
  | first event htouches hgesture => simpa [State.dragging, hgesture, firstGesture] using h
  | next event g hg =>
      rw [State.dragging, hg.gesture, Option.any_some] at h
      rw [pressed_append h, follow_land hg.ok]
      rfl
  | moved event frame g last hg =>
      rw [State.dragging, hg.gesture, Option.any_some] at h
      rw [pressed_append h, follow_track hg.ok]
      rfl
  | strayMove => exact h
  | lifted event type g hg => simpa [State.dragging, hg.gesture] using h
  | ended event type g hg =>
      rw [State.dragging, hg.gesture, Option.any_some] at h
      rw [State.dragging, gesture_finish]
      exact pressed_finish h
  | strayUp => exact h
  | fired id htouches hgesture =>
      have hidle : s.dragging = false := by simp [State.dragging, hgesture]
      rw [hidle] at h
      simpa [State.dragging, fire, State.send, hgesture] using pressed_send h rfl

theorem pressed_of_run {es : List (Event α)} (h : machine.Run init es s) :
    pressed s.sent = some s.dragging :=
  (h.invariant (I := fun s => Inv s ∧ pressed s.sent = some s.dragging) ⟨inv_init, rfl⟩
    fun _ _ _ hs hstep =>
      have hstep := step_of_eq hs.1 hstep
      ⟨hstep.inv hs.1, hstep.pressed hs.2⟩).2

/-! ## The host -/

/-- A button's name as the host reads it. -/
def mouseButton : Button → MouseButton
  | .left => .left
  | .right => .right

/-- The message as the host reads it. -/
def Message.toEvent : Message α → InputEvent α
  | .click button => .click (mouseButton button)
  | .press button => .press (mouseButton button)
  | .release button => .release (mouseButton button)
  | .scroll dx dy => .scroll dx dy
  | .moveRel dx dy => .moveRel dx dy

/-- What the injector holds when only the left button can be pressed. -/
def heldWhen (pressed : Bool) : List MouseButton := if pressed then [.left] else []

/-- A message that follows the protocol keeps the injector's list in line with
it, when no call fails. -/
theorem held_follow {os : Injector.Os} {i : Injector.State α} {m : Message α} {b b' : Bool}
    (hos : ∀ n, os.succeeds n) (hi : i.held = heldWhen b) (hm : follow b m = some b') :
    (Injector.after (Injector.apply os m.toEvent) i).held = heldWhen b' := by
  cases m with
  | click button => cases b <;> simp_all [follow, Message.toEvent, Injector.apply]
  | press button =>
      cases b <;> cases button <;> simp only [follow, reduceCtorEq, Option.some.injEq] at hm
      rw [Message.toEvent, Injector.apply, Injector.after_press, if_pos (hos _)]
      simp [hi, heldWhen, mouseButton, ← hm]
  | release button =>
      cases b <;> cases button <;> simp only [follow, reduceCtorEq, Option.some.injEq] at hm
      rw [Message.toEvent, Injector.apply, Injector.after_release, if_pos (hos _)]
      simp [hi, heldWhen, mouseButton, ← hm]
  | scroll dx dy =>
      cases b <;> simp only [follow, reduceCtorEq, Option.some.injEq] at hm
      rw [Message.toEvent, Injector.apply, (Injector.quiet_scroll dx dy i).1, hi, hm]
  | moveRel dx dy =>
      have hb : b = b' := by cases b <;> simpa [follow] using hm
      rw [Message.toEvent, Injector.apply, (Injector.quiet_moveRel dx dy i).1, hi, hb]

/-- Nor is a button down that the list does not have, or up that it has. -/
theorem isDown_follow {os : Injector.Os} {i : Injector.State α} {m : Message α} {b b' : Bool}
    (hos : ∀ n, os.succeeds n) (hi : ∀ c, Injector.isDown i.calls c = decide (c ∈ heldWhen b))
    (hm : follow b m = some b') (c : MouseButton) :
    Injector.isDown (Injector.after (Injector.apply os m.toEvent) i).calls c =
      decide (c ∈ heldWhen b') := by
  have hquiet {m : Injector.Inject α Unit} (hm : Injector.Quiet m) :
      Injector.isDown (Injector.after m i).calls c = decide (c ∈ heldWhen b) := by
    obtain ⟨-, new, hcalls, hnew⟩ := hm i
    rw [hcalls, Injector.isDown_of_quiet hnew, hi]
  cases m with
  | click button =>
      cases b <;> simp only [follow, reduceCtorEq, Option.some.injEq] at hm
      rw [Message.toEvent, Injector.apply, Injector.after_enigo, Injector.isDown_append_singleton,
        hos, Injector.buttonAfter, hi, ← hm]
      split <;> rfl
  | press button =>
      cases b <;> cases button <;> simp only [follow, reduceCtorEq, Option.some.injEq] at hm
      rw [Message.toEvent, Injector.apply, Injector.after_press, if_pos (hos _)]
      simp [Injector.called, Injector.isDown_append_singleton, Injector.buttonAfter, hos, hi,
        heldWhen, mouseButton, ← hm, eq_comm]
  | release button =>
      cases b <;> cases button <;> simp only [follow, reduceCtorEq, Option.some.injEq] at hm
      rw [Message.toEvent, Injector.apply, Injector.after_release, if_pos (hos _)]
      simp [Injector.called, Injector.isDown_append_singleton, Injector.buttonAfter, hos, hi,
        heldWhen, mouseButton, ← hm, eq_comm]
  | scroll dx dy =>
      cases b <;> simp only [follow, reduceCtorEq, Option.some.injEq] at hm
      rw [Message.toEvent, Injector.apply, hquiet (Injector.quiet_scroll dx dy), hm]
  | moveRel dx dy =>
      have hb : b = b' := by cases b <;> simpa [follow] using hm
      rw [Message.toEvent, Injector.apply, hquiet (Injector.quiet_moveRel dx dy), hb]

/-- What every message that follows the protocol keeps, all of them do. -/
theorem foldlM_follow {os : Injector.Os} {I : Bool → Injector.State α → Prop}
    (keep : ∀ {i m b b'}, I b i → follow b m = some b' →
      I b' (Injector.after (Injector.apply os (Message.toEvent m)) i))
    {i i' : Injector.State α} {ms : List (Message α)} {b b' : Bool} (hi : I b i)
    (hms : ms.foldlM follow b = some b')
    (hrun : (Injector.machine os).Run i (ms.map Message.toEvent) i') : I b' i' := by
  induction ms generalizing i b with
  | nil =>
      rw [List.map_nil, Machine.run_nil] at hrun
      obtain rfl : b = b' := by simpa using hms
      exact hrun ▸ hi
  | cons m ms ih =>
      rw [List.map_cons, Machine.run_cons] at hrun
      obtain ⟨i₁, hstep, hrun⟩ := hrun
      rw [List.foldlM_cons, Option.bind_eq_bind, Option.bind_eq_some_iff] at hms
      obtain ⟨b₁, hm, hms⟩ := hms
      exact ih (Option.some.inj hstep ▸ keep hi hm) hms hrun

/-- **No button is left down by touch gestures.**  After any calls and timers no
handler throws; the messages sent follow the protocol, with a press outstanding
exactly while a drag is in progress and never without a finger down; and a host
that started with nothing held, sent these messages, holds the left button
exactly then and no other, and has it down if it started with none down. -/
theorem no_button_left_down {es : List (Event α)} (h : machine.Run init es s) :
    ((∀ event, (down s event).isSome) ∧ (∀ event frame, (move s event frame).isSome) ∧
      ∀ event type, (up s event type).isSome) ∧
    pressed s.sent = some s.dragging ∧ (s.touches = [] → s.dragging = false) ∧
    ∀ (os : Injector.Os) (i i' : Injector.State α), (∀ n, os.succeeds n) → i.held = [] →
      (Injector.machine os).Run i (s.sent.map Message.toEvent) i' →
      (i'.held = if s.dragging then [.left] else []) ∧
        ((∀ b, Injector.isDown i.calls b = false) →
          ∀ b, Injector.isDown i'.calls b = (s.dragging && decide (b = .left))) := by
  have hinv := inv_of_run h
  have hpressed := pressed_of_run h
  have htotal : ∀ e : Event α, (∀ id, e ≠ .fire id) → (machine.step s e).isSome := by
    intro e he
    obtain ⟨s', heq, -⟩ := exists_step hinv e fun id hid => absurd hid (he id)
    exact Option.isSome_iff_exists.mpr ⟨s', heq⟩
  refine ⟨⟨fun event => htotal (.down event) (by simp),
    fun event frame => htotal (.move event frame) (by simp),
    fun event type => htotal (.up event type) (by simp)⟩, hpressed, fun htouches => ?_, ?_⟩
  · cases hinv with
    | idle _ hgesture => simp [State.dragging, hgesture]
    | touching g hg => exact absurd htouches hg.touches
  · intro os i i' hos hi hrun
    refine ⟨foldlM_follow (I := fun b i => i.held = heldWhen b) (held_follow hos) hi hpressed hrun,
      fun hup b => ?_⟩
    have hdown := foldlM_follow
      (I := fun b i => ∀ c, Injector.isDown i.calls c = decide (c ∈ heldWhen b))
      (isDown_follow hos) hup hpressed hrun b
    rw [hdown]
    cases s.dragging <;> simp [heldWhen]

/-- A tap, then a touch that slides past the slop. -/
def dragEvents : List (Event ℚ) :=
  [.down ⟨1, 50, 50, 1000⟩, .up ⟨1, 50, 50, 1050⟩ .pointerup, .down ⟨2, 50, 50, 1100⟩,
    .move ⟨2, 70, 50, 1150⟩ (some ⟨200, 100⟩)]

/-- The drag of `dragEvents` has its press outstanding. -/
theorem no_button_left_down_drag :
    letI := Double.exact
    ∃ s : State ℚ, machine.Run init dragEvents s ∧ s.dragging = true ∧
      pressed s.sent = some s.dragging := by
  let _ := Double.exact
  have hdrag : (machine.exec (init : State ℚ) dragEvents).map State.dragging = some true := by
    decide +kernel
  obtain ⟨s, hs, hd⟩ := Option.map_eq_some_iff.mp hdrag
  exact ⟨s, hs, hd, (no_button_left_down hs).2.1⟩

end RemoteBridge.Trackpad
