import RemoteBridge.Trackpad.Watch

/-!
# Trackpad.Taps

The account of one-finger taps: each is a click sent, a drag, a click held back
or a click the current gesture owes.  The taps are counted by the observer of the
events, who does not look at the gesture record.
-/

namespace RemoteBridge.Trackpad

variable {α : Type}

/-! ## The account -/

def Message.isLeftClick : Message α → Bool
  | .click .left => true
  | _ => false

def Message.isPress : Message α → Bool
  | .press _ => true
  | _ => false

/-- The left clicks and presses among messages. -/
def spent (ms : List (Message α)) : Nat := ms.countP (·.isLeftClick) + ms.countP (·.isPress)

/-- A held click counts one, and so does a click the gesture owes. -/
def State.due (s : State α) : Nat :=
  (if s.heldClick.isSome then 1 else 0) + if s.gesture.any (·.owesClick) then 1 else 0

theorem spent_append (xs ys : List (Message α)) : spent (xs ++ ys) = spent xs + spent ys := by
  simp only [spent, List.countP_append]
  omega

/-- The click a gesture owes, as a number. -/
def Gesture.owed (g : Gesture α) : Nat := if g.owesClick then 1 else 0

/-- Landing a second finger sends the click the gesture owes. -/
theorem spent_land {g : Gesture α} (touches : Touches α) :
    spent (g.land touches).2 + (g.land touches).1.owed = g.owed := by
  unfold Gesture.land Gesture.secondFinger
  split
  · cases ho : g.owesClick <;> cases g.dragging <;>
      simp [spent, Gesture.owed, ho, leftClick, Message.isLeftClick, Message.isPress]
  · simp [spent]

variable [Double α] {w : Watch α} {s s' : State α} {g : Gesture α} {event : PointerEvent α}
  {type : LiftType}

/-- A drag that starts takes the owed click for its press. -/
theorem spent_track (h : g.Ok) (last centre : Point α) (frame : Option (Frame α)) :
    spent (g.track last centre frame).2 + (g.track last centre frame).1.owed = g.owed := by
  have harmed := h.armed
  unfold Gesture.track Gesture.startDrag
  dsimp only
  repeat' split
  all_goals simp_all [spent, Gesture.owed, Message.isLeftClick, Message.isPress]

/-- Whether a gesture that ends is a tap, by its record. -/
def Gesture.isTap (g : Gesture α) (event : PointerEvent α) (type : LiftType) : Bool :=
  g.fingers = 1 && !g.moved && !Double.lt tapMaxMs (event.timeStamp - g.startedAt) &&
    type = .pointerup

omit [Double α] in
@[simp] theorem spent_send (m : Message α) : spent (s.send m).sent = spent s.sent + spent [m] :=
  spent_append _ _

omit [Double α] in
@[simp] theorem due_send (m : Message α) : (s.send m).due = s.due := rfl

omit [Double α] in
@[simp] theorem due_holdClick (hgesture : s.gesture = none) : s.holdClick.due = 1 := by
  simp [State.holdClick, State.due, hgesture]

/-- The last lift settles the account: the owed click is sent, and a tap is
clicked at once after another or else held back. -/
theorem spent_finish (h : g.Ok) (hgesture : s.gesture = none) (hheld : s.heldClick = none) :
    spent (s.finish event type g).sent + (s.finish event type g).due =
      spent s.sent + g.owed + if g.isTap event type then 1 else 0 := by
  have hdue : s.due = 0 := by simp [State.due, hgesture, hheld]
  have hclick : spent [(leftClick : Message α)] = 1 := rfl
  have hright : spent [(.click .right : Message α)] = 0 := rfl
  have hrelease : spent [(.release .left : Message α)] = 0 := rfl
  cases hd : g.dragging with
  | true =>
      obtain ⟨-, hmoved, howes⟩ := h.drag hd
      simp_all [State.finish, Gesture.owed, Gesture.isTap]
  | false =>
      unfold State.finish
      have hfingers := h.fingers
      have hsent : spent s.holdClick.sent = spent s.sent := rfl
      cases type <;> cases ho : g.owesClick <;> cases hm : g.moved <;>
        cases hlate : Double.lt tapMaxMs (event.timeStamp - g.startedAt) <;>
        rcases hfingers with hf | hf <;> simp_all [Gesture.owed, Gesture.isTap]

/-! ## One step -/

omit [Double α] in
theorem due_eq (hgesture : s.gesture = some g) (hheld : s.heldClick = none) : s.due = g.owed := by
  simp [State.due, Gesture.owed, hgesture, hheld]

theorem Seen.isTap_eq (h : Seen w g) : w.isTap event type = g.isTap event type := by
  simp [Watch.isTap, Gesture.isTap, h.alone, h.still, h.startedAt]

omit [Double α] in
/-- While the gesture goes on, what it sends is taken from what it owed. -/
theorem account_touching {out : List (Message α)} {g' : Gesture α} {taps : Nat} (h : Touching s g)
    (htaps : taps = spent s.sent + s.due) (hsent : s'.sent = s.sent ++ out)
    (hgesture : s'.gesture = some g') (hheld : s'.heldClick = none)
    (hout : spent out + g'.owed = g.owed) : taps = spent s'.sent + s'.due := by
  rw [due_eq hgesture hheld, hsent, spent_append, htaps, due_eq h.gesture h.heldClick]
  omega

/-- **One step** keeps the account: what moves between the timer, the gesture
and the messages is counted once. -/
theorem taps_step {e : Event α} (h : Watched w s) (htaps : w.taps = spent s.sent + s.due)
    (hstep : Step s e s') : (w.see e).taps = spent s'.sent + s'.due := by
  obtain ⟨htouches, hseen⟩ := h
  cases hstep with
  | first event hnone hgesture =>
      have hw : w.touches = [] := htouches.trans hnone
      cases hheld : s.heldClick <;>
        simpa [Watch.see, Watch.start, hw, State.due, hgesture, hheld, firstGesture] using htaps
  | next event g hg =>
      have hw : w.touches ≠ [] := htouches ▸ hg.touches
      rw [Watch.see, if_neg hw]
      exact account_touching hg htaps rfl rfl hg.heldClick (spent_land (s.landed event))
  | moved event frame g last hg hhas hlast =>
      rw [Watch.see, if_pos (htouches ▸ hhas)]
      exact account_touching hg htaps rfl rfl hg.heldClick (spent_track hg.ok _ _ _)
  | strayMove event frame hhas =>
      rw [Watch.see, if_neg (htouches ▸ hhas)]
      exact htaps
  | lifted event type g hg hhas hmore =>
      have htaps' : (w.see (.up event type)).taps = w.taps := by
        simp only [Watch.see, htouches, if_pos hhas, if_neg hmore]
      rw [htaps']
      have hnothing : spent ([] : List (Message α)) + g.owed = g.owed := Nat.zero_add _
      exact account_touching hg htaps (List.append_nil _).symm rfl hg.heldClick hnothing
  | ended event type g hg hhas hnone =>
      have hfinish := @spent_finish α _ { s with touches := [], gesture := none } g event type
        hg.ok rfl hg.heldClick
      rw [due_eq hg.gesture hg.heldClick] at htaps
      simp only [Watch.see, htouches, if_pos hhas, if_pos hnone,
        Seen.isTap_eq (hseen g hg.gesture)]
      cases htap : g.isTap event type <;> simp_all
  | strayUp event type hhas =>
      rw [Watch.see, if_neg (htouches ▸ hhas)]
      exact htaps
  | fired id hnone hgesture hheld htimers =>
      have hclick : spent [(leftClick : Message α)] = 1 := rfl
      simp only [Watch.see, fire, spent_send, due_send, hclick]
      simpa [State.due, hgesture, hheld] using htaps

theorem taps_of_run {es : List (Event α)} (h : machine.Run init es s) :
    (watch es).taps = spent s.sent + s.due := by
  refine h.rec_snoc (P := fun es s => (watch es).taps = spent s.sent + s.due) rfl ?_
  intro es e s s' hrun htaps hstep
  rw [watch, List.foldl_append]
  exact taps_step (watched_of_run hrun) htaps (step_of_eq (inv_of_run hrun) hstep)

/-! ## Every run -/

/-- **No tap is lost and none is clicked twice.**  After any events, every
one-finger tap seen so far is a left click sent, a press sent, the click held
back (whose timer is the one pending) or the click the current gesture owes, and
nothing else is. -/
theorem taps_accounted {es : List (Event α)} (h : machine.Run init es s) :
    s.timers = s.heldClick.toList ∧
      (watch es).taps = s.sent.countP (·.isLeftClick) + s.sent.countP (·.isPress) +
      (if s.heldClick.isSome then 1 else 0) + if s.gesture.any (·.owesClick) then 1 else 0 := by
  refine ⟨?_, by rw [taps_of_run h, spent, State.due, ← Nat.add_assoc]⟩
  cases inv_of_run h with
  | idle _ _ htimers => exact htimers
  | touching g hg => rw [hg.timers, hg.heldClick]; rfl

/-- Two quick taps, then a tap and a drag: two clicks and a press. -/
theorem taps_accounted_example :
    letI := Double.exact
    ∃ (es : List (Event ℚ)) (s : State ℚ), machine.Run init es s ∧ (watch es).taps = 3 ∧
      s.sent.countP (·.isLeftClick) + s.sent.countP (·.isPress) +
        (if s.heldClick.isSome then 1 else 0) +
        (if s.gesture.any (·.owesClick) then 1 else 0) = 3 := by
  let _ := Double.exact
  let es : List (Event ℚ) :=
    [.down ⟨1, 50, 50, 1000⟩, .up ⟨1, 50, 50, 1050⟩ .pointerup, .down ⟨2, 50, 50, 1150⟩,
      .up ⟨2, 50, 50, 1200⟩ .pointerup, .down ⟨3, 50, 50, 2000⟩,
      .up ⟨3, 50, 50, 2050⟩ .pointerup, .down ⟨4, 50, 50, 2100⟩,
      .move ⟨4, 70, 50, 2150⟩ (some ⟨200, 100⟩)]
  have hsome : (machine.exec (init : State ℚ) es).isSome := by decide +kernel
  obtain ⟨s, hs⟩ := Option.isSome_iff_exists.mp hsome
  have htaps : (watch es).taps = 3 := by decide +kernel
  exact ⟨es, s, hs, htaps, (taps_accounted hs).2.symm.trans htaps⟩

end RemoteBridge.Trackpad
