import RemoteBridge.Injector.Buttons

/-!
# Injector.Calls

Which calls the injector makes for an event, and that only relative moves and
scrolls change the remainders.
-/

namespace RemoteBridge.Injector

variable {α β γ : Type} {os : Os} {s s' s'' : State α} {P Q : Call → Prop}

/-! ## Steps that only make calls -/

/-- From `s` to `s'` only calls that satisfy `P` were made; the map and the
remainders are the same. -/
structure Calls (P : Call → Prop) (s s' : State α) : Prop where
  map : s'.map = s.map
  moveRest : s'.moveRest = s.moveRest
  scrollRest : s'.scrollRest = s.scrollRest
  calls : ∃ new, s'.calls = s.calls ++ new ∧ ∀ c ∈ new, P c.1

theorem Calls.refl (s : State α) : Calls P s s := ⟨rfl, rfl, rfl, [], by simp⟩

theorem Calls.trans (h : Calls P s s') (h' : Calls P s' s'') : Calls P s s'' := by
  obtain ⟨new, hnew, hP⟩ := h.calls
  obtain ⟨new', hnew', hP'⟩ := h'.calls
  refine ⟨h'.map.trans h.map, h'.moveRest.trans h.moveRest, h'.scrollRest.trans h.scrollRest,
    new ++ new', ?_, ?_⟩
  · rw [hnew', hnew, List.append_assoc]
  · exact List.forall_mem_append.mpr ⟨hP, hP'⟩

/-- A step of the injector that, whether it fails or not, only makes such calls. -/
def Makes (P : Call → Prop) (m : Inject α β) : Prop := ∀ s, Calls P s (after m s)

theorem makes_pure (a : β) : Makes P (pure a : Inject α β) := .refl

theorem makes_throw (e : InputError) : Makes P (throw e : Inject α β) := .refl

theorem makes_get : Makes P (get : Inject α (State α)) := .refl

theorem makes_enigo {call : Call} (h : P call) : Makes P (enigo os call : Inject α Unit) := by
  intro s
  rw [after_enigo]
  exact ⟨rfl, rfl, rfl, _, rfl, by simpa using h⟩

/-- Changing nothing but `held`. -/
theorem makes_modify {f : State α → State α} (h : ∀ s, f s = { s with held := (f s).held }) :
    Makes P (modify f : Inject α PUnit) := by
  intro s
  rw [after_modify, h s]
  exact ⟨rfl, rfl, rfl, [], by simp⟩

theorem Makes.bind {m : Inject α β} {f : β → Inject α γ} (hm : Makes P m)
    (hf : ∀ a, Makes P (f a)) : Makes P (m >>= f) := by
  intro s
  have hs := hm s
  rw [after, bind_eq]
  rw [after] at hs
  cases hms : m s with
  | error e s' =>
      rw [hms] at hs
      exact hs
  | ok a s' =>
      rw [hms] at hs
      exact hs.trans (hf a s')

theorem Makes.attempt {m : Inject α Unit} (hm : Makes P m) : Makes P (attempt m) := by
  intro s
  have h := hm s
  rw [after] at h ⊢
  rw [Injector.attempt]
  cases hms : m s <;> simpa only [hms] using h

theorem Makes.when {c : Prop} [Decidable c] {m : Inject α Unit} (hm : Makes P m) :
    Makes P (if c then m else pure ()) := by
  split
  · exact hm
  · exact makes_pure ()

theorem makes_location (h : P .location) : Makes P (location os : Inject α _) :=
  makes_get.bind fun _ => (makes_enigo h).bind fun _ => makes_pure _

theorem makes_press {b : MouseButton} (h : ∀ b d, P (.button b d)) :
    Makes P (press os b : Inject α Unit) := by
  refine (makes_enigo (h b .press)).bind fun _ => makes_modify fun s => ?_
  split <;> rfl

theorem makes_release {b : MouseButton} (h : ∀ b d, P (.button b d)) :
    Makes P (release os b : Inject α Unit) :=
  (makes_enigo (h b .release)).bind fun _ => makes_modify fun _ => rfl

theorem makes_releaseAll (bs : List MouseButton) (h : ∀ b d, P (.button b d)) :
    Makes P (releaseAll os bs : Inject α Unit) := by
  induction bs with
  | nil => exact makes_pure ()
  | cons b bs ih => exact (makes_enigo (h b .release)).bind fun _ => ih

theorem makes_keyCombo (key : Key) (mods : List Modifier) (h : ∀ k d, P (.key k d)) :
    Makes P (keyCombo os key mods : Inject α Unit) := by
  have hpress : Makes P (pressMods os mods : Inject α _) := by
    induction mods with
    | nil => exact makes_pure _
    | cons m mods ih =>
        refine (makes_enigo (h _ _)).attempt.bind fun result => ?_
        cases result with
        | error e => exact makes_pure _
        | ok _ => exact ih.bind fun _ => makes_pure _
  have hclick (result : Except InputError Unit) :
      Makes P (clickKey os key result : Inject α _) := by
    cases result with
    | error e => exact makes_pure _
    | ok _ => exact (makes_enigo (h _ _)).attempt
  have hrelease (mods : List Modifier) (result : Except InputError Unit) :
      Makes P (releaseMods os result mods : Inject α _) := by
    induction mods generalizing result with
    | nil => exact makes_pure _
    | cons m mods ih => exact (makes_enigo (h _ _)).attempt.bind fun _ => ih _
  refine hpress.bind fun pressed => (hclick _).bind fun result => (hrelease _ _).bind fun result => ?_
  cases result with
  | error e => exact makes_throw e
  | ok _ => exact makes_pure _

/-! ## The cursor -/

theorem after_get_bind (f : State α → Inject α β) (s : State α) :
    after (get >>= f) s = after (f s) s := rfl

/-- The position of the cursor, then a step that runs only if it could be read. -/
theorem after_location_bind (f : Int32 × Int32 → Inject α β) (s : State α) :
    after (location os >>= f) s =
      let s' := called os s .location
      if os.succeeds s.calls.length then after (f (os.location s.calls.length)) s' else s' := by
  have hlocation : location os s = if os.succeeds s.calls.length then
      .ok (os.location s.calls.length) (called os s .location)
      else .error ⟨s.calls.length⟩ (called os s .location) := by
    have hget : location os s = (enigo os .location >>= fun _ =>
        pure (os.location s.calls.length) : Inject α _) s := rfl
    rw [hget, bind_eq, enigo_eq, called]
    cases os.succeeds s.calls.length <;> rfl
  rw [after, bind_eq, hlocation]
  dsimp only
  cases os.succeeds s.calls.length <;> rfl

/-! ## Events -/

/-- The calls that an event may make. -/
def CallOf : InputEvent α → Call → Prop
  | .key _ _, .key _ _ => True
  | .moveRel _ _, .location | .moveRel _ _, .moveMouse _ _ => True
  | .scroll _ _, .smoothScroll _ _ => True
  | .text _, .text _ => True
  | .down _ _, .moveMouse _ _ | .move _ _, .moveMouse _ _ | .up _ _, .moveMouse _ _ => True
  | .down _ _, .button _ _ | .up _ _, .button _ _ | .click _, .button _ _ => True
  | .press _, .button _ _ | .release _, .button _ _ | .reset, .button _ _ => True
  | _, _ => False

variable [Double α]

/-- What is left of a relative move once the remainders are taken out. -/
def moveBy (os : Os) (stepX stepY : Int32) : Inject α Unit := do
  let s ← get
  if stepX ≠ 0 ∨ stepY ≠ 0 then
    let (cx, cy) ← location os
    let x := clampInt32 (cx + stepX) 0 (Double.toInt32 s.map.displayWidth - 1)
    let y := clampInt32 (cy + stepY) 0 (Double.toInt32 s.map.displayHeight - 1)
    enigo os (.moveMouse x y)

/-- Where the cursor is sent along one axis. -/
def sentTo (cursor step : Int32) (display : α) : Int32 :=
  clampInt32 (cursor + step) 0 (Double.toInt32 display - 1)

/-- The calls a relative move makes. -/
theorem calls_moveBy (stepX stepY : Int32) :
    (after (moveBy os stepX stepY) s).calls = s.calls ++
      if stepX ≠ 0 ∨ stepY ≠ 0 then
        (.location, os.succeeds s.calls.length) ::
          if os.succeeds s.calls.length then
            [(.moveMouse (sentTo (os.location s.calls.length).1 stepX s.map.displayWidth)
                (sentTo (os.location s.calls.length).2 stepY s.map.displayHeight),
              os.succeeds (s.calls.length + 1))]
          else []
      else [] := by
  rw [moveBy, after_get_bind]
  dsimp only
  split
  · rw [after_location_bind]
    dsimp only
    split
    next hlocation =>
      rw [after_enigo]
      simp [called, sentTo]
    next hlocation => simp [called]
  · exact (List.append_nil _).symm

/-- The remainder and the whole points of a relative move, on each axis. -/
def moveSteps (s : State α) (dx dy : α) : (α × Int32) × (α × Int32) :=
  (takeWhole s.moveRest.1 (s.map.toPoints dx dy).1, takeWhole s.moveRest.2 (s.map.toPoints dx dy).2)

/-- Those of a scroll. -/
def scrollSteps (s : State α) (dx dy : α) : (α × Int32) × (α × Int32) :=
  (takeWhole s.scrollRest.1 (-(s.map.toPoints dx dy).1),
    takeWhole s.scrollRest.2 (-(s.map.toPoints dx dy).2))

theorem after_moveRel (dx dy : α) (s : State α) :
    after (moveRel os dx dy) s =
      after (moveBy os (moveSteps s dx dy).1.2 (moveSteps s dx dy).2.2)
        { s with moveRest := ((moveSteps s dx dy).1.1, (moveSteps s dx dy).2.1) } := rfl

/-- What is left of a scroll. -/
def scrollBy (os : Os) (stepX stepY : Int32) : Inject α Unit := do
  if stepY ≠ 0 then enigo os (.smoothScroll stepY .vertical)
  if stepX ≠ 0 then enigo os (.smoothScroll stepX .horizontal)

theorem after_scroll (dx dy : α) (s : State α) :
    after (scroll os dx dy) s =
      after (scrollBy os (scrollSteps s dx dy).1.2 (scrollSteps s dx dy).2.2)
        { s with scrollRest := ((scrollSteps s dx dy).1.1, (scrollSteps s dx dy).2.1) } := rfl

theorem makes_moveBy (os : Os) (stepX stepY : Int32) (hlocation : P .location)
    (hmove : ∀ x y, P (.moveMouse x y)) : Makes P (moveBy os stepX stepY : Inject α Unit) :=
  makes_get.bind fun _ => ((makes_location hlocation).bind fun _ => makes_enigo (hmove _ _)).when

omit [Double α] in
theorem makes_scrollBy (os : Os) (stepX stepY : Int32) (h : ∀ n axis, P (.smoothScroll n axis)) :
    Makes P (scrollBy os stepX stepY : Inject α Unit) := by
  unfold scrollBy
  dsimp only
  split
  · exact (makes_enigo (h _ _)).bind fun _ => (makes_enigo (h _ _)).when
  · exact (makes_enigo (h _ _)).when

theorem makes_moveTo (x y : α) (h : ∀ x y, P (.moveMouse x y)) : Makes P (moveTo os x y) :=
  makes_get.bind fun _ => makes_enigo (h _ _)

/-- Every event that is neither a relative move nor a scroll only makes its calls. -/
theorem makes_apply (os : Os) (event : InputEvent α) (hmove : ∀ dx dy, event ≠ .moveRel dx dy)
    (hscroll : ∀ dx dy, event ≠ .scroll dx dy) : Makes (CallOf event) (apply os event) := by
  cases event with
  | down x y =>
      exact (makes_moveTo x y fun _ _ => trivial).bind fun _ => makes_press fun _ _ => trivial
  | move x y => exact makes_moveTo x y fun _ _ => trivial
  | up x y =>
      exact (makes_moveTo x y fun _ _ => trivial).bind fun _ => makes_release fun _ _ => trivial
  | moveRel dx dy => exact absurd rfl (hmove dx dy)
  | click b => exact makes_enigo trivial
  | press b => exact makes_press fun _ _ => trivial
  | release b => exact makes_release fun _ _ => trivial
  | scroll dx dy => exact absurd rfl (hscroll dx dy)
  | text t => exact makes_enigo trivial
  | key k mods => exact makes_keyCombo k mods fun _ _ => trivial
  | reset =>
      exact makes_get.bind fun s => (makes_modify fun _ => rfl).bind fun _ =>
        makes_releaseAll _ fun _ _ => trivial

/-- The log grows by calls of the event. -/
theorem calls_apply (os : Os) (event : InputEvent α) (s : State α) :
    ∃ new, (after (apply os event) s).calls = s.calls ++ new ∧ ∀ c ∈ new, CallOf event c.1 := by
  by_cases hmove : ∃ dx dy, event = .moveRel dx dy
  · obtain ⟨dx, dy, rfl⟩ := hmove
    rw [apply, after_moveRel]
    exact (makes_moveBy os _ _ trivial (fun _ _ => trivial) _).calls
  · by_cases hscroll : ∃ dx dy, event = .scroll dx dy
    · obtain ⟨dx, dy, rfl⟩ := hscroll
      rw [apply, after_scroll]
      exact (makes_scrollBy os _ _ (fun _ _ => trivial) _).calls
    · exact (makes_apply os event (fun dx dy h => hmove ⟨dx, dy, h⟩)
        (fun dx dy h => hscroll ⟨dx, dy, h⟩) s).calls

end RemoteBridge.Injector
