import Mathlib.Data.List.Nodup
import RemoteBridge.Injector

/-!
# Injector.Buttons

The buttons the injector holds, against the state of the operating system's
buttons, when calls may fail.  `Up` releases only after its cursor move
succeeded and `Reset` gives up at the first release that fails; where neither
happens, every button that is down is in `held` and stays releasable.
-/

namespace RemoteBridge.Injector

variable {α β γ : Type} {os : Os} {s : State α} {b : MouseButton}

/-! ## What the log says -/

/-- What one call makes of a button: down after a press, up after a release or
a click; a call that fails changes nothing. -/
def buttonAfter (b : MouseButton) (isDown : Bool) : Call × Bool → Bool
  | (.button b' direction, true) => if b' = b then direction = .press else isDown
  | _ => isDown

/-- Whether a button is down after these calls. -/
def isDown (calls : List (Call × Bool)) (b : MouseButton) : Bool :=
  calls.foldl (buttonAfter b) false

theorem isDown_append_singleton (calls : List (Call × Bool)) (call : Call × Bool) :
    isDown (calls ++ [call]) b = buttonAfter b (isDown calls b) call := by
  simp [isDown]

/-! ## Single calls -/

@[simp] theorem after_pure (a : β) (s : State α) : after (pure a : Inject α β) s = s := rfl

@[simp] theorem after_throw (e : InputError) (s : State α) :
    after (throw e : Inject α β) s = s := rfl

@[simp] theorem after_get (s : State α) : after (get : Inject α (State α)) s = s := rfl

@[simp] theorem after_modify (f : State α → State α) (s : State α) :
    after (modify f : Inject α PUnit) s = f s := rfl

theorem bind_eq (m : Inject α β) (f : β → Inject α γ) (s : State α) :
    (m >>= f) s =
      match m s with
      | .ok a s => f a s
      | .error e s => .error e s := by
  simp only [bind, EStateM.bind]
  cases m s <;> rfl

theorem enigo_eq (call : Call) (s : State α) :
    enigo os call s =
      let s' := { s with calls := s.calls ++ [(call, os.succeeds s.calls.length)] }
      if os.succeeds s.calls.length then .ok () s' else .error ⟨s.calls.length⟩ s' := by
  change (if os.succeeds s.calls.length then pure () else throw ⟨s.calls.length⟩ :
    Inject α Unit) _ = _
  split <;> rfl

@[simp] theorem after_enigo (call : Call) (s : State α) :
    after (enigo os call) s =
      { s with calls := s.calls ++ [(call, os.succeeds s.calls.length)] } := by
  rw [after, enigo_eq]
  split <;> rename_i h <;> split at h <;> cases h <;> rfl

/-- A call, then a step that runs only if it succeeded. -/
theorem after_enigo_bind (call : Call) (f : Unit → Inject α β) (s : State α) :
    after (enigo os call >>= f) s =
      let s' := { s with calls := s.calls ++ [(call, os.succeeds s.calls.length)] }
      if os.succeeds s.calls.length then after (f ()) s' else s' := by
  rw [after, bind_eq, enigo_eq]
  cases h : os.succeeds s.calls.length <;> simp [after]

/-! ## Steps that leave the buttons alone -/

/-- A step that makes no button call and keeps `held`. -/
def Quiet (m : Inject α β) : Prop :=
  ∀ s, (after m s).held = s.held ∧
    ∃ new, (after m s).calls = s.calls ++ new ∧ ∀ c ∈ new, ∀ b d, c.1 ≠ .button b d

theorem quiet_pure (a : β) : Quiet (pure a : Inject α β) :=
  fun s => ⟨rfl, [], by simp⟩

theorem quiet_throw (e : InputError) : Quiet (throw e : Inject α β) :=
  fun s => ⟨rfl, [], by simp⟩

theorem quiet_get : Quiet (get : Inject α (State α)) :=
  fun s => ⟨rfl, [], by simp⟩

theorem quiet_enigo {call : Call} (h : ∀ b d, call ≠ .button b d) :
    Quiet (enigo os call : Inject α Unit) := fun s => by
  refine ⟨by simp, [(call, os.succeeds s.calls.length)], by simp, fun c hc => ?_⟩
  rw [List.mem_singleton.mp hc]
  exact h

theorem quiet_modify {f : State α → State α} (hheld : ∀ s, (f s).held = s.held)
    (hcalls : ∀ s, (f s).calls = s.calls) : Quiet (modify f : Inject α PUnit) :=
  fun s => ⟨hheld s, [], by simp [hcalls]⟩

theorem Quiet.bind {m : Inject α β} {f : β → Inject α γ} (hm : Quiet m) (hf : ∀ a, Quiet (f a)) :
    Quiet (m >>= f) := by
  intro s
  obtain ⟨hheld, new, hcalls, hnew⟩ := hm s
  rw [after, bind_eq]
  cases hms : m s with
  | error e s' =>
      simp only [after, hms] at hheld hcalls
      exact ⟨hheld, new, hcalls, hnew⟩
  | ok a s' =>
      simp only [after, hms] at hheld hcalls
      obtain ⟨hheld', new', hcalls', hnew'⟩ := hf a s'
      refine ⟨hheld'.trans hheld, new ++ new', ?_, ?_⟩
      · rw [← List.append_assoc, ← hcalls]
        exact hcalls'
      · intro c hc
        rcases List.mem_append.mp hc with hc | hc
        · exact hnew c hc
        · exact hnew' c hc

theorem Quiet.attempt {m : Inject α Unit} (hm : Quiet m) : Quiet (attempt m) := by
  intro s
  have h := hm s
  simp only [after, Injector.attempt] at *
  cases hms : m s <;> simpa only [hms] using h

theorem Quiet.when {c : Prop} [Decidable c] {m : Inject α Unit} (hm : Quiet m) :
    Quiet (if c then m else pure ()) := by
  split
  · exact hm
  · exact quiet_pure ()

theorem quiet_pressMods (mods : List Modifier) :
    Quiet (pressMods os mods : Inject α _) := by
  induction mods with
  | nil => exact quiet_pure _
  | cons m mods ih =>
      refine (quiet_enigo (by simp)).attempt.bind fun result => ?_
      cases result with
      | error e => exact quiet_pure _
      | ok _ => exact ih.bind fun _ => quiet_pure _

theorem quiet_releaseMods (mods : List Modifier) (result : Except InputError Unit) :
    Quiet (releaseMods os result mods : Inject α _) := by
  induction mods generalizing result with
  | nil => exact quiet_pure _
  | cons m mods ih => exact (quiet_enigo (by simp)).attempt.bind fun _ => ih _

theorem quiet_clickKey (key : Key) (result : Except InputError Unit) :
    Quiet (clickKey os key result : Inject α _) := by
  cases result with
  | error e => exact quiet_pure _
  | ok _ => exact (quiet_enigo (by simp)).attempt

theorem quiet_keyCombo (key : Key) (mods : List Modifier) :
    Quiet (keyCombo os key mods : Inject α _) := by
  refine (quiet_pressMods mods).bind fun ⟨pressed, result⟩ => ?_
  refine (quiet_clickKey key result).bind fun result => ?_
  refine (quiet_releaseMods _ result).bind fun result => ?_
  cases result with
  | error e => exact quiet_throw e
  | ok _ => exact quiet_pure _

theorem quiet_location : Quiet (location os : Inject α _) :=
  quiet_get.bind fun _ => (quiet_enigo (by simp)).bind fun _ => quiet_pure _

section

variable [Double α]

theorem quiet_moveRel (dx dy : α) : Quiet (moveRel os dx dy) := by
  refine quiet_get.bind fun s => ?_
  dsimp only
  refine Quiet.bind ?_ fun _ => Quiet.when ?_
  · exact quiet_modify (fun _ => rfl) fun _ => rfl
  · exact quiet_location.bind fun _ => quiet_enigo (by simp)

theorem quiet_scroll (dx dy : α) : Quiet (scroll os dx dy) := by
  refine quiet_get.bind fun s => ?_
  dsimp only
  refine Quiet.bind ?_ fun _ => ?_
  · exact quiet_modify (fun _ => rfl) fun _ => rfl
  · split
    · exact (quiet_enigo (by simp)).bind fun _ => (quiet_enigo (by simp)).when
    · exact (quiet_enigo (by simp)).when

theorem quiet_moveTo (x y : α) : Quiet (moveTo os x y) :=
  quiet_get.bind fun _ => quiet_enigo (by simp)

end

/-! ## Button steps -/

/-- `s` after one more call. -/
def called (os : Os) (s : State α) (call : Call) : State α :=
  { s with calls := s.calls ++ [(call, os.succeeds s.calls.length)] }

theorem after_press (s : State α) :
    after (press os b) s =
      if os.succeeds s.calls.length then
        { called os s (.button b .press) with
          held := if b ∈ s.held then s.held else s.held ++ [b] }
      else called os s (.button b .press) := by
  rw [press, after_enigo_bind]
  by_cases hb : b ∈ s.held <;> simp [called, hb]

theorem after_release (s : State α) :
    after (release os b) s =
      if os.succeeds s.calls.length then
        { called os s (.button b .release) with held := s.held.filter (· != b) }
      else called os s (.button b .release) := by
  rw [release, after_enigo_bind]
  simp [called]

/-- Releasing several buttons gets as far as the first failure. -/
theorem after_releaseAll (bs : List MouseButton) (s : State α) :
    ∃ done rest, bs = done ++ rest ∧ (after (releaseAll os bs) s).held = s.held ∧
      (after (releaseAll os bs) s).calls = s.calls ++
        (done.map fun b => (.button b .release, true)) ++
        (rest.head?.toList.map fun b => (.button b .release, false)) ∧
      (rest = [] ↔ ∀ k < bs.length, os.succeeds (s.calls.length + k)) := by
  induction bs generalizing s with
  | nil => exact ⟨[], [], rfl, rfl, by simp [releaseAll], by simp⟩
  | cons b bs ih =>
      rw [releaseAll, after_enigo_bind]
      by_cases hok : os.succeeds s.calls.length
      · simp only [hok, ↓reduceIte]
        obtain ⟨done, rest, hbs, hheld, hcalls, hrest⟩ :=
          ih { s with calls := s.calls ++ [(.button b .release, true)] }
        refine ⟨b :: done, rest, by rw [hbs, List.cons_append], hheld, ?_, ?_⟩
        · rw [hcalls]
          simp
        · rw [hrest, List.length_append, List.length_singleton, List.length_cons]
          constructor
          · intro h k hk
            cases k with
            | zero => exact hok
            | succ k => simpa [Nat.add_assoc, Nat.add_comm 1 k] using h k (by omega)
          · intro h k hk
            simpa [Nat.add_assoc, Nat.add_comm 1 k] using h (k + 1) (by omega)
      · refine ⟨[], b :: bs, rfl, by simp [hok], by simp [hok], ?_⟩
        simp only [reduceCtorEq, false_iff, not_forall]
        exact ⟨0, by simp, hok⟩

section

variable [Double α]

theorem after_moveTo_bind (x y : α) (f : Unit → Inject α β) (s : State α) :
    after (moveTo os x y >>= f) s =
      let s' := called os s (.moveMouse (s.map.toScreen x y).1 (s.map.toScreen x y).2)
      if os.succeeds s.calls.length then after (f ()) s' else s' :=
  after_enigo_bind _ f s

theorem after_reset (s : State α) :
    after (apply os .reset) s = after (releaseAll os s.held) { s with held := [] } := rfl

end

/-! ## No button is held twice -/

theorem nodup_press (h : s.held.Nodup) : (after (press os b) s).held.Nodup := by
  rw [after_press]
  split
  · dsimp only
    split
    · exact h
    · next hb => exact List.nodup_append.mpr ⟨h, by simp, by grind⟩
  · exact h

theorem nodup_release (h : s.held.Nodup) : (after (release os b) s).held.Nodup := by
  rw [after_release]
  split
  · exact h.filter _
  · exact h

/-! ## Every button that is down is held -/

/-- Every button that is down is in `held`. -/
def Tracked (s : State α) : Prop := ∀ b, isDown s.calls b → b ∈ s.held

theorem isDown_of_quiet {calls new : List (Call × Bool)}
    (h : ∀ c ∈ new, ∀ b d, c.1 ≠ .button b d) : isDown (calls ++ new) b = isDown calls b := by
  induction new using List.reverseRecOn with
  | nil => simp
  | append_singleton new c ih =>
      rw [← List.append_assoc, isDown_append_singleton,
        ih fun c hc => h c (List.mem_append_left _ hc)]
      have hc := h c (List.mem_append_right _ List.mem_cons_self)
      obtain ⟨call, ok⟩ := c
      cases call <;> simp_all [buttonAfter]

theorem isDown_releaseAll {calls : List (Call × Bool)} {bs : List MouseButton} :
    isDown (calls ++ bs.map fun b => (.button b .release, true)) b ↔
      isDown calls b ∧ b ∉ bs := by
  induction bs using List.reverseRecOn with
  | nil => simp
  | append_singleton bs b' ih =>
      rw [List.map_append, ← List.append_assoc, List.map_singleton, isDown_append_singleton,
        buttonAfter]
      by_cases hb : b' = b
      · simp [hb]
      · simp [hb, ih, Ne.symm hb]

theorem Tracked.quiet {m : Inject α β} (hm : Quiet m) (h : Tracked s) : Tracked (after m s) := by
  obtain ⟨hheld, new, hcalls, hnew⟩ := hm s
  intro b hb
  rw [hcalls, isDown_of_quiet hnew] at hb
  rw [hheld]
  exact h b hb

theorem Tracked.press (h : Tracked s) : Tracked (after (press os b) s) := by
  intro b' hb'
  have hb := h b'
  rw [after_press] at hb' ⊢
  cases hok : os.succeeds s.calls.length <;>
    simp only [hok, called, Bool.false_eq_true, ↓reduceIte, isDown_append_singleton,
      buttonAfter] at hb' ⊢
  · exact hb hb'
  · grind

theorem Tracked.release (h : Tracked s) : Tracked (after (release os b) s) := by
  intro b' hb'
  have hb := h b'
  rw [after_release] at hb' ⊢
  cases hok : os.succeeds s.calls.length <;>
    simp only [hok, called, Bool.false_eq_true, ↓reduceIte, isDown_append_singleton,
      buttonAfter] at hb' ⊢
  · exact hb hb'
  · grind

theorem Tracked.called {call : Call} (h : Tracked s) (hcall : ∀ b, call ≠ .button b .press) :
    Tracked (called os s call) := by
  intro b hb
  have hheld := h b
  rw [Injector.called, isDown_append_singleton] at hb
  cases call with
  | button b' d =>
      have hd : d ≠ .press := fun hd => hcall b' (by rw [hd])
      cases hok : os.succeeds s.calls.length <;> simp only [hok, buttonAfter] at hb
      · exact hheld hb
      · split at hb
        · simp [hd] at hb
        · exact hheld hb
  | _ => exact hheld (by simpa [buttonAfter] using hb)

/-! ## The events -/

/-- The buttons an event is meant to release. -/
def covered (s : State α) : InputEvent α → List MouseButton
  | .up _ _ => [.left]
  | .release button => [button]
  | .reset => s.held
  | _ => []

/-- What an event must do for the buttons, from `s` to `s'`: it attempts the
release of each button it covers, a button whose release did not succeed stays
in `held`, and every button that is down is in `held`. -/
structure Releasable (s s' : State α) (event : InputEvent α) : Prop where
  attempted : ∀ b ∈ covered s event,
    ∃ ok, (.button b .release, ok) ∈ s'.calls.drop s.calls.length
  kept : ∀ b ∈ s.held, (.button b .release, true) ∉ s'.calls.drop s.calls.length → b ∈ s'.held
  tracked : Tracked s'

/-- The calls whose failure the injector does not make up for: the cursor move
of an `Up` and the releases of a `Reset`. -/
def Unfailing (os : Os) (s : State α) : InputEvent α → Prop
  | .up _ _ => os.succeeds s.calls.length
  | .reset => ∀ k < s.held.length, os.succeeds (s.calls.length + k)
  | _ => True

/-- A step that covers no button and takes none out of `held`. -/
theorem Releasable.of_subset {s' : State α} {event : InputEvent α} (hevent : covered s event = [])
    (hheld : s.held ⊆ s'.held) (h : Tracked s') : Releasable s s' event where
  attempted := by simp [hevent]
  kept b hb _ := hheld hb
  tracked := h

theorem Releasable.of_quiet {m : Inject α β} {event : InputEvent α} (hevent : covered s event = [])
    (h : Tracked s) (hm : Quiet m) : Releasable s (after m s) event :=
  .of_subset hevent (fun b hb => by rwa [(hm s).1]) (h.quiet hm)

theorem held_subset_press (s : State α) : s.held ⊆ (after (press os b) s).held := by
  rw [after_press]
  grind [called]

/-- A release that is attempted keeps the button if it fails. -/
theorem mem_held_release {b' : MouseButton} (hb : b' ∈ s.held)
    (h : (.button b' .release, true) ∉ (after (release os b) s).calls.drop s.calls.length) :
    b' ∈ (after (release os b) s).held := by
  rw [after_release] at h ⊢
  grind [called]

theorem exists_mem_release (s : State α) :
    ∃ ok, (.button b .release, ok) ∈ (after (release os b) s).calls.drop s.calls.length := by
  rw [after_release]
  grind [called]

theorem releasable_release (h : Tracked s) :
    Releasable s (after (release os b) s) (.release b) where
  attempted b' hb' := by
    obtain rfl : b' = b := by simpa [covered] using hb'
    exact exists_mem_release s
  kept b' hb hnot := mem_held_release hb hnot
  tracked := h.release

/-- After a `Reset` whose releases all succeeded no button is down. -/
theorem releasable_reset_iff (hnodup : s.held.Nodup) (h : Tracked s) :
    Releasable s (after (releaseAll os s.held) { s with held := [] }) .reset ↔
      Unfailing os s .reset := by
  have hall := @after_releaseAll α os s.held { s with held := [] }
  obtain ⟨done, rest, hbs, hheld, hcalls, hrest⟩ := hall
  simp only at hheld hcalls hrest
  have hdrop : (after (releaseAll os s.held) { s with held := [] }).calls.drop s.calls.length =
      (done.map fun b => (.button b .release, true)) ++
        (rest.head?.toList.map fun b => (.button b .release, false)) := by
    rw [hcalls, List.append_assoc, List.drop_left]
  constructor
  · intro hrel
    refine hrest.mp ?_
    cases hr : rest with
    | nil => rfl
    | cons b rest' =>
        -- the release of `b` failed, and `held` was emptied
        have hb : b ∈ s.held := by rw [hbs, hr]; simp
        have hdone : b ∉ done := by
          intro hmem
          rw [hbs, hr] at hnodup
          exact (List.nodup_append.mp hnodup).2.2 b hmem b List.mem_cons_self rfl
        have := hrel.kept b hb (by rw [hdrop, hr]; simp [hdone])
        simp [hheld] at this
  · intro hall
    obtain rfl := hrest.mpr hall
    rw [List.append_nil] at hbs
    subst hbs
    refine ⟨fun b hb => ⟨true, ?_⟩, fun b hb hnot => absurd ?_ hnot, fun b hb => ?_⟩
    · rw [hdrop]
      simpa [covered] using hb
    · rw [hdrop]
      simpa using hb
    · rw [hcalls, List.head?_nil, Option.toList_none, List.map_nil, List.append_nil,
        isDown_releaseAll] at hb
      exact absurd (h b hb.1) hb.2

section

variable [Double α]

theorem releasable_down (h : Tracked s) (x y : α) :
    Releasable s (after (apply os (.down x y)) s) (.down x y) := by
  rw [apply, after_moveTo_bind]
  have hmoved : Tracked (called os s (.moveMouse (s.map.toScreen x y).1 (s.map.toScreen x y).2)) :=
    h.called (by simp)
  dsimp only
  split
  · exact .of_subset rfl (held_subset_press (called os s _)) hmoved.press
  · exact .of_subset rfl (List.Subset.refl _) hmoved

theorem releasable_up_iff (h : Tracked s) (x y : α) :
    Releasable s (after (apply os (.up x y)) s) (.up x y) ↔ Unfailing os s (.up x y) := by
  rw [apply, after_moveTo_bind]
  have hmoved : Tracked (called os s (.moveMouse (s.map.toScreen x y).1 (s.map.toScreen x y).2)) :=
    h.called (by simp)
  cases hok : os.succeeds s.calls.length with
  | false =>
      simp only [Bool.false_eq_true, ↓reduceIte, Unfailing, hok, iff_false]
      intro hrel
      obtain ⟨ok, hmem⟩ := hrel.attempted .left (by simp [covered])
      simp [called] at hmem
  | true =>
      simp only [↓reduceIte, Unfailing, hok, iff_true]
      generalize Call.moveMouse _ _ = call at *
      have hlater : ∀ c, c ∈ (after (release os .left) (called os s call)).calls.drop
          (called os s call).calls.length →
          c ∈ (after (release os .left) (called os s call)).calls.drop s.calls.length := by
        intro c hc
        refine (List.drop_sublist_drop_left _ ?_).subset hc
        simp [called]
      refine ⟨fun b hb => ?_, fun b hb hnot => ?_, hmoved.release⟩
      · obtain rfl : b = .left := by simpa [covered] using hb
        obtain ⟨ok, hmem⟩ := exists_mem_release (called os s call)
        exact ⟨ok, hlater _ hmem⟩
      · exact mem_held_release (s := called os s call) hb fun hmem => hnot (hlater _ hmem)

/-- **One event**: it does for the buttons what it must exactly if no call
fails that the injector does not make up for. -/
theorem releasable_iff (hnodup : s.held.Nodup) (h : Tracked s) (event : InputEvent α) :
    Releasable s (after (apply os event) s) event ↔ Unfailing os s event := by
  cases event with
  | down x y => exact iff_of_true (releasable_down h x y) trivial
  | move x y => exact iff_of_true (.of_quiet rfl h (quiet_moveTo x y)) trivial
  | up x y => exact releasable_up_iff h x y
  | moveRel dx dy => exact iff_of_true (.of_quiet rfl h (quiet_moveRel dx dy)) trivial
  | click b =>
      rw [apply, after_enigo]
      exact iff_of_true (.of_subset rfl (List.Subset.refl _) (h.called (by simp))) trivial
  | press b => exact iff_of_true (.of_subset rfl (held_subset_press s) h.press) trivial
  | release b => exact iff_of_true (releasable_release h) trivial
  | scroll dx dy => exact iff_of_true (.of_quiet rfl h (quiet_scroll dx dy)) trivial
  | text t => exact iff_of_true (.of_quiet rfl h (quiet_enigo (by simp))) trivial
  | key k mods => exact iff_of_true (.of_quiet rfl h (quiet_keyCombo k mods)) trivial
  | reset => exact releasable_reset_iff hnodup h

/-! ## Every run -/

/-- No button is twice in `held`. -/
theorem nodup_apply (h : s.held.Nodup) (event : InputEvent α) :
    (after (apply os event) s).held.Nodup := by
  have hquiet : ∀ {m : Inject α Unit}, Quiet m → (after m s).held.Nodup :=
    fun hm => by rwa [(hm s).1]
  cases event with
  | down x y =>
      rw [apply, after_moveTo_bind]
      dsimp only
      split
      · exact nodup_press (s := called os s _) h
      · exact h
  | move x y => exact hquiet (quiet_moveTo x y)
  | up x y =>
      rw [apply, after_moveTo_bind]
      dsimp only
      split
      · exact nodup_release (s := called os s _) h
      · exact h
  | moveRel dx dy => exact hquiet (quiet_moveRel dx dy)
  | click b => rwa [apply, after_enigo]
  | press b => exact nodup_press h
  | release b => exact nodup_release h
  | scroll dx dy => exact hquiet (quiet_scroll dx dy)
  | text t => exact hquiet (quiet_enigo (by simp))
  | key k mods => exact hquiet (quiet_keyCombo k mods)
  | reset =>
      have hall := @after_releaseAll α os s.held { s with held := [] }
      obtain ⟨-, -, -, hheld, -⟩ := hall
      rw [after_reset, hheld]
      exact List.nodup_nil

/-- **Buttons stay releasable.**  In a run of any events with any pattern of
failing calls, every event does for the buttons what it must exactly if in none
of them a call fails that the injector does not make up for. -/
theorem releasable_along_iff {map : FrameMap α} {events : List (InputEvent α)}
    (h : (machine os).Run (init map) events s) :
    (machine os).Along (init map) events
        (fun s event => Releasable s (after (apply os event) s) event) ↔
      (machine os).Along (init map) events fun s event => Unfailing os s event := by
  refine h.along_iff_along (I := fun s => s.held.Nodup ∧ Tracked s)
    ⟨List.nodup_nil, fun b hb => by simp [init, isDown] at hb⟩ fun s event s' hs hstep => ?_
  obtain rfl := Option.some.inj hstep
  have hiff : Releasable s (after (apply os event) s) event ↔ Unfailing os s event :=
    releasable_iff hs.1 hs.2 event
  exact ⟨hiff, fun hunfailing => ⟨nodup_apply hs.1 event, (hiff.mpr hunfailing).tracked⟩⟩

end

/-! ## Runs on fixed inputs -/

/-- A display of 2 by 2 points in a frame of its size. -/
def smallMap : FrameMap ℚ := letI := Double.exact; FrameMap.new 2 2 2 2

/-- A drag in which every call succeeds keeps its button releasable. -/
theorem releasable_along_drag :
    letI := Double.exact
    (machine ⟨fun _ => true, fun _ => (0, 0)⟩).Along (init smallMap)
      [.down 0 0, .up 1 1, .press .left, .reset]
      fun s event => Releasable s (after (apply ⟨fun _ => true, fun _ => (0, 0)⟩ event) s) event :=
  letI := Double.exact
  have hrun : (machine ⟨fun _ => true, fun _ => (0, 0)⟩).Run (init smallMap)
      [.down 0 0, .up 1 1, .press .left, .reset] _ := rfl
  (releasable_along_iff hrun).mpr fun _ event _ _ _ _ => by cases event <;> simp [Unfailing]

/-- A `Reset` whose release fails forgets the button, which stays down. -/
theorem not_releasable_reset :
    letI := Double.exact
    ¬ ∀ (os : Os) (map : FrameMap ℚ) (events : List (InputEvent ℚ)) (s : State ℚ),
      (machine os).Run (init map) events s →
      (machine os).Along (init map) events
        fun s event => Releasable s (after (apply os event) s) event := by
  let _ := Double.exact
  intro h
  let os : Os := ⟨fun n => n != 1, fun _ => (0, 0)⟩
  have hreset := h os smallMap [.press .left, .reset] _ rfl [.press .left] .reset [] _ rfl rfl
  have hkept := hreset.kept .left (by decide) (by decide)
  revert hkept
  decide

end RemoteBridge.Injector
