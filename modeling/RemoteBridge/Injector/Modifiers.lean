import RemoteBridge.Injector.Calls

/-!
# Injector.Modifiers

A key combination, when calls may fail: it releases every modifier that it got
down, and reports the first call that failed.
-/

namespace RemoteBridge.Injector

variable {α : Type} {os : Os} {s : State α} {k : Key}

/-! ## What the log says of keys -/

/-- What one call makes of a key: down after a press, up after a release or a
click; a call that fails changes nothing. -/
def keyAfter (k : Key) (isDown : Bool) : Call × Bool → Bool
  | (.key k' direction, true) => if k' = k then direction = .press else isDown
  | _ => isDown

/-- Whether a key is down after these calls. -/
def isKeyDown (calls : List (Call × Bool)) (k : Key) : Bool := calls.foldl (keyAfter k) false

theorem isKeyDown_append (calls new : List (Call × Bool)) :
    isKeyDown (calls ++ new) k = new.foldl (keyAfter k) (isKeyDown calls k) :=
  List.foldl_append

/-- Calls that are not for keys leave the keys alone. -/
theorem foldl_keyAfter_of_other {new : List (Call × Bool)} (h : ∀ c ∈ new, ∀ k d, c.1 ≠ .key k d)
    (isDown : Bool) : new.foldl (keyAfter k) isDown = isDown := by
  induction new with
  | nil => rfl
  | cons c new ih =>
      have hc : keyAfter k isDown c = isDown := by
        obtain ⟨call, ok⟩ := c
        cases call with
        | key k' d => exact absurd rfl (h _ List.mem_cons_self k' d)
        | _ => cases ok <;> rfl
      rw [List.foldl_cons, hc]
      exact ih fun c hc => h c (List.mem_cons_of_mem _ hc)

/-- Keys that are pressed are down, the others are as before. -/
theorem foldl_keyAfter_press (ks : List Key) (isDown : Bool) :
    (ks.map fun k' => (Call.key k' .press, true)).foldl (keyAfter k) isDown =
      (decide (k ∈ ks) || isDown) := by
  induction ks generalizing isDown with
  | nil => simp
  | cons k' ks ih =>
      rw [List.map_cons, List.foldl_cons, ih]
      by_cases hk : k' = k
      · simp [keyAfter, hk]
      · simp [keyAfter, hk, Ne.symm hk]

/-- Keys that are released are up, the others are as before. -/
theorem foldl_keyAfter_release (ks : List Key) (isDown : Bool) :
    (ks.map fun k' => (Call.key k' .release, true)).foldl (keyAfter k) isDown =
      (!decide (k ∈ ks) && isDown) := by
  induction ks generalizing isDown with
  | nil => simp
  | cons k' ks ih =>
      rw [List.map_cons, List.foldl_cons, ih]
      by_cases hk : k' = k
      · simp [keyAfter, hk]
      · simp [keyAfter, hk, Ne.symm hk]

/-! ## Calls in a row -/

/-- How the operating system answers calls in a row, the first of them its
`n`-th. -/
def answers (os : Os) (n : Nat) : List Call → List (Call × Bool)
  | [] => []
  | call :: calls => (call, os.succeeds n) :: answers os (n + 1) calls

/-- The first error among answers, the first of them the `n`-th. -/
def firstError (n : Nat) : List (Call × Bool) → Except InputError Unit
  | [] => .ok ()
  | (_, true) :: rest => firstError (n + 1) rest
  | (_, false) :: _ => .error ⟨n⟩

/-- `s` after these calls. -/
def State.logged (s : State α) (new : List (Call × Bool)) : State α :=
  { s with calls := s.calls ++ new }

/-- `Result::and`. -/
def andThen : Except InputError Unit → Except InputError Unit → Except InputError Unit
  | .ok (), result => result
  | .error e, _ => .error e

theorem logged_logged (s : State α) (new new' : List (Call × Bool)) :
    (s.logged new).logged new' = s.logged (new ++ new') := by
  simp [State.logged]

theorem length_logged (s : State α) (new : List (Call × Bool)) :
    (s.logged new).calls.length = s.calls.length + new.length := List.length_append

theorem andThen_assoc (r r' r'' : Except InputError Unit) :
    andThen (andThen r r') r'' = andThen r (andThen r' r'') := by
  cases r <;> rfl

theorem length_answers (n : Nat) (calls : List Call) :
    (answers os n calls).length = calls.length := by
  induction calls generalizing n with
  | nil => rfl
  | cons call calls ih => rw [answers, List.length_cons, ih, List.length_cons]

theorem map_fst_answers (n : Nat) (calls : List Call) :
    (answers os n calls).map Prod.fst = calls := by
  induction calls generalizing n with
  | nil => rfl
  | cons call calls ih => rw [answers, List.map_cons, ih]

theorem answers_append (n : Nat) (calls calls' : List Call) :
    answers os n (calls ++ calls') = answers os n calls ++ answers os (n + calls.length) calls' := by
  induction calls generalizing n with
  | nil => rfl
  | cons call calls ih =>
      rw [List.cons_append, answers, answers, ih, List.cons_append, List.length_cons,
        Nat.add_right_comm, Nat.add_assoc]

theorem firstError_append (n : Nat) (xs ys : List (Call × Bool)) :
    firstError n (xs ++ ys) = andThen (firstError n xs) (firstError (n + xs.length) ys) := by
  induction xs generalizing n with
  | nil => rfl
  | cons x xs ih =>
      obtain ⟨call, ok⟩ := x
      cases ok with
      | false => rfl
      | true =>
          rw [List.cons_append, firstError, ih, firstError, List.length_cons, Nat.add_right_comm,
            Nat.add_assoc]

theorem firstError_eq_ok (n : Nat) (new : List (Call × Bool)) :
    firstError n new = .ok () ↔ ∀ c ∈ new, c.2 := by
  induction new generalizing n with
  | nil => simp [firstError]
  | cons c new ih =>
      obtain ⟨call, ok⟩ := c
      cases ok <;> simp [firstError, ih]

theorem attempt_enigo (call : Call) (s : State α) :
    attempt (enigo os call) s =
      .ok (firstError s.calls.length (answers os s.calls.length [call]))
        (s.logged (answers os s.calls.length [call])) := by
  rw [attempt, enigo_eq]
  cases hok : os.succeeds s.calls.length <;> simp [answers, firstError, State.logged, hok]

/-! ## The three parts of a combination -/

/-- The presses: up to the first failure, which is the last call. -/
theorem pressMods_eq (os : Os) (mods : List Modifier) (s : State α) :
    ∃ pressed rest, mods = pressed ++ rest ∧ ∃ new,
      new = answers os s.calls.length (new.map Prod.fst) ∧
      new = (pressed.map fun m => (Call.key m.toEnigo .press, true)) ++
        (rest.head?.toList.map fun m => (Call.key m.toEnigo .press, false)) ∧
      pressMods os mods s = .ok (pressed, firstError s.calls.length new) (s.logged new) := by
  induction mods generalizing s with
  | nil => exact ⟨[], [], rfl, [], rfl, rfl, by simp [pressMods, State.logged, firstError]; rfl⟩
  | cons m mods ih =>
      rw [pressMods, bind_eq, attempt_enigo]
      cases hok : os.succeeds s.calls.length with
      | false =>
          refine ⟨[], m :: mods, rfl, [(Call.key m.toEnigo .press, false)], ?_, rfl, ?_⟩
          · simp [answers, hok]
          · simp only [answers, hok, firstError]
            rfl
      | true =>
          obtain ⟨pressed, rest, rfl, new, hanswers, hnew, hpress⟩ :=
            ih (s.logged [(Call.key m.toEnigo .press, true)])
          rw [length_logged, List.length_singleton] at hanswers hpress
          refine ⟨m :: pressed, rest, rfl, (Call.key m.toEnigo .press, true) :: new, ?_, ?_, ?_⟩
          · rw [List.map_cons, answers, ← hanswers, hok]
          · rw [List.map_cons, List.cons_append, ← hnew]
          · simp only [answers, hok, firstError]
            rw [bind_eq, hpress]
            dsimp only
            rw [logged_logged]
            rfl

/-- The releases: all of them, keeping the first error. -/
theorem releaseMods_eq (os : Os) (mods : List Modifier) (result : Except InputError Unit) (s : State α) :
    let new := answers os s.calls.length (mods.map fun m => .key m.toEnigo .release)
    releaseMods os result mods s =
      .ok (andThen result (firstError s.calls.length new)) (s.logged new) := by
  induction mods generalizing s result with
  | nil =>
      have hresult : andThen result (.ok ()) = result := by cases result <;> rfl
      simp [releaseMods, answers, firstError, State.logged, hresult]
      rfl
  | cons m mods ih =>
      have hnext := ih (andThen result (firstError s.calls.length
        (answers os s.calls.length [.key m.toEnigo .release])))
        (s.logged (answers os s.calls.length [.key m.toEnigo .release]))
      have hcons : (m :: mods).map (fun m => Call.key m.toEnigo .release) =
          [.key m.toEnigo .release] ++ mods.map fun m => .key m.toEnigo .release := rfl
      dsimp only at hnext ⊢
      rw [length_logged, length_answers, logged_logged, andThen_assoc] at hnext
      rw [hcons, answers_append, firstError_append, length_answers, ← hnext, releaseMods, bind_eq,
        attempt_enigo]
      cases result <;> rfl

/-- The click, if all went well before. -/
theorem clickKey_eq (os : Os) (key : Key) (result : Except InputError Unit) (s : State α) :
    ∃ calls, (calls = match result with | .ok () => [.key key .click] | .error _ => []) ∧
      clickKey os key result s =
        .ok (andThen result (firstError s.calls.length (answers os s.calls.length calls)))
          (s.logged (answers os s.calls.length calls)) := by
  cases result with
  | ok a => exact ⟨[.key key .click], rfl, attempt_enigo _ s⟩
  | error e => exact ⟨[], rfl, by simp [answers, State.logged, andThen, clickKey]; rfl⟩

/-! ## The whole combination -/

/-- The calls of a combination: presses up to the first failure, the click if there
was none, and one release for each modifier that went down, in reverse order. -/
def Combined (key : Key) (mods : List Modifier) (new : List (Call × Bool)) : Prop :=
  ∃ pressed rest middle releases, mods = pressed ++ rest ∧
    new = (pressed.map fun m => (Call.key m.toEnigo .press, true)) ++ (middle ++ releases) ∧
    (match rest with
      | [] => ∃ ok, middle = [(Call.key key .click, ok)]
      | m :: _ => middle = [(Call.key m.toEnigo .press, false)]) ∧
    releases.map Prod.fst = pressed.reverse.map fun m => Call.key m.toEnigo .release

/-- How a step ends that made these calls. -/
def ended (s : State α) (new : List (Call × Bool)) : EStateM.Result InputError (State α) Unit :=
  match firstError s.calls.length new with
  | .ok () => .ok () (s.logged new)
  | .error e => .error e (s.logged new)

/-- Calls that the operating system answered, and more of them. -/
theorem answers_extend {n : Nat} {new : List (Call × Bool)}
    (h : new = answers os n (new.map Prod.fst)) (calls : List Call) :
    new ++ answers os (n + new.length) calls =
      answers os n ((new ++ answers os (n + new.length) calls).map Prod.fst) := by
  rw [List.map_append, map_fst_answers, answers_append, ← h, List.length_map]

/-- Presses, what is made of the click, and the releases together. -/
theorem combined_of_parts {key : Key} {pressed rest : List Modifier} {n k : Nat}
    {presses releases : List (Call × Bool)} {click : List Call}
    (hpresses : presses = (pressed.map fun m => (Call.key m.toEnigo .press, true)) ++
      (rest.head?.toList.map fun m => (Call.key m.toEnigo .press, false)))
    (hclick : click = match firstError n presses with
      | .ok () => [.key key .click]
      | .error _ => [])
    (hreleases : releases.map Prod.fst = pressed.reverse.map fun m => .key m.toEnigo .release) :
    Combined key (pressed ++ rest) (presses ++ answers os k click ++ releases) := by
  cases rest with
  | nil =>
      have hok : firstError n presses = .ok () := by
        rw [firstError_eq_ok, hpresses]
        simp
      rw [hok] at hclick
      refine ⟨pressed, [], answers os k click, releases, rfl, ?_, ⟨os.succeeds k, ?_⟩, hreleases⟩
      · rw [hpresses]
        simp
      · rw [hclick]
        rfl
  | cons m rest =>
      have hfailed : firstError n presses ≠ .ok () := by
        rw [Ne, firstError_eq_ok, hpresses]
        simp
      refine ⟨pressed, m :: rest, [(.key m.toEnigo .press, false)], releases, rfl, ?_, rfl,
        hreleases⟩
      cases hresult : firstError n presses with
      | ok a => exact absurd hresult hfailed
      | error e =>
          rw [hresult] at hclick
          rw [hclick, hpresses]
          simp [answers]

theorem keyCombo_eq (os : Os) (key : Key) (mods : List Modifier) (s : State α) :
    ∃ new, new = answers os s.calls.length (new.map Prod.fst) ∧ Combined key mods new ∧
      keyCombo os key mods s = ended s new := by
  obtain ⟨pressed, rest, rfl, presses, hanswers, hpresses, hpress⟩ := pressMods_eq os mods s
  obtain ⟨click, hclick, heq⟩ :=
    clickKey_eq os key (firstError s.calls.length presses) (s.logged presses)
  have hrelease := releaseMods_eq os pressed.reverse
    (andThen (firstError s.calls.length presses) (firstError (s.logged presses).calls.length
      (answers os (s.logged presses).calls.length click)))
    ((s.logged presses).logged (answers os (s.logged presses).calls.length click))
  rw [length_logged] at heq hrelease
  rw [logged_logged, length_logged, ← firstError_append] at hrelease
  dsimp only at hrelease
  have hall := answers_extend (answers_extend hanswers click)
    (pressed.reverse.map fun m => .key m.toEnigo .release)
  rw [List.length_append, ← Nat.add_assoc] at hall
  generalize hreleases : answers os _ (pressed.reverse.map fun m => _) = releases at hrelease hall
  have hmap : releases.map Prod.fst = pressed.reverse.map fun m => .key m.toEnigo .release := by
    rw [← hreleases, map_fst_answers]
  refine ⟨_, hall, combined_of_parts hpresses hclick hmap, ?_⟩
  generalize answers os (s.calls.length + presses.length) click = middle at *
  have htotal : firstError s.calls.length (presses ++ middle ++ releases) =
      andThen (firstError s.calls.length (presses ++ middle))
        (firstError (s.calls.length + presses.length + middle.length) releases) := by
    rw [firstError_append, List.length_append, Nat.add_assoc]
  rw [keyCombo, bind_eq, hpress]
  dsimp only
  rw [bind_eq, heq]
  dsimp only
  rw [bind_eq, logged_logged, ← firstError_append, hrelease, ended, htotal]
  dsimp only
  rw [logged_logged]
  cases andThen _ _ <;> rfl

/-! ## No modifier stays down -/

/-- The releases of keys among these calls succeeded. -/
def ReleasesSucceed (calls : List (Call × Bool)) : Prop :=
  ∀ c ∈ calls, (∃ k, c.1 = .key k .release) → c.2

/-- Releases that succeeded, by their keys. -/
theorem eq_of_releasesSucceed {releases : List (Call × Bool)} {ks : List Key}
    (h : ReleasesSucceed releases) (hmap : releases.map Prod.fst = ks.map fun k => .key k .release) :
    releases = ks.map fun k => (.key k .release, true) := by
  induction releases generalizing ks with
  | nil =>
      rw [List.map_nil, eq_comm, List.map_eq_nil_iff] at hmap
      rw [hmap, List.map_nil]
  | cons c releases ih =>
      cases ks with
      | nil => contradiction
      | cons k ks =>
          rw [List.map_cons, List.map_cons, List.cons.injEq] at hmap
          have hok : c.2 := h c List.mem_cons_self ⟨k, hmap.1⟩
          rw [List.map_cons, ← ih (fun c hc => h c (List.mem_cons_of_mem _ hc)) hmap.2, ← hmap.1,
            ← hok]

/-- If its releases succeed, a combination leaves no key down that was up. -/
theorem Combined.up {key : Key} {mods : List Modifier} {new : List (Call × Bool)} {isDown : Bool}
    (h : Combined key mods new) (hreleases : ReleasesSucceed new)
    (hdown : new.foldl (keyAfter k) isDown = true) : isDown = true := by
  obtain ⟨pressed, rest, middle, releases, rfl, rfl, hmiddle, hmap⟩ := h
  have hall : releases = (pressed.reverse.map Modifier.toEnigo).map fun k =>
      (.key k .release, true) := by
    refine eq_of_releasesSucceed (fun c hc => hreleases c (by simp [hc])) ?_
    rw [hmap, List.map_map]
    rfl
  have hpresses : (pressed.map fun m => (Call.key m.toEnigo .press, true)) =
      (pressed.map Modifier.toEnigo).map fun k => (.key k .press, true) := by
    rw [List.map_map]
    rfl
  have hquiet (b : Bool) (hb : middle.foldl (keyAfter k) b = true) : b = true := by
    cases rest with
    | nil =>
        obtain ⟨ok, rfl⟩ := hmiddle
        cases ok <;> grind [keyAfter]
    | cons m rest =>
        rw [hmiddle] at hb
        exact hb
  rw [List.foldl_append, List.foldl_append, hall, foldl_keyAfter_release, Bool.and_eq_true] at hdown
  have hbefore := hquiet _ hdown.2
  rw [hpresses, foldl_keyAfter_press, Bool.or_eq_true] at hbefore
  rw [Bool.not_eq_true', decide_eq_false_iff_not, List.map_reverse, List.mem_reverse] at hdown
  exact hbefore.resolve_left fun hmem => hdown.1 (of_decide_eq_true hmem)

theorem calls_keyCombo {key : Key} {new : List (Call × Bool)} {mods : List Modifier}
    (h : keyCombo os key mods s = ended s new) :
    (after (keyCombo os key mods) s).calls = s.calls ++ new := by
  rw [after, h, ended]
  cases firstError s.calls.length new <;> rfl

variable [Double α]

/-- One event leaves no key down that was up, if no release fails. -/
theorem isKeyDown_apply (event : InputEvent α) (h : isKeyDown s.calls k = false)
    (hreleases : ReleasesSucceed (after (apply os event) s).calls) :
    isKeyDown (after (apply os event) s).calls k = false := by
  by_cases hkey : ∃ key mods, event = .key key mods
  · obtain ⟨key, mods, rfl⟩ := hkey
    obtain ⟨new, -, hnew, heq⟩ := keyCombo_eq os key mods s
    rw [apply, calls_keyCombo heq] at hreleases ⊢
    rw [isKeyDown_append, h, Bool.eq_false_iff]
    intro hdown
    exact absurd (hnew.up (fun c hc => hreleases c (List.mem_append_right _ hc)) hdown) (by simp)
  · obtain ⟨new, hcalls, hnew⟩ := calls_apply os event s
    have hother : ∀ c ∈ new, ∀ k d, c.1 ≠ .key k d := by
      intro c hc k d heq
      have hcall := hnew c hc
      rw [heq] at hcall
      cases event with
      | key key mods => exact hkey ⟨key, mods, rfl⟩
      | _ => exact hcall
    rw [hcalls, isKeyDown_append, foldl_keyAfter_of_other hother, h]

/-- Between events all keys are up, as long as no release failed. -/
theorem isKeyDown_of_run {map : FrameMap α} {es : List (InputEvent α)}
    (h : (machine os).Run (init map) es s) (hreleases : ReleasesSucceed s.calls) :
    isKeyDown s.calls k = false := by
  refine h.invariant (I := fun s => ReleasesSucceed s.calls → isKeyDown s.calls k = false)
    (fun _ => rfl) (fun s event s' ih hstep hreleases => ?_) hreleases
  obtain rfl := Option.some.inj hstep
  obtain ⟨new, hcalls, -⟩ := calls_apply os event s
  have hbefore : ReleasesSucceed s.calls := by
    intro c hc
    refine hreleases c ?_
    rw [hcalls]
    exact List.mem_append_left _ hc
  exact isKeyDown_apply event (ih hbefore) hreleases

/-- **Modifiers are never left down**: however its calls fail, a combination
releases every modifier it got down, in reverse order, and ends with the first
error; if its releases succeed no key is down that was up.  So no modifier is down
between events while no release fails. -/
theorem modifiers_released (os : Os) :
    (∀ key mods (s : State α), ∃ new, new = answers os s.calls.length (new.map Prod.fst) ∧
      Combined key mods new ∧ keyCombo os key mods s = ended s new ∧
      (firstError s.calls.length new = .ok () ↔ ∀ c ∈ new, c.2) ∧
      (ReleasesSucceed new → ∀ m : Modifier, isKeyDown s.calls m.toEnigo = false →
        isKeyDown (s.calls ++ new) m.toEnigo = false)) ∧
    ∀ (map : FrameMap α) es s, (machine os).Run (init map) es s → ReleasesSucceed s.calls →
      ∀ m : Modifier, isKeyDown s.calls m.toEnigo = false := by
  refine ⟨fun key mods s => ?_, fun map es s hrun hreleases m => isKeyDown_of_run hrun hreleases⟩
  obtain ⟨new, hanswers, hnew, heq⟩ := keyCombo_eq os key mods s
  refine ⟨new, hanswers, hnew, heq, firstError_eq_ok _ _, fun hreleases m hup => ?_⟩
  rw [isKeyDown_append, hup, Bool.eq_false_iff]
  intro hdown
  exact absurd (hnew.up hreleases hdown) (by simp)

end RemoteBridge.Injector
