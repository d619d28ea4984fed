import RemoteBridge.Trackpad.Centre

/-!
# Trackpad.Cancel

Gestures in which the browser took a finger away.  Whether a gesture ends in a click
is decided at its last lift, from the type of that lift: a finger that was taken away
before is forgotten.
-/

namespace RemoteBridge.Trackpad

variable {α : Type}

/-! ## What a gesture owes -/

def Message.isClick : Message α → Bool
  | .click _ => true
  | _ => false

/-- The clicks among messages. -/
def clicks (ms : List (Message α)) : List (Message α) := ms.filter (·.isClick)

/-- The click a gesture owes, if it does. -/
def owed (owes : Bool) : List (Message α) := if owes then [leftClick] else []

/-- From `s` to `s'` no click was sent but the one still owed for the tap before, at
most once, and none is held back. -/
def OwedOnly (s s' : State α) : Prop :=
  (∃ out, s'.sent = s.sent ++ out ∧ (clicks out).Sublist (owed s.heldClick.isSome)) ∧
    s'.heldClick = none

/-- The clicks sent since `s` and the one the gesture still owes are what was owed
in `s`. -/
def Settles (owes : Bool) (s₀ s : State α) : Prop :=
  ∃ out, s.sent = s₀.sent ++ out ∧
    (clicks out ++ owed (s.gesture.any Gesture.owesClick)).Sublist (owed owes)

theorem clicks_append (xs ys : List (Message α)) : clicks (xs ++ ys) = clicks xs ++ clicks ys :=
  List.filter_append _ _

theorem clicks_land (g : Gesture α) (touches : Touches α) :
    clicks (g.land touches).2 ++ owed (g.land touches).1.owesClick = owed g.owesClick := by
  unfold Gesture.land Gesture.secondFinger
  split
  · cases g.owesClick <;> cases g.dragging <;> rfl
  · rfl

variable [Double α] {s₀ s s' : State α} {g : Gesture α} {event : PointerEvent α} {type : LiftType}
  {owes : Bool}

theorem clicks_track (last centre : Point α) (frame : Option (Frame α)) :
    (clicks (g.track last centre frame).2 ++ owed (g.track last centre frame).1.owesClick).Sublist
      (owed g.owesClick) := by
  unfold Gesture.track
  dsimp only
  split
  · exact .refl _
  · cases frame with
    | none => exact .refl _
    | some f =>
        dsimp only
        split
        · exact .refl _
        · unfold Gesture.startDrag
          dsimp only
          split
          · exact List.nil_sublist _
          · exact .refl _

/-- Steps during a gesture keep it settled. -/
theorem Step.settles {e : Event α} (hstep : Step s e s') (h : Settles owes s₀ s)
    (hs : s.gesture.isSome) (hs' : s'.gesture.isSome) : Settles owes s₀ s' := by
  obtain ⟨out, hout, hsub⟩ := h
  have hsame (hsent : s'.sent = s.sent)
      (howes : s'.gesture.any Gesture.owesClick = s.gesture.any Gesture.owesClick) :
      Settles owes s₀ s' :=
    ⟨out, hsent.trans hout, howes ▸ hsub⟩
  cases hstep with
  | first event htouches hgesture =>
      rw [hgesture] at hs
      contradiction
  | next event g hg =>
      refine ⟨out ++ _, by rw [hout, List.append_assoc], ?_⟩
      rw [hg.gesture] at hsub
      rw [clicks_append, List.append_assoc, Option.any_some, clicks_land]
      exact hsub
  | moved event frame g last hg =>
      refine ⟨out ++ _, by rw [hout, List.append_assoc], ?_⟩
      rw [hg.gesture] at hsub
      rw [clicks_append, List.append_assoc]
      exact ((List.Sublist.refl _).append (clicks_track _ _ _)).trans hsub
  | strayMove => exact hsame rfl rfl
  | lifted event type g hg => exact hsame rfl (by rw [hg.gesture]; rfl)
  | ended event type g hg =>
      rw [gesture_finish] at hs'
      contradiction
  | strayUp => exact hsame rfl rfl
  | fired id htouches hgesture =>
      rw [hgesture] at hs
      contradiction

/-! ## Gestures whose fingers were taken away -/

/-- A lift by which the browser takes a finger that is down. -/
def Cancels (s : State α) (e : Event α) : Prop :=
  ∃ event, e = .up event .pointercancel ∧ s.touches.has event.pointerId

instance decidableCancels (s : State α) : ∀ e, Decidable (Cancels s e)
  | .up event .pointercancel => decidable_of_iff (s.touches.has event.pointerId) (by simp [Cancels])
  | .up _ .pointerup => isFalse (by simp [Cancels])
  | .down _ => isFalse (by simp [Cancels])
  | .move _ _ => isFalse (by simp [Cancels])
  | .fire _ => isFalse (by simp [Cancels])

/-- A whole gesture, from the touch `first` in `s₀` over `rest` to the last lift in
`s₂`. -/
structure Whole (s₀ s₁ s₂ s₃ : State α) (first : PointerEvent α) (rest : List (Event α))
    (last : PointerEvent α) (type : LiftType) : Prop where
  idle : s₀.touches = []
  down : machine.step s₀ (.down first) = some s₁
  run : machine.Run s₁ rest s₂
  during : machine.Throughout s₁ rest fun s => s.gesture.isSome
  up : machine.step s₂ (.up last type) = some s₃
  ended : s₃.gesture = none

/-- After its first touch a gesture owes what was held back. -/
theorem settles_first (htouches : s₀.touches = [])
    (hstep : Step s₀ (.down event) s) : Settles s₀.heldClick.isSome s₀ s := by
  cases hstep with
  | first event => exact ⟨[], (List.append_nil _).symm, List.Sublist.refl _⟩
  | next event g hg => exact absurd htouches hg.touches

/-- Over a gesture in progress. -/
theorem settles_of_run {es : List (Event α)} (hrun : machine.Run s es s')
    (hduring : machine.Throughout s es fun s => s.gesture.isSome) (hinv : Inv s)
    (h : Settles owes s₀ s) : Inv s' ∧ Settles owes s₀ s' := by
  refine hrun.rec_throughout hduring (P := fun _ s' => Inv s' ∧ Settles owes s₀ s') ⟨hinv, h⟩ ?_
  intro es e t t' _ hbefore hafter ⟨hinv', hsettles⟩ hstep
  have hstep' := step_of_eq hinv' hstep
  exact ⟨hstep'.inv hinv', hstep'.settles hsettles hbefore hafter⟩

omit [Double α] in
/-- A finger that is lifted while another stays was one of two at least. -/
theorem two_le_length {touches : Touches α} {id : Int} (hhas : touches.has id)
    (hmore : touches.delete id ≠ []) : 2 ≤ touches.length := by
  by_contra hlen
  match touches, hhas, hmore, hlen with
  | [], hhas, _, _ => exact absurd hhas (by simp [Touches.has])
  | [t], hhas, hmore, _ =>
      have hid : t.1 = id := by simpa [Touches.has] using hhas
      exact hmore (by simp [Touches.delete, hid])
  | t :: t' :: touches, _, _, hlen => exact hlen (by simp)

/-- A finger that was taken away without ending the gesture was one of two. -/
theorem fingers_of_cancels {es : List (Event α)} (hinv : Inv s) (hcentred : Centred s)
    (hrun : machine.Run s es s') (hduring : machine.Throughout s es fun s => s.gesture.isSome)
    (hcancels : machine.Occurs s es Cancels) : ∀ g, s'.gesture = some g → g.fingers = 2 := by
  obtain ⟨es₁, e, es₂, t, rfl, ht, event, rfl, hhas⟩ := hcancels
  obtain ⟨t₀, ht₀, hrest⟩ := Machine.run_append.mp hrun
  obtain rfl := ht.unique ht₀
  obtain ⟨t', hstep, hafter⟩ := Machine.run_cons.mp hrest
  obtain ⟨hinv', hcentred'⟩ := ht.invariant (I := fun s => Inv s ∧ Centred s) ⟨hinv, hcentred⟩
    fun s e s' hs hstep => ⟨(step_of_eq hs.1 hstep).inv hs.1, (step_of_eq hs.1 hstep).centred hs.2⟩
  have hstep' := step_of_eq hinv' hstep
  have hsplit : es₁ ++ .up event .pointercancel :: es₂ =
      (es₁ ++ [.up event .pointercancel]) ++ es₂ := by simp
  have hbefore : machine.Run s (es₁ ++ [.up event .pointercancel]) t' :=
    Machine.run_snoc.mpr ⟨t, ht, hstep⟩
  have hsome := hduring _ _ t' hsplit hbefore
  have hduring' : machine.Throughout t' es₂ fun s => s.gesture.isSome :=
    Machine.Throughout.right (hsplit ▸ hduring) hbefore
  have htwo : ∀ g, t'.gesture = some g → g.fingers = 2 := by
    cases hstep' with
    | lifted _ _ g hg _ hmore =>
        intro g' hg'
        obtain rfl := Option.some.inj hg'
        exact (hcentred'.tracked g hg.gesture).fingers (two_le_length hhas hmore)
    | ended _ _ g hg =>
        rw [gesture_finish] at hsome
        contradiction
    | strayUp _ _ hnot => exact absurd hhas hnot
  exact (two_of_run hafter hduring' (hstep'.inv hinv') htwo).1.2

/-- A gesture that goes on keeps the time it started at. -/
theorem Step.startedAt {e : Event α} {g' : Gesture α} (hstep : Step s e s')
    (hg : s.gesture = some g) (hg' : s'.gesture = some g') : g'.startedAt = g.startedAt := by
  cases hstep with
  | first event htouches hgesture =>
      rw [hgesture] at hg
      contradiction
  | next event g₀ hg₀ =>
      obtain rfl : g₀ = g := Option.some.inj (hg₀.gesture.symm.trans hg)
      obtain rfl := Option.some.inj hg'
      grind [Gesture.land, Gesture.secondFinger]
  | moved event frame g₀ last hg₀ =>
      obtain rfl : g₀ = g := Option.some.inj (hg₀.gesture.symm.trans hg)
      obtain rfl := Option.some.inj hg'
      grind [Gesture.track, Gesture.startDrag]
  | strayMove | strayUp => rw [Option.some.inj (hg.symm.trans hg')]
  | lifted event type g₀ hg₀ =>
      obtain rfl : g₀ = g := Option.some.inj (hg₀.gesture.symm.trans hg)
      obtain rfl := Option.some.inj hg'
      rfl
  | ended =>
      rw [gesture_finish] at hg'
      contradiction
  | fired id htouches hgesture =>
      rw [hgesture] at hg
      contradiction

/-- **The record of a whole gesture is what its events show**: it started with its first
touch, and it has moved if an observer saw its way reach the slop. -/
theorem record_of_whole {es : List (Event α)} {s₁ s₂ s₃ : State α} {first last : PointerEvent α}
    {rest : List (Event α)} (hrun : machine.Run init es s₀)
    (hwhole : Whole s₀ s₁ s₂ s₃ first rest last type) (hg : s₂.gesture = some g) :
    g.startedAt = first.timeStamp ∧ g.moved = !(watch (es ++ .down first :: rest)).still := by
  have hfirst := step_of_eq (inv_of_run hrun) hwhole.down
  have hstarted : Inv s₂ ∧ ∀ g, s₂.gesture = some g → g.startedAt = first.timeStamp := by
    refine hwhole.run.rec_throughout hwhole.during
      (P := fun _ s => Inv s ∧ ∀ g, s.gesture = some g → g.startedAt = first.timeStamp) ?_ ?_
    · refine ⟨hfirst.inv (inv_of_run hrun), fun g hg => ?_⟩
      cases hfirst with
      | first =>
          obtain rfl := Option.some.inj hg
          rfl
      | next _ _ hg₀ => exact absurd hwhole.idle hg₀.touches
    · intro es e s s' _ hbefore _ ⟨hinv, hstarted⟩ hstep
      have hstep' := step_of_eq hinv hstep
      obtain ⟨g, hg⟩ := Option.isSome_iff_exists.mp hbefore
      exact ⟨hstep'.inv hinv, fun g' hg' => (hstep'.startedAt hg hg').trans (hstarted g hg)⟩
  have hwatched := watched_of_run
    (Machine.run_append.mpr ⟨s₀, hrun, Machine.run_cons.mpr ⟨s₁, hwhole.down, hwhole.run⟩⟩)
  refine ⟨hstarted.2 g hg, ?_⟩
  rw [(hwatched.seen g hg).still, Bool.not_not]

/-- The clicks that are sent at the end of a gesture. -/
theorem clicks_ending (event : PointerEvent α) (hfingers : type = .pointerup → g.fingers = 2) :
    clicks (g.ending event type) = (if g.dragging then [] else owed g.owesClick) ++
      if g.clicks event type then [.click .right] else [] := by
  unfold Gesture.ending owed
  cases hclicks : g.clicks event type with
  | false => cases g.dragging <;> cases g.owesClick <;> rfl
  | true =>
      have hall : ((g.dragging = false ∧ type = .pointerup) ∧ g.moved = false) ∧
          Double.lt tapMaxMs (event.timeStamp - g.startedAt) = false := by
        simpa [Gesture.clicks] using hclicks
      rw [hall.1.1.1, if_pos rfl, if_pos (hfingers hall.1.1.2)]
      cases g.owesClick <;> rfl

/-- How a gesture ends that was settled so far. -/
theorem owedOnly_iff (hs : Touching s g) (hsettles : Settles s₀.heldClick.isSome s₀ s)
    (hfingers : type = .pointerup → g.fingers = 2) :
    OwedOnly s₀ (({ s with touches := [], gesture := none } : State α).finish event type g) ↔
      g.clicks event type = false := by
  obtain ⟨out, hout, hsub⟩ := hsettles
  rw [hs.gesture, Option.any_some] at hsub
  have hclicks := clicks_ending event hfingers
  have hheld := heldClick_finish (s := { s with touches := [], gesture := none }) g event type
    hs.heldClick
  have hsent : (({ s with touches := [], gesture := none } : State α).finish event type g).sent =
      s₀.sent ++ (out ++ g.ending event type) := by
    rw [sent_finish, hout, List.append_assoc]
  constructor
  · rintro ⟨⟨out', hout', hsub'⟩, -⟩
    rw [hsent, List.append_cancel_left_eq] at hout'
    rw [← hout', clicks_append, hclicks] at hsub'
    cases hc : g.clicks event type with
    | false => rfl
    | true =>
        rw [hc, if_pos rfl] at hsub'
        have hmem : (.click .right : Message α) ∈ owed s₀.heldClick.isSome :=
          hsub'.subset (by simp)
        cases s₀.heldClick.isSome <;> simp [owed, leftClick] at hmem
  · intro hc
    refine ⟨⟨_, hsent, ?_⟩, ?_⟩
    · rw [clicks_append, hclicks, hc, if_neg Bool.false_ne_true, List.append_nil]
      cases g.dragging with
      | true => exact ((List.Sublist.refl _).append (List.nil_sublist _)).trans hsub
      | false => exact hsub
    · rw [← Option.not_isSome_iff_eq_none, hheld, hc]
      simp

/-- **A gesture with a finger that the browser took away** causes no click of its own,
and none that is held back, exactly if its last finger was taken away as well, or it
has moved, or it was held too long for a tap. -/
theorem owedOnly_cancelled_iff {es : List (Event α)} {s₁ s₂ s₃ : State α}
    {first last : PointerEvent α} {rest : List (Event α)} (hrun : machine.Run init es s₀)
    (hwhole : Whole s₀ s₁ s₂ s₃ first rest last type) (hg : s₂.gesture = some g)
    (hcancels : machine.Occurs s₁ (rest ++ [.up last type]) Cancels) :
    OwedOnly s₀ s₃ ↔
      type = .pointercancel ∨ g.moved ∨ Double.lt tapMaxMs (last.timeStamp - g.startedAt) := by
  have hfirst := step_of_eq (inv_of_run hrun) hwhole.down
  have hinv₁ := hfirst.inv (inv_of_run hrun)
  have hcentred₁ := hfirst.centred (centred_of_run hrun)
  obtain ⟨hinv₂, hsettles⟩ :=
    settles_of_run hwhole.run hwhole.during hinv₁ (settles_first hwhole.idle hfirst)
  -- Of two fingers, if the one taken away was not the last.
  have hfingers : type = .pointerup → g.fingers = 2 := by
    rintro rfl
    rw [Machine.occurs_snoc hwhole.run] at hcancels
    obtain hcancels | ⟨event, hevent, -⟩ := hcancels
    · exact fingers_of_cancels hinv₁ hcentred₁ hwhole.run hwhole.during hcancels g hg
    · simp at hevent
  have hup := step_of_eq hinv₂ hwhole.up
  have hover := hwhole.ended
  cases hup with
  | lifted => simp at hover
  | strayUp => simp [hover] at hg
  | ended event type g' hg' =>
      obtain rfl : g' = g := by simpa [hg'.gesture] using hg
      rw [owedOnly_iff hg' hsettles hfingers]
      cases type with
      | pointercancel => simp [Gesture.clicks]
      | pointerup =>
          have hdrag : g'.dragging = false := by
            by_contra hdrag
            have := (hg'.ok.drag (by simpa using hdrag)).1
            have := hfingers rfl
            omega
          simp [Gesture.clicks, hdrag, or_iff_not_imp_left]

/-- A whole gesture exists if executing it says so. -/
theorem exists_whole (es : List (Event α)) (first : PointerEvent α) (rest : List (Event α))
    (last : PointerEvent α) (type : LiftType) (p : State α → Gesture α → State α → Bool)
    (h : (machine.exec init es).any fun s₀ => s₀.touches.isEmpty &&
      (machine.step s₀ (.down first)).any fun s₁ =>
        (decide (machine.Throughout s₁ rest fun s => s.gesture.isSome) &&
          decide (machine.Occurs s₁ (rest ++ [.up last type]) Cancels)) &&
        (machine.exec s₁ rest).any fun s₂ => s₂.gesture.any fun g =>
          (machine.step s₂ (.up last type)).any fun s₃ => s₃.gesture.isNone && p s₀ g s₃) :
    ∃ s₀ s₁ s₂ s₃ g, machine.Run init es s₀ ∧ Whole s₀ s₁ s₂ s₃ first rest last type ∧
      s₂.gesture = some g ∧ machine.Occurs s₁ (rest ++ [.up last type]) Cancels ∧
      p s₀ g s₃ := by
  simp only [Option.any_eq_true, Bool.and_eq_true, decide_eq_true_iff, List.isEmpty_iff,
    Option.isNone_iff_eq_none] at h
  obtain ⟨s₀, hes, htouches, s₁, hdown, ⟨hduring, hcancels⟩, s₂, hrest, g, hg, s₃, hup, hover,
    hp⟩ := h
  exact ⟨s₀, s₁, s₂, s₃, g, hes, ⟨htouches, hdown, hrest, hduring, hup, hover⟩, hg, hcancels, hp⟩

/-- After a tap two fingers land, and the last of them is taken away: the tap's click
is all that is sent. -/
theorem owedOnly_cancelled_last :
    letI := Double.exact
    ∃ (s₀ s₁ s₂ s₃ : State ℚ) (first last : PointerEvent ℚ) (rest : List (Event ℚ)),
      Whole s₀ s₁ s₂ s₃ first rest last .pointercancel ∧ s₀.heldClick.isSome ∧
      s₃.sent = [leftClick] ∧ OwedOnly s₀ s₃ := by
  let _ := Double.exact
  obtain ⟨s₀, s₁, s₂, s₃, g, hes, hwhole, hg, hcancels, hsent⟩ := exists_whole (α := ℚ)
    [.down ⟨1, 50, 50, 1000⟩, .up ⟨1, 50, 50, 1050⟩ .pointerup] ⟨2, 50, 50, 1100⟩
    [.down ⟨3, 90, 50, 1110⟩, .up ⟨2, 50, 50, 1120⟩ .pointerup] ⟨3, 90, 50, 1130⟩ .pointercancel
    (fun s₀ _ s₃ => s₀.heldClick.isSome && decide (s₃.sent = [leftClick])) (by decide +kernel)
  rw [Bool.and_eq_true, decide_eq_true_iff] at hsent
  exact ⟨s₀, s₁, s₂, s₃, _, _, _, hwhole, hsent.1, hsent.2,
    (owedOnly_cancelled_iff hes hwhole hg hcancels).mpr (.inl rfl)⟩

/-- The browser takes one of two fingers away, the other is lifted: a right click. -/
theorem cancelled_right_click :
    letI := Double.exact
    ∃ (es : List (Event ℚ)) (s₀ s₁ s₂ s₃ : State ℚ) (first last : PointerEvent ℚ)
      (rest : List (Event ℚ)), machine.Run init es s₀ ∧
      Whole s₀ s₁ s₂ s₃ first rest last .pointerup ∧
      machine.Occurs s₁ (rest ++ [.up last .pointerup]) Cancels ∧
      s₀.heldClick = none ∧ s₀.sent = [] ∧ s₃.sent = [.click .right] ∧ ¬ OwedOnly s₀ s₃ := by
  let _ := Double.exact
  obtain ⟨s₀, s₁, s₂, s₃, g, hes, hwhole, hg, hcancels, hend⟩ := exists_whole (α := ℚ) []
    ⟨1, 50, 50, 0⟩ [.down ⟨2, 90, 50, 10⟩, .up ⟨1, 50, 50, 50⟩ .pointercancel]
    ⟨2, 90, 50, 100⟩ .pointerup
    (fun s₀ _ s₃ => decide (s₀.heldClick = none ∧ s₀.sent = [] ∧ s₃.sent = [.click .right]))
    (by decide +kernel)
  obtain ⟨hheld, hsent, hclick⟩ := of_decide_eq_true hend
  refine ⟨[], s₀, s₁, s₂, s₃, _, _, _, hes, hwhole, hcancels, hheld, hsent, hclick, ?_⟩
  rintro ⟨⟨out, hout, hsub⟩, -⟩
  rw [hclick, hsent, List.nil_append] at hout
  rw [← hout, hheld] at hsub
  exact absurd (List.sublist_nil.mp hsub) (by decide)

end RemoteBridge.Trackpad
