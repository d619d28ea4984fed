import RemoteBridge.Binary64
import RemoteBridge.Machine
import RemoteBridge.Mouse

/-!
# Mouse.Presses

What the mouse sends over a whole run of pointer events: presses, each with its
movements and its release.  Positions are double-precision numbers, so they can be NaN,
as they are in an element without a size.
-/

namespace RemoteBridge.Mouse

variable {α : Type}

/-- The variable `createMouse` closes over, and what was sent so far. -/
structure State (α : Type) where
  down : Bool
  sent : List (Message α)

/-- A mouse as created. -/
def init : State α := ⟨false, []⟩

/-- A pointer event, with its position if the video has a size. -/
abbrev Event (α : Type) := PointerEvent × Option (Position α)

def State.after [Number α] (s : State α) (e : Event α) : State α :=
  let handled := handle s.down e.1 e.2
  ⟨handled.down, s.sent ++ handled.sent⟩

/-- `handle` is called with any events, in any order. -/
def machine [Number α] : Machine (State α) (Event α) where
  step s e := some (s.after e)

/-! ## Presses -/

/-- One message, with or without a press outstanding: whether one is after it. -/
def follow : Bool → Message α → Option Bool
  | false, ⟨.down, _, _⟩ => some true
  | true, ⟨.move, _, _⟩ => some true
  | true, ⟨.up, _, _⟩ => some false
  | _, _ => none

/-- Whether a press is outstanding after these messages, `none` unless they are presses,
each with its movements and its release. -/
def outstanding (sent : List (Message α)) : Option Bool := sent.foldlM follow false

theorem outstanding_append {sent out : List (Message α)} {b : Bool}
    (h : outstanding sent = some b) : outstanding (sent ++ out) = out.foldlM follow b := by
  rw [outstanding, List.foldlM_append]
  rw [outstanding] at h
  rw [h]
  rfl

/-- The events that end a press. -/
def PointerEvent.ends : PointerEvent → Bool
  | .pointerup | .pointercancel => true
  | _ => false

/-! ## On the numbers of the page -/

open Binary64 (number)

variable {hypot : Binary64 → Binary64 → Binary64} {s s' : State Binary64} {e : Event Binary64}
  {p : Position Binary64} {type : MessageType}

/-- `createMouse` on the numbers of the page.  It asks for no lengths, so any function
can stand for `Math.hypot`. -/
def pageMachine (hypot : Binary64 → Binary64 → Binary64) :
    Machine (State Binary64) (Event Binary64) :=
  letI := number hypot
  machine

/-- What an event leaves there. -/
def State.handled (s : State Binary64) (hypot : Binary64 → Binary64 → Binary64)
    (e : Event Binary64) : State Binary64 :=
  letI := number hypot
  s.after e

/-- The message with a position. -/
def message (hypot : Binary64 → Binary64 → Binary64) (type : MessageType)
    (p : Position Binary64) : Message Binary64 :=
  letI := number hypot
  positionMessage type p

/-- A number from 0 to 1. -/
def IsFraction : Binary64 → Prop
  | .finite x _ => 0 ≤ x ∧ x ≤ 1
  | _ => False

/-- Neither coordinate is NaN. -/
def Position.Numeric (p : Position Binary64) : Prop := p.x ≠ .nan ∧ p.y ≠ .nan

/-- Both coordinates of a message are from 0 to 1. -/
def Message.Fractions (m : Message Binary64) : Prop := IsFraction m.x ∧ IsFraction m.y

theorem clamp01_isFraction_iff {x : Binary64} :
    letI := number hypot
    IsFraction (clamp01 x) ↔ x ≠ .nan := by
  change IsFraction ((x.max (Binary64.ofInt 0)).min (Binary64.ofInt 1)) ↔ x ≠ .nan
  rw [Binary64.ofInt_eq (by decide), Binary64.ofInt_eq (by decide)]
  have hone : ¬ (1 : ℚ) < 0 := by norm_num
  cases x with
  | nan => simp [Binary64.max, Binary64.min, IsFraction]
  | infinite negative =>
      cases negative <;> simp [Binary64.max, Binary64.min, Binary64.lt, IsFraction, hone]
  | finite x h =>
      refine iff_of_true ?_ (by simp)
      by_cases hlo : x < 0
      · simp [Binary64.max, Binary64.min, Binary64.lt, IsFraction, hlo, hone]
      · by_cases hhi : 1 < x
        · simp [Binary64.max, Binary64.min, Binary64.lt, IsFraction, hlo, hhi]
        · simp [Binary64.max, Binary64.min, Binary64.lt, IsFraction, hlo, hhi, not_lt.mp hlo,
            not_lt.mp hhi]

theorem fractions_message : (message hypot type p).Fractions ↔ p.Numeric :=
  and_congr clamp01_isFraction_iff clamp01_isFraction_iff

/-! ## One event -/

/-- What an event is to do: the messages so far are presses with their movements and
releases, an event that ends a press sends its release and leaves none outstanding, and
every coordinate is from 0 to 1. -/
structure Paired (hypot : Binary64 → Binary64 → Binary64) (s : State Binary64)
    (e : Event Binary64) : Prop where
  form : (outstanding (s.handled hypot e).sent).isSome
  ended : e.1.ends → outstanding (s.handled hypot e).sent = some false
  released : ∃ out, (s.handled hypot e).sent = s.sent ++ out ∧
    ((∃ m ∈ out, m.type = .up) ↔ e.1.ends ∧ outstanding s.sent = some true)
  fractions : ∀ m ∈ (s.handled hypot e).sent, m.Fractions

/-- A press that counts: of the left button, in the picture. -/
def Position.inside (p : Position Binary64) (hypot : Binary64 → Binary64 → Binary64) : Bool :=
  letI := number hypot
  !p.outside

/-- An event that `handle` is made for: no press while one is outstanding, a position
where a press ends, and no NaN in a position that is sent. -/
def Expected (hypot : Binary64 → Binary64 → Binary64) (s : State Binary64) :
    Event Binary64 → Prop
  | (.pointerdown button, pos) =>
      button = 0 → ∀ p ∈ pos, p.inside hypot → s.down = false ∧ p.Numeric
  | (.pointermove, pos) => s.down → ∀ p ∈ pos, p.Numeric
  | (.pointerup, pos) | (.pointercancel, pos) => s.down → ∃ p ∈ pos, p.Numeric

instance : Decidable p.Numeric := inferInstanceAs (Decidable (_ ∧ _))

instance decidableExpected : ∀ e, Decidable (Expected hypot s e)
  | (.pointerdown _, _) => inferInstanceAs (Decidable (_ → ∀ _ ∈ _, _ → _ ∧ _))
  | (.pointermove, _) => inferInstanceAs (Decidable (_ → ∀ _ ∈ _, _))
  | (.pointerup, _) | (.pointercancel, _) => inferInstanceAs (Decidable (_ → ∃ _ ∈ _, _))

/-- Between two events: the flag says whether a press is outstanding. -/
structure Inv (s : State Binary64) : Prop where
  presses : outstanding s.sent = some s.down
  fractions : ∀ m ∈ s.sent, m.Fractions

theorem inv_init : Inv init := ⟨rfl, by simp [init]⟩

/-- An event that changes nothing. -/
theorem Inv.quiet (h : Inv s) (hsame : s.handled hypot e = s) (hends : e.1.ends → s.down = false) :
    Paired hypot s e ∧ Inv (s.handled hypot e) := by
  rw [hsame]
  refine ⟨?_, h⟩
  constructor
  · rw [hsame, h.presses, Option.isSome_some]
  · rw [hsame, h.presses]
    exact fun hends' => congrArg some (hends hends')
  · refine ⟨[], by rw [hsame, List.append_nil], iff_of_false (by simp) ?_⟩
    rintro ⟨hends', hdown⟩
    rw [h.presses, hends hends'] at hdown
    contradiction
  · rw [hsame]
    exact h.fractions

/-- An event that sends one message, which may follow what was sent. -/
theorem Inv.sends (h : Inv s) {down : Bool}
    (hsent : s.handled hypot e = ⟨down, s.sent ++ [message hypot type p]⟩)
    (hfollow : follow s.down (message hypot type p) = some down) (hup : type = .up ↔ e.1.ends) :
    (Paired hypot s e ↔ p.Numeric) ∧ (p.Numeric → Inv (s.handled hypot e)) := by
  have hout : outstanding (s.sent ++ [message hypot type p]) = some down := by
    rw [outstanding_append h.presses, List.foldlM_cons, hfollow]
    rfl
  -- A release is sent only where a press is outstanding.
  have hrelease : type = .up → s.down = true ∧ down = false := by
    rintro rfl
    cases hdown : s.down <;> rw [hdown] at hfollow <;> simp_all [follow, message, positionMessage]
  have hfractions : (∀ m ∈ s.sent ++ [message hypot type p], m.Fractions) ↔ p.Numeric := by
    rw [List.forall_mem_append, List.forall_mem_singleton, fractions_message]
    exact and_iff_right h.fractions
  rw [hsent]
  refine ⟨⟨fun hpaired => ?_, fun hp => ⟨?_, ?_, ?_, ?_⟩⟩, fun hp => ⟨hout, hfractions.mpr hp⟩⟩
  · have hall := hpaired.fractions
    rw [hsent] at hall
    exact hfractions.mp hall
  · rw [hsent, hout, Option.isSome_some]
  · intro hends
    rw [hsent, hout, (hrelease (hup.mpr hends)).2]
  · refine ⟨_, congrArg State.sent hsent, ?_⟩
    rw [← hup, h.presses]
    constructor
    · rintro ⟨m, hm, htype⟩
      obtain rfl := List.mem_singleton.mp hm
      exact ⟨htype, congrArg some (hrelease htype).1⟩
    · intro htype
      exact ⟨_, List.mem_singleton_self _, htype.1⟩
  · rw [hsent]
    exact hfractions.mpr hp

/-- What the end of a press does. -/
theorem handled_ends (s : State Binary64) (hypot : Binary64 → Binary64 → Binary64)
    (he : e.1.ends) : s.handled hypot e =
    if s.down then ⟨false, s.sent ++ (e.2.map (message hypot .up)).toList⟩ else s := by
  obtain ⟨event, pos⟩ := e
  obtain ⟨down, sent⟩ := s
  cases event with
  | pointerdown => contradiction
  | pointermove => contradiction
  | pointerup => cases down with
    | true => rfl
    | false => simp [State.handled, State.after, handle]
  | pointercancel => cases down with
    | true => rfl
    | false => simp [State.handled, State.after, handle]

/-- What a movement does. -/
theorem handled_pointermove (s : State Binary64)
    (hypot : Binary64 → Binary64 → Binary64) (pos : Option (Position Binary64)) :
    s.handled hypot (.pointermove, pos) =
      if s.down then ⟨true, s.sent ++ (pos.map (message hypot .move)).toList⟩ else s := by
  obtain ⟨down, sent⟩ := s
  cases down with
  | true => rfl
  | false => simp [State.handled, State.after, handle]

/-- What a press does that does not count. -/
theorem handled_pointerdown_not {button : Int} {pos : Option (Position Binary64)}
    (h : button = 0 → ∀ p ∈ pos, p.inside hypot = false) :
    s.handled hypot (.pointerdown button, pos) = s := by
  have hhandle :
      letI := number hypot
      handle s.down (.pointerdown button) pos = ⟨s.down, [], false⟩ := by
    by_cases hbutton : button = 0
    · cases pos with
      | none => simp [handle]
      | some p =>
          have houtside :
              letI := number hypot
              p.outside = true := by
            simpa [Position.inside] using h hbutton p rfl
          simp only [handle, houtside, if_true, ite_self]
    · exact if_pos hbutton
  simp only [State.handled, State.after, hhandle, List.append_nil]

/-- What one does that counts. -/
theorem handled_pointerdown (h : p.inside hypot) :
    s.handled hypot (.pointerdown 0, some p) = ⟨true, s.sent ++ [message hypot .down p]⟩ := by
  have houtside :
      letI := number hypot
      p.outside = false := by
    simpa [Position.inside] using h
  have hhandle :
      letI := number hypot
      handle s.down (.pointerdown 0) (some p) = ⟨true, [message hypot .down p], true⟩ := by
    simp only [handle, houtside]
    rfl
  simp only [State.handled, State.after, hhandle]

/-- An event that changes nothing, as it is to. -/
theorem Inv.paired_quiet (h : Inv s) (hsame : s.handled hypot e = s)
    (hends : e.1.ends → s.down = false) (hexpected : Expected hypot s e) :
    (Paired hypot s e ↔ Expected hypot s e) ∧ (Expected hypot s e → Inv (s.handled hypot e)) := by
  obtain ⟨hpaired, hinv⟩ := h.quiet hsame hends
  exact ⟨iff_of_true hpaired hexpected, fun _ => hinv⟩

/-- The end of a press is to have a position. -/
theorem Inv.paired_ends (h : Inv s) (he : e.1.ends)
    (hexpected : Expected hypot s e ↔ (s.down → ∃ p ∈ e.2, p.Numeric)) :
    (Paired hypot s e ↔ Expected hypot s e) ∧ (Expected hypot s e → Inv (s.handled hypot e)) := by
  have hhandled := handled_ends s hypot he
  cases hdown : s.down with
  | false =>
      rw [hdown, if_neg Bool.false_ne_true] at hhandled
      exact h.paired_quiet hhandled (fun _ => hdown) (hexpected.mpr (by simp [hdown]))
  | true =>
      rw [hdown, if_pos rfl] at hhandled
      cases hpos : e.2 with
      | none =>
          -- The press stays outstanding, as far as the messages say.
          have hnot : ¬ Expected hypot s e := by simp [hexpected, hdown, hpos]
          refine ⟨iff_of_false (fun hpaired => ?_) hnot, fun hexp => absurd hexp hnot⟩
          have hended := hpaired.ended he
          rw [hhandled, hpos, Option.map_none, Option.toList_none, List.append_nil, h.presses,
            hdown] at hended
          contradiction
      | some p =>
          rw [hpos] at hhandled
          have hiff : Expected hypot s e ↔ p.Numeric := by simp [hexpected, hdown, hpos]
          rw [hiff]
          exact h.sends hhandled (by rw [hdown]; rfl) (by simp [he])

/-- A movement is to have numbers for a position, if it has one. -/
theorem Inv.paired_pointermove (h : Inv s) (pos : Option (Position Binary64)) :
    (Paired hypot s (.pointermove, pos) ↔ Expected hypot s (.pointermove, pos)) ∧
      (Expected hypot s (.pointermove, pos) → Inv (s.handled hypot (.pointermove, pos))) := by
  have hhandled := handled_pointermove s hypot pos
  cases hdown : s.down with
  | false =>
      rw [hdown, if_neg Bool.false_ne_true] at hhandled
      exact h.paired_quiet hhandled (fun _ => hdown) (by simp [Expected, hdown])
  | true =>
      rw [hdown, if_pos rfl] at hhandled
      cases pos with
      | none =>
          have hsame : s.handled hypot (.pointermove, none) = s := by
            rw [hhandled, ← hdown]
            exact congrArg _ (List.append_nil _)
          exact h.paired_quiet hsame (by simp [PointerEvent.ends]) (by simp [Expected])
      | some p =>
          have hiff : Expected hypot s (.pointermove, some p) ↔ p.Numeric := by
            simp [Expected, hdown]
          rw [hiff]
          exact h.sends hhandled (by rw [hdown]; rfl) (by simp [PointerEvent.ends])

/-- A press in the picture is to come while none is outstanding, with numbers for a
position. -/
theorem Inv.paired_inside (h : Inv s) (hinside : p.inside hypot) :
    (Paired hypot s (.pointerdown 0, some p) ↔ Expected hypot s (.pointerdown 0, some p)) ∧
      (Expected hypot s (.pointerdown 0, some p) →
        Inv (s.handled hypot (.pointerdown 0, some p))) := by
  have hhandled := handled_pointerdown (s := s) hinside
  cases hdown : s.down with
  | false =>
      have hiff : Expected hypot s (.pointerdown 0, some p) ↔ p.Numeric := by
        simp [Expected, hinside, hdown]
      rw [hiff]
      exact h.sends hhandled (by rw [hdown]; rfl) (by simp [PointerEvent.ends])
  | true =>
      -- A second press follows the first.
      have hnot : ¬ Expected hypot s (.pointerdown 0, some p) := by
        simp [Expected, hinside, hdown]
      refine ⟨iff_of_false (fun hpaired => ?_) hnot, fun hexp => absurd hexp hnot⟩
      have hform := hpaired.form
      rw [hhandled, outstanding_append h.presses, hdown] at hform
      contradiction

/-- **One event**, by its kind, the flag and the position: it does what it is to do
exactly if it is one that `handle` is made for. -/
theorem paired_iff (h : Inv s) (e : Event Binary64) :
    (Paired hypot s e ↔ Expected hypot s e) ∧ (Expected hypot s e → Inv (s.handled hypot e)) := by
  obtain ⟨event, pos⟩ := e
  cases event with
  | pointerdown button =>
      by_cases hcounts : button = 0 ∧ ∃ p, pos = some p ∧ p.inside hypot
      · obtain ⟨rfl, p, rfl, hinside⟩ := hcounts
        exact h.paired_inside hinside
      · have hoff : button = 0 → ∀ p ∈ pos, p.inside hypot = false := by
          intro hbutton p hp
          by_contra hinside
          exact hcounts ⟨hbutton, p, hp, by simpa using hinside⟩
        refine h.paired_quiet (handled_pointerdown_not hoff) (by simp [PointerEvent.ends]) ?_
        intro hbutton p hp hinside
        exact absurd hinside (by rw [hoff hbutton p hp]; exact Bool.false_ne_true)
  | pointermove => exact h.paired_pointermove pos
  | pointerup => exact h.paired_ends rfl Iff.rfl
  | pointercancel => exact h.paired_ends rfl Iff.rfl

/-! ## Coordinates -/

/-- Nothing is sent but messages with the event's position. -/
theorem mem_sent_handle [Number α] {down : Bool} {event : PointerEvent}
    {pos : Option (Position α)} {m : Message α} (h : m ∈ (handle down event pos).sent) :
    ∃ type, ∃ p ∈ pos, m = positionMessage type p := by
  cases event with
  | pointerdown button =>
      by_cases hbutton : button = 0
      · cases pos with
        | none => simp [handle] at h
        | some p =>
            simp only [handle, hbutton, ne_eq, not_true_eq_false, if_false] at h
            split at h
            · contradiction
            · exact ⟨.down, p, rfl, List.mem_singleton.mp h⟩
      · simp [handle, hbutton] at h
  | pointermove =>
      cases down with
      | false => contradiction
      | true =>
          obtain ⟨p, hp, rfl⟩ := Option.mem_map.mp (Option.mem_toList.mp h)
          exact ⟨.move, p, hp, rfl⟩
  | pointerup | pointercancel =>
      cases down with
      | false => contradiction
      | true =>
          obtain ⟨p, hp, rfl⟩ := Option.mem_map.mp (Option.mem_toList.mp h)
          exact ⟨.up, p, hp, rfl⟩

/-- Where all positions are numbers, fractions are sent, whatever the events. -/
theorem fractions_of_run {es : List (Event Binary64)} (hnumeric : ∀ e ∈ es, ∀ p ∈ e.2, p.Numeric)
    (hrun : (pageMachine hypot).Run init es s) : ∀ m ∈ s.sent, m.Fractions := by
  refine hrun.invariant_along (I := fun s => ∀ m ∈ s.sent, m.Fractions)
    (C := fun _ e => ∀ p ∈ e.2, p.Numeric) ?_ (by simp [init]) fun s e s' hs he hstep m hm => ?_
  · rintro before e after s rfl -
    exact hnumeric e (by simp)
  · obtain rfl : s.handled hypot e = s' := Option.some.inj hstep
    obtain hm | hm := List.mem_append.mp hm
    · exact hs m hm
    · let := number hypot
      obtain ⟨type, p, hp, rfl⟩ := mem_sent_handle hm
      exact fractions_message.mpr (he p hp)

/-! ## Runs -/

/-- **Mouse presses are paired with releases** in the runs whose events are all ones that
`handle` is made for, and in no others. -/
theorem paired_along_iff (hypot : Binary64 → Binary64 → Binary64) {es : List (Event Binary64)}
    (hrun : (pageMachine hypot).Run init es s) :
    (pageMachine hypot).Along init es (Paired hypot) ↔
      (pageMachine hypot).Along init es (Expected hypot) := by
  refine hrun.along_iff_along inv_init fun s e s' hs hstep => ?_
  obtain rfl : s.handled hypot e = s' := Option.some.inj hstep
  exact paired_iff hs e

/-- The middle of the picture. -/
def middle : Position Binary64 := ⟨.nearest (1 / 2), .nearest (1 / 2)⟩

/-- A press that is dragged off the picture and released there. -/
theorem paired_along_drag :
    ∃ s, (pageMachine .max).Run init
      [(.pointerdown 0, some middle), (.pointermove, none),
        (.pointermove, some ⟨.infinite false, .nearest (-1)⟩), (.pointercancel, some middle)] s ∧
      s.sent.map (·.type) = [.down, .move, .up] ∧
      (pageMachine .max).Along init
        [(.pointerdown 0, some middle), (.pointermove, none),
          (.pointermove, some ⟨.infinite false, .nearest (-1)⟩), (.pointercancel, some middle)]
        (Paired .max) := by
  obtain ⟨s, hrun, htypes⟩ := (pageMachine .max).exists_run init
    [(.pointerdown 0, some middle), (.pointermove, none),
      (.pointermove, some ⟨.infinite false, .nearest (-1)⟩), (.pointercancel, some middle)]
    (fun s => decide (s.sent.map (·.type) = [.down, .move, .up])) (by decide +kernel)
  exact ⟨s, hrun, of_decide_eq_true htypes,
    (paired_along_iff .max hrun).mpr (by decide +kernel)⟩

/-- The pointer is released while the video has no size: the press stays outstanding. -/
theorem press_not_released :
    ∃ s, (pageMachine .max).Run init [(.pointerdown 0, some middle), (.pointerup, none)] s ∧
      s.down = false ∧ s.sent = [message .max .down middle] ∧ outstanding s.sent = some true ∧
      ¬ (pageMachine .max).Along init [(.pointerdown 0, some middle), (.pointerup, none)]
        (Paired .max) := by
  obtain ⟨s, hrun, hend⟩ := (pageMachine .max).exists_run init
    [(.pointerdown 0, some middle), (.pointerup, none)]
    (fun s => decide (s.down = false ∧ s.sent = [message .max .down middle] ∧
      outstanding s.sent = some true)) (by decide +kernel)
  obtain ⟨hdown, hsent, hpress⟩ := of_decide_eq_true hend
  refine ⟨s, hrun, hdown, hsent, hpress, fun hpaired => ?_⟩
  have hended := (hpaired [(.pointerdown 0, some middle)] (.pointerup, none) [] _ rfl rfl).ended rfl
  exact absurd hended (by decide +kernel)

end RemoteBridge.Mouse
