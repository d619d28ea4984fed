import RemoteBridge.Binary64
import RemoteBridge.Injector.Calls

/-!
# Injector.Overflow

Relative moves of any length, in the arithmetic of the host: where the cursor is sent,
and whether the sum of its position and the points taken stays within `i32`.
-/

namespace RemoteBridge.Injector

open Exact

/-! ## 32-bit integers -/

/-- An integer of 32 bits. -/
def InInt32 (n : ℤ) : Prop := -2 ^ 31 ≤ n ∧ n < 2 ^ 31

instance (n : ℤ) : Decidable (InInt32 n) := inferInstanceAs (Decidable (_ ∧ _))

theorem toInt_add_of_mem {a b : Int32} (h : InInt32 (a.toInt + b.toInt)) :
    (a + b).toInt = a.toInt + b.toInt := by
  obtain ⟨hlo, hhi⟩ := h
  rw [Int32.toInt_add]
  exact Int.bmod_eq_of_le (by omega) (by omega)

theorem toInt_clampInt32 {x lo hi : Int32} (h : lo.toInt ≤ hi.toInt) :
    (clampInt32 x lo hi).toInt = max lo.toInt (min x.toInt hi.toInt) := by
  unfold clampInt32
  split
  case isTrue hlo =>
    rw [Int32.lt_iff_toInt_lt] at hlo
    omega
  case isFalse hlo =>
    rw [Int32.lt_iff_toInt_lt] at hlo
    split
    case isTrue hhi =>
      rw [gt_iff_lt, Int32.lt_iff_toInt_lt] at hhi
      omega
    case isFalse hhi =>
      rw [gt_iff_lt, Int32.lt_iff_toInt_lt] at hhi
      omega

/-! ## Along one axis -/

/-- Where the cursor is to be sent: by the whole points in an amount, on the display. -/
def landing (cursor size : ℤ) : Binary64 → ℤ
  | .finite amount _ => max 0 (min (cursor + trunc amount) (size - 1))
  | .infinite negative => if negative then 0 else size - 1
  -- No point is taken out of NaN.
  | .nan => cursor

/-- The cursor is at the edge, or the amount ends before the range of `i32` does. -/
def InReach (cursor : ℤ) (amount : Binary64) : Prop :=
  cursor = 0 ∨ match amount with
    | .finite amount _ => amount < ((2 ^ 31 - cursor : ℤ) : ℚ)
    | .infinite negative => negative
    | .nan => True

instance (cursor : ℤ) : ∀ amount, Decidable (InReach cursor amount)
  | .finite _ _ | .infinite _ | .nan => inferInstanceAs (Decidable (_ ∨ _))

/-- The whole points that are taken out of an amount. -/
def wholePoints (amount : Binary64) : Int32 := amount.trunc.toInt32

section

variable {cursor size : Int32} {amount : Binary64}

theorem toInt_wholePoints (amount : Binary64) :
    (wholePoints amount).toInt = match amount with
      | .finite x _ => max (-2 ^ 31) (min (trunc x) (2 ^ 31 - 1))
      | .infinite negative => if negative then -2 ^ 31 else 2 ^ 31 - 1
      | .nan => 0 := by
  cases amount with
  | nan => rfl
  | infinite negative => cases negative <;> rfl
  | finite x h =>
      have htwice : wholePoints (.finite x h) = saturate (trunc ((trunc x : ℤ) : ℚ)) := rfl
      rw [htwice, trunc_intCast]
      exact toInt_saturate_eq _

/-- The sum stays within `i32` exactly if the amount is in reach. -/
theorem add_inInt32_iff (hcursor : 0 ≤ cursor.toInt) :
    InInt32 (cursor.toInt + (wholePoints amount).toInt) ↔ InReach cursor.toInt amount := by
  have hlt := cursor.toInt_lt
  rw [toInt_wholePoints]
  cases amount with
  | nan =>
      simp only [InInt32, InReach, or_true, iff_true]
      omega
  | infinite negative =>
      cases negative with
      | true => exact iff_of_true ⟨by simp; omega, by simp; omega⟩ (.inr rfl)
      | false =>
          simp only [InInt32, InReach, Bool.false_eq_true, if_false, or_false]
          omega
  | finite x h =>
      simp only [InInt32, InReach]
      rw [← trunc_lt_iff (by omega)]
      omega

/-- A cursor in reach is sent where it is to be sent. -/
theorem toInt_sent (hcursor : 0 ≤ cursor.toInt) (hsize : cursor.toInt < size.toInt)
    (hreach : InReach cursor.toInt amount) :
    (clampInt32 (cursor + wholePoints amount) 0 (size - 1)).toInt =
      landing cursor.toInt size.toInt amount := by
  have hlt := size.toInt_lt
  have hsum := toInt_add_of_mem ((add_inInt32_iff hcursor).mpr hreach)
  have hlast : (size - 1).toInt = size.toInt - 1 := by
    rw [Int32.toInt_sub, Int32.toInt_one]
    exact Int.bmod_eq_of_le (by omega) (by omega)
  rw [toInt_clampInt32 (by rw [hlast, Int32.toInt_zero]; omega), hsum, hlast, Int32.toInt_zero,
    toInt_wholePoints]
  cases amount with
  | nan =>
      simp only [landing]
      omega
  | infinite negative =>
      cases negative with
      | true =>
          simp only [landing, if_true]
          omega
      | false =>
          simp only [landing, Bool.false_eq_true, if_false]
          omega
  | finite x h =>
      simp only [landing]
      omega

end

/-! ## The move -/

/-- The amounts of a relative move: what is carried over and the distance, in points. -/
def amounts (hypot : Binary64 → Binary64 → Binary64) (s : State Binary64) (dx dy : Binary64) :
    Binary64 × Binary64 :=
  letI := Binary64.f64 hypot
  (s.moveRest.1 + (s.map.toPoints dx dy).1, s.moveRest.2 + (s.map.toPoints dx dy).2)

/-- The state after a relative move, in the arithmetic of the host. -/
def hostMoved (hypot : Binary64 → Binary64 → Binary64) (os : Os) (s : State Binary64)
    (dx dy : Binary64) : State Binary64 :=
  letI := Binary64.f64 hypot
  after (apply os (.moveRel dx dy)) s

/-- The map of a display. -/
def hostMap (hypot : Binary64 → Binary64 → Binary64) (fw fh : UInt32) (dw dh : Int32) :
    FrameMap Binary64 :=
  letI := Binary64.f64 hypot
  FrameMap.new fw fh dw dh

/-! ## The host's relative moves -/

/-- What a relative move is to do: send the cursor where the points taken lead it, with
no sum on the way that leaves the range of `i32`. -/
structure Lands (hypot : Binary64 → Binary64 → Binary64) (os : Os) (s : State Binary64)
    (dx dy : Binary64) (dw dh : Int32) : Prop where
  sent : ∀ x y, .moveMouse x y ∈
      ((hostMoved hypot os s dx dy).calls.drop s.calls.length).map (·.1) →
    x.toInt = landing (os.location s.calls.length).1.toInt dw.toInt (amounts hypot s dx dy).1 ∧
      y.toInt = landing (os.location s.calls.length).2.toInt dh.toInt (amounts hypot s dx dy).2
  inRange : ∀ x y, wholePoints (amounts hypot s dx dy).1 = x →
    wholePoints (amounts hypot s dx dy).2 = y → x ≠ 0 ∨ y ≠ 0 → os.succeeds s.calls.length →
    InInt32 ((os.location s.calls.length).1.toInt + x.toInt) ∧
      InInt32 ((os.location s.calls.length).2.toInt + y.toInt) ∧
      InInt32 (dw.toInt - 1) ∧ InInt32 (dh.toInt - 1)

/-- A position on the display. -/
def OnDisplay (p : Int32 × Int32) (dw dh : Int32) : Prop :=
  (0 ≤ p.1.toInt ∧ p.1.toInt < dw.toInt) ∧ 0 ≤ p.2.toInt ∧ p.2.toInt < dh.toInt

section

variable {hypot : Binary64 → Binary64 → Binary64} {os : Os} {s : State Binary64}
  {dx dy : Binary64} {fw fh : UInt32} {dw dh : Int32}

/-- The calls of a relative move, by the whole points of its amounts. -/
theorem calls_hostMoved (os : Os) (dx dy : Binary64) (hmap : s.map = hostMap hypot fw fh dw dh) :
    (hostMoved hypot os s dx dy).calls.drop s.calls.length =
      if wholePoints (amounts hypot s dx dy).1 ≠ 0 ∨ wholePoints (amounts hypot s dx dy).2 ≠ 0 then
        (.location, os.succeeds s.calls.length) ::
          if os.succeeds s.calls.length then
            [(.moveMouse
                (clampInt32 ((os.location s.calls.length).1 + wholePoints (amounts hypot s dx dy).1)
                  0 (dw - 1))
                (clampInt32 ((os.location s.calls.length).2 + wholePoints (amounts hypot s dx dy).2)
                  0 (dh - 1)),
              os.succeeds (s.calls.length + 1))]
          else []
      else [] := by
  let _ := Binary64.f64 hypot
  have hsize (d : Int32) : Double.toInt32 (Double.ofInt d.toInt : Binary64) = d := by
    have hd : |d.toInt| ≤ 2 ^ 53 := by
      have hlo := d.le_toInt
      have hhi := d.toInt_lt
      rw [abs_le]
      omega
    have hof : (Double.ofInt d.toInt : Binary64) = .finite d.toInt _ := Binary64.ofInt_eq hd
    rw [hof]
    change saturate (trunc ((d.toInt : ℤ) : ℚ)) = d
    rw [trunc_intCast, saturate_toInt]
  have hwidth : Double.toInt32 s.map.displayWidth = dw := by
    rw [hmap]
    exact hsize dw
  have hheight : Double.toInt32 s.map.displayHeight = dh := by
    rw [hmap]
    exact hsize dh
  have hcalls : (hostMoved hypot os s dx dy).calls =
      (after (moveBy os (wholePoints (amounts hypot s dx dy).1)
        (wholePoints (amounts hypot s dx dy).2)) { s with
          moveRest := ((moveSteps s dx dy).1.1, (moveSteps s dx dy).2.1) }).calls := rfl
  rw [hcalls, calls_moveBy, List.drop_left, sentTo, sentTo, hwidth, hheight]

/-- **A relative move ends on the right point**, whatever its length, exactly if on each
axis the cursor is at the edge or what is to be moved ends before the range of `i32`
does; or the cursor's position cannot be read, and nothing is moved. -/
theorem lands_iff (hmap : s.map = hostMap hypot fw fh dw dh)
    (hcursor : OnDisplay (os.location s.calls.length) dw dh) :
    Lands hypot os s dx dy dw dh ↔
      (os.succeeds s.calls.length →
        InReach (os.location s.calls.length).1.toInt (amounts hypot s dx dy).1 ∧
          InReach (os.location s.calls.length).2.toInt (amounts hypot s dx dy).2) := by
  have hcalls := calls_hostMoved os dx dy hmap
  obtain ⟨⟨hx, hdw⟩, hy, hdh⟩ := hcursor
  constructor
  · intro hlands hlocation
    rw [← add_inInt32_iff hx, ← add_inInt32_iff hy]
    by_cases hsteps : wholePoints (amounts hypot s dx dy).1 ≠ 0 ∨
        wholePoints (amounts hypot s dx dy).2 ≠ 0
    · obtain ⟨hinX, hinY, -⟩ := hlands.inRange _ _ rfl rfl hsteps hlocation
      exact ⟨hinX, hinY⟩
    · -- Without a step the sums are the cursor's own coordinates.
      have hltX := (os.location s.calls.length).1.toInt_lt
      have hltY := (os.location s.calls.length).2.toInt_lt
      simp only [ne_eq, not_or, not_not] at hsteps
      rw [hsteps.1, hsteps.2, Int32.toInt_zero]
      unfold InInt32
      omega
  · intro hreach
    constructor
    · intro x y hmove
      rw [hcalls] at hmove
      split at hmove
      · cases hlocation : os.succeeds s.calls.length with
        | false => simp [hlocation] at hmove
        | true =>
            obtain ⟨hreachX, hreachY⟩ := hreach hlocation
            simp only [hlocation, if_true, List.map_cons, List.map_nil, List.mem_cons,
              reduceCtorEq, List.not_mem_nil, or_false, false_or, Call.moveMouse.injEq] at hmove
            obtain ⟨rfl, rfl⟩ := hmove
            exact ⟨toInt_sent hx hdw hreachX, toInt_sent hy hdh hreachY⟩
      · simp at hmove
    · rintro x y rfl rfl - hlocation
      obtain ⟨hreachX, hreachY⟩ := hreach hlocation
      have hltW := dw.toInt_lt
      have hltH := dh.toInt_lt
      refine ⟨(add_inInt32_iff hx).mpr hreachX, (add_inInt32_iff hy).mpr hreachY, ?_, ?_⟩
      · unfold InInt32
        omega
      · unfold InInt32
        omega

end

/-! ## Runs on fixed inputs -/

/-- The injector as started on a display of 1512 by 982 points. -/
def started : State Binary64 :=
  letI := Binary64.f64 .max
  init (hostMap .max 1280 720 1512 982)

/-- Calls succeed, and the cursor is in the middle of the display. -/
def centred : Os := ⟨fun _ => true, fun _ => (756, 491)⟩

/-- A move past both edges of the display, by ten frames each. -/
theorem lands_iff_ten_frames :
    Lands .max centred started (.ofInt 10) (.ofInt (-10)) 1512 982 ∧
      (hostMoved .max centred started (.ofInt 10) (.ofInt (-10))).calls =
        [(.location, true), (.moveMouse 1511 0, true)] :=
  ⟨(lands_iff rfl ⟨⟨by decide, by decide⟩, by decide, by decide⟩).mpr fun _ => by decide +kernel,
    by decide +kernel⟩

/-- A move to the right by ten million frames: the sum wraps, and the cursor is sent to the
left edge. -/
theorem ten_million_frames_overflow :
    (hostMoved .max centred started (.ofInt (10 ^ 7)) (.ofInt 0)).calls =
        [(.location, true), (.moveMouse 0 491, true)] ∧
      landing 756 1512 (amounts .max started (.ofInt (10 ^ 7)) (.ofInt 0)).1 = 1511 ∧
      ¬ Lands .max centred started (.ofInt (10 ^ 7)) (.ofInt 0) 1512 982 := by
  refine ⟨by decide +kernel, by decide +kernel, fun hlands => ?_⟩
  have hsum := (hlands.inRange _ _ rfl rfl (by decide +kernel) rfl).1
  exact absurd hsum (by decide +kernel)

end RemoteBridge.Injector
