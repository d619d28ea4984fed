import RemoteBridge.Sessions.Removal

/-!
# Sessions.Ending

When the session loop returns.  It is meant to go on as long as the signaling
connection does, but an error of `add` or `touch` ends it as well: they fail
where the list of approved viewers cannot be saved.
-/

namespace RemoteBridge.Host

open Unicode Machine

variable {S : Type} [Sdp S] {h h' : Host S} {e : Event S}

/-- The step returns from the loop only if receiving failed. -/
def Survives (h : Host S) (e : Event S) : Prop :=
  ∀ h', (machine S).step h e = some h' → h.point ≠ .returned → h'.point = .returned →
    e = .recvFailed

/-- The save of a device that is approved or connects does not fail. -/
def Saves (h : Host S) (e : Event S) : Prop :=
  match h.point, e with
  | .approve _ _ fp _, .resume o => fp ∉ h.shared.paired.fingerprints → o.io.fault = none
  | .answer _ fp _, .resume o => fp ∈ h.shared.paired.fingerprints → o.io.fault = none
  | _, _ => True

instance (h : Host S) (e : Event S) : Decidable (Saves h e) :=
  decidable_of_iff ((match h.point, e with
    | .approve _ _ fp _, .resume o => h.shared.paired.contains fp || o.io.fault.isNone
    | .answer _ fp _, .resume o => !h.shared.paired.contains fp || o.io.fault.isNone
    | _, _ => true) = true) (by
      unfold Saves
      split <;> simp [← PairedDevices.contains_iff, Decidable.imp_iff_not_or])

omit [Sdp S] in
/-- Besides the loss of the connection, a failed save is what ends the loop. -/
theorem ends_iff_not_saves (hne : e ≠ .recvFailed) : Ends h e ↔ ¬ Saves h e := by
  cases e with
  | recvFailed => contradiction
  | resume o => cases hpoint : h.point <;> simp [Ends, Saves, hpoint, Option.isSome_iff_ne_none]
  | recv message => cases hpoint : h.point <;> simp [Ends, Saves, hpoint]
  | command => cases hpoint : h.point <;> simp [Ends, Saves, hpoint]
  | page p => cases hpoint : h.point <;> simp [Ends, Saves, hpoint]

/-- A failed save does end the loop. -/
theorem exists_returned (hsaves : ¬ Saves h e) :
    ∃ h', (machine S).step h e = some h' ∧ h.point ≠ .returned ∧ h'.point = .returned := by
  unfold Saves at hsaves
  split at hsaves
  · next name sdp fp pc o hpoint =>
    rw [Classical.not_imp, ← Ne, ← Option.isSome_iff_ne_none] at hsaves
    obtain ⟨fault, herror⟩ := PairedDevices.add_error_iff.mpr hsaves
    simp only [machine, step, resume, hpoint]
    split
    · exact ⟨_, rfl, by simp, rfl⟩
    · next heq =>
      rw [heq] at herror
      contradiction
  · next sdp fp pc o hpoint =>
    rw [Classical.not_imp, ← Ne, ← Option.isSome_iff_ne_none] at hsaves
    obtain ⟨fault, herror⟩ := PairedDevices.touch_error_iff.mpr hsaves
    simp only [machine, step, resume, hpoint]
    rw [if_pos (PairedDevices.contains_iff.mpr hsaves.1)]
    split
    · exact ⟨_, rfl, by simp, rfl⟩
    · next heq =>
      rw [heq] at herror
      contradiction
  · exact absurd trivial hsaves

/-- **One step** survives exactly if its save does not fail. -/
theorem survives_iff_saves : Survives h e ↔ Saves h e := by
  constructor
  · intro hsurvives
    by_contra hsaves
    obtain ⟨h', hstep, hpoint, hreturned⟩ := exists_returned hsaves
    rw [hsurvives h' hstep hpoint hreturned] at hsaves
    exact hsaves (by cases hpoint : h.point <;> simp [Saves, hpoint])
  · intro hsaves h' hstep hpoint hreturned
    by_contra hne
    exact (ends_iff_not_saves hne).mp ((step_of_eq hstep).ends hpoint hreturned) hsaves

/-- **The loop survives everything except the loss of signaling** exactly in the
runs in which no save of a device that is approved or connects fails. -/
theorem survives_along_iff {key hostFp : Text} {paired : PairedDevices} {es : List (Event S)} :
    (machine S).Along (init key hostFp paired) es Survives ↔
      (machine S).Along (init key hostFp paired) es Saves := by
  simp only [Along, survives_iff_saves]

/-- In a run whose saves do not fail the loop returned only if receiving failed. -/
theorem recvFailed_of_returned {key hostFp : Text} {paired : PairedDevices} {es : List (Event S)}
    (hrun : (machine S).Run (init key hostFp paired) es h)
    (hsaves : (machine S).Along (init key hostFp paired) es Saves)
    (hreturned : h.point = .returned) :
    (machine S).Occurs (init key hostFp paired) es fun _ e => e = .recvFailed := by
  have horigin := hrun.origin_along (Q := fun h => h.point = .returned)
    (P := fun _ e => e = .recvFailed) hsaves hreturned ?_
  · exact horigin.resolve_left (by simp [init])
  · intro es s e s' _ _ he hstep hreturned
    by_cases hpoint : s.point = .returned
    · exact .inl hpoint
    · exact .inr (survives_iff_saves.mpr he s' hstep hpoint hreturned)

/-- A new device is approved where the list cannot be saved: the loop returns
with the signaling connection alive. -/
theorem returned_signaling_alive :
    ∃ es h, (machine Text).Run (hostWith []) es h ∧ h.point = .returned ∧
      (∀ e ∈ es, e ≠ .recvFailed) ∧ ¬ (machine Text).Along (hostWith []) es Survives := by
  let es : List (Event Text) := firstSession ++ newAnswer "b1" ++
    [.page (.approve (some []) (text "b1") []), .command,
      .resume ⟨⟨fun _ => 0, some .write⟩, none, true⟩]
  obtain ⟨h, hrun, hreturned⟩ := exists_run (machine Text) (hostWith []) es
    (fun h => h.point = .returned) (by decide +kernel)
  refine ⟨es, h, hrun, of_decide_eq_true hreturned, ?_, fun hsurvives => ?_⟩
  · simp [es, firstSession, newAnswer, goOn, startWith]
  · have hsaves : (machine Text).Along (hostWith []) es Saves := fun es₁ e es₂ s heq hs =>
      survives_iff_saves.mp (hsurvives es₁ e es₂ s heq hs)
    exact absurd hsaves (by decide +kernel)

end RemoteBridge.Host
