import RemoteBridge.Devices

/-!
# Admin

The host page's requests (`admin.rs`): what the page and the session loop share,
the commands the page leaves for the loop, and the handlers.

Handlers run beside the session loop.  Each is one step, under the shared lock,
but for `remove`, which sends its command in a second step.
-/

namespace RemoteBridge

open Unicode

/-- A new device waiting for approval, as the page shows it. -/
structure Pending where
  fingerprint : Text
  code : Text
deriving DecidableEq

/-- A peer connection, by its place among those the host made. -/
abbrev ConnectionId := Nat

/-- What the session loop and the page both see. -/
structure Shared where
  hostFingerprint : Text
  paired : PairedDevices
  pending : Option Pending
  active : Option (Text × ConnectionId)
deriving DecidableEq

/-- Requests from the page that the session loop carries out. -/
inductive Command where
  | approve (fingerprint name : Text)
  | reject (fingerprint : Text)
  | disconnect (fingerprint : Text)
deriving DecidableEq

/-- The device a command names. -/
def Command.fingerprint : Command → Text
  | .approve fp _ => fp
  | .reject fp => fp
  | .disconnect fp => fp

/-- What the handlers work on: the page's key, what is shared, the commands sent
and not yet received, whether the loop still receives, and the `remove` handlers
that changed the list and have yet to send their command. -/
structure AppState where
  key : Text
  shared : Shared
  commands : List Command
  receiving : Bool
  removals : List Text
deriving DecidableEq

inductive StatusCode where
  | noContent
  | unauthorized
  | notFound
  | internalServerError
deriving DecidableEq

namespace AppState

/-- A send to a loop that returned is lost. -/
def send (s : AppState) (c : Command) : AppState :=
  if s.receiving then { s with commands := s.commands ++ [c] } else s

/-- `x-admin-key` is the header's value where it has one. -/
def authorized (s : AppState) (header : Option Text) : Bool := header == some s.key

def approve (s : AppState) (header : Option Text) (fingerprint name : Text) :
    StatusCode × AppState :=
  if ¬ s.authorized header then (.unauthorized, s)
  else (.noContent, s.send (.approve fingerprint (cleanName name)))

def reject (s : AppState) (header : Option Text) (fingerprint : Text) : StatusCode × AppState :=
  if ¬ s.authorized header then (.unauthorized, s)
  else (.noContent, s.send (.reject fingerprint))

def rename (s : AppState) (header : Option Text) (fingerprint name : Text) (io : Io) :
    StatusCode × AppState :=
  if ¬ s.authorized header then (.unauthorized, s)
  else
    let (result, paired) := s.shared.paired.rename fingerprint (cleanName name) io
    let s := { s with shared.paired := paired }
    match result with
    | .ok true => (.noContent, s)
    | .ok false => (.notFound, s)
    | .error _ => (.internalServerError, s)

/-- The first half of `remove`, up to its answer where it has no second half. -/
def remove (s : AppState) (header : Option Text) (fingerprint : Text) (io : Io) :
    Option StatusCode × AppState :=
  if ¬ s.authorized header then (some .unauthorized, s)
  else
    let (result, paired) := s.shared.paired.remove fingerprint io
    let s := { s with shared.paired := paired }
    match result with
    | .ok true => (none, { s with removals := s.removals ++ [fingerprint] })
    | .ok false => (some .notFound, s)
    | .error _ => (some .internalServerError, s)

/-- The second half of the `i`-th `remove` under way: it sends its command and
answers. -/
def finishRemove (s : AppState) (i : Nat) : Option (StatusCode × AppState) :=
  s.removals[i]?.map fun fp =>
    (.noContent, { s with removals := s.removals.eraseIdx i : AppState }.send (.disconnect fp))

end AppState

/-! ## Page steps -/

/-- A step of the page's server. -/
inductive PageStep where
  | approve (header : Option Text) (fingerprint name : Text)
  | reject (header : Option Text) (fingerprint : Text)
  | rename (header : Option Text) (fingerprint name : Text) (io : Io)
  | remove (header : Option Text) (fingerprint : Text) (io : Io)
  | finishRemove (i : Nat)

/-- What a page step makes of the state, with the answer it gives if it gives
one; `none` where there is no such step. -/
def AppState.page (s : AppState) : PageStep → Option (Option StatusCode × AppState)
  | .approve header fp name => some ((s.approve header fp name).map some id)
  | .reject header fp => some ((s.reject header fp).map some id)
  | .rename header fp name io => some ((s.rename header fp name io).map some id)
  | .remove header fp io => some (s.remove header fp io)
  | .finishRemove i => (s.finishRemove i).map (Prod.map some id)

namespace AppState

variable {s s' : AppState} {status : Option StatusCode}

theorem send_eq (s : AppState) (c : Command) :
    s.send c = { s with commands := (s.send c).commands } := by
  unfold send; split <;> rfl

theorem commands_send_prefix (s : AppState) (c : Command) :
    s.commands <+: (s.send c).commands := by
  unfold send
  split
  · exact List.prefix_append ..
  · exact List.prefix_rfl

/-- What page steps leave alone, and what they may do to the rest: they add no
fingerprint to the list and take no command out of the channel. -/
structure Paged (s s' : AppState) : Prop where
  key : s'.key = s.key
  receiving : s'.receiving = s.receiving
  hostFingerprint : s'.shared.hostFingerprint = s.shared.hostFingerprint
  pending : s'.shared.pending = s.shared.pending
  active : s'.shared.active = s.shared.active
  paired : s'.shared.paired.fingerprints ⊆ s.shared.paired.fingerprints
  commands : s.commands <+: s'.commands

theorem paged_send (s : AppState) (c : Command) : Paged s (s.send c) := by
  rw [send_eq]
  exact ⟨rfl, rfl, rfl, rfl, rfl, List.Subset.refl _, commands_send_prefix s c⟩

theorem paged_refl (s : AppState) : Paged s s :=
  ⟨rfl, rfl, rfl, rfl, rfl, List.Subset.refl _, List.prefix_rfl⟩

theorem paged_rename (s : AppState) (header : Option Text) (fp name : Text) (io : Io) :
    Paged s (s.rename header fp name io).2 := by
  have hsub : (s.shared.paired.rename fp (cleanName name) io).2.fingerprints ⊆
      s.shared.paired.fingerprints := by
    rw [PairedDevices.fingerprints_rename]
    exact List.Subset.refl _
  unfold rename
  split
  · exact paged_refl s
  · dsimp only
    split <;> exact ⟨rfl, rfl, rfl, rfl, rfl, hsub, List.prefix_rfl⟩

theorem paged_remove (s : AppState) (header : Option Text) (fp : Text) (io : Io) :
    Paged s (s.remove header fp io).2 := by
  have hsub : (s.shared.paired.remove fp io).2.fingerprints ⊆ s.shared.paired.fingerprints := by
    rw [PairedDevices.fingerprints_remove]
    exact List.filter_sublist.subset
  unfold remove
  split
  · exact paged_refl s
  · dsimp only
    split <;> exact ⟨rfl, rfl, rfl, rfl, rfl, hsub, List.prefix_rfl⟩

/-- **Page steps** keep to what they may do. -/
theorem paged_page {p : PageStep} (h : s.page p = some (status, s')) : Paged s s' := by
  cases p with
  | approve header fp name =>
      obtain ⟨-, rfl⟩ := Prod.ext_iff.mp (Option.some.inj h)
      simp only [approve]
      split
      · exact paged_refl s
      · exact paged_send s _
  | reject header fp =>
      obtain ⟨-, rfl⟩ := Prod.ext_iff.mp (Option.some.inj h)
      simp only [reject]
      split
      · exact paged_refl s
      · exact paged_send s _
  | rename header fp name io =>
      obtain ⟨-, rfl⟩ := Prod.ext_iff.mp (Option.some.inj h)
      exact paged_rename s header fp name io
  | remove header fp io =>
      obtain ⟨-, rfl⟩ := Prod.ext_iff.mp (Option.some.inj h)
      exact paged_remove s header fp io
  | finishRemove i =>
      obtain ⟨⟨code, s₁⟩, hfinish, hs⟩ := Option.map_eq_some_iff.mp h
      obtain ⟨fp, -, hs₁⟩ := Option.map_eq_some_iff.mp hfinish
      obtain ⟨-, rfl⟩ := Prod.ext_iff.mp hs
      obtain ⟨-, rfl⟩ := Prod.ext_iff.mp hs₁
      obtain ⟨h₁, h₂, h₃, h₄, h₅, h₆, h₇⟩ :=
        paged_send { s with removals := s.removals.eraseIdx i } (.disconnect fp)
      exact ⟨h₁, h₂, h₃, h₄, h₅, h₆, h₇⟩

/-- A `remove` has a second half only for the page, for a device in the list and
where the save succeeded. -/
theorem remove_eq_none {header : Option Text} {fp : Text} {io : Io}
    (h : (s.remove header fp io).1 = none) :
    header = some s.key ∧ fp ∈ s.shared.paired.fingerprints ∧ io.fault = none := by
  simp only [remove] at h
  split at h
  · simp at h
  · next hauthorized =>
    refine ⟨by simpa [authorized] using hauthorized, PairedDevices.remove_ok ?_⟩
    split at h <;> first | assumption | simp at h

/-- A `remove` that has yet to answer has taken the device out of the list. -/
theorem remove_pending {header : Option Text} {fp : Text} {io : Io}
    (h : s.page (.remove header fp io) = some (none, s')) :
    fp ∉ s'.shared.paired.fingerprints ∧ s'.removals = s.removals ++ [fp] := by
  simp only [page, Option.some.injEq, remove] at h
  split at h
  · simp at h
  · split at h <;> simp only [Prod.mk.injEq, reduceCtorEq, false_and, true_and] at h
    subst h
    simp [PairedDevices.fingerprints_remove]

/-- The answer of a `remove` follows its command, if the loop still receives. -/
theorem finishRemove_sent {i : Nat} {fp : Text} (h : s.page (.finishRemove i) = some (status, s'))
    (hi : s.removals[i]? = some fp) (hreceiving : s.receiving) :
    .disconnect fp ∈ s'.commands := by
  simp only [page, finishRemove, hi, Option.map_some, Option.some.injEq] at h
  obtain ⟨-, rfl⟩ := Prod.ext_iff.mp h
  simp [send, hreceiving]

theorem removals_send (s : AppState) (c : Command) : (s.send c).removals = s.removals := by
  unfold send; split <;> rfl

/-- A `remove` under way stays so until it sends its command. -/
theorem removals_page {p : PageStep} {fp : Text} (h : s.page p = some (status, s'))
    (hfp : fp ∈ s.removals) (hreceiving : s.receiving) :
    fp ∈ s'.removals ∨ .disconnect fp ∈ s'.commands := by
  cases p with
  | approve header _ name =>
      obtain ⟨-, rfl⟩ := Prod.ext_iff.mp (Option.some.inj h)
      simp only [approve]
      split <;> simp [removals_send, hfp]
  | reject header _ =>
      obtain ⟨-, rfl⟩ := Prod.ext_iff.mp (Option.some.inj h)
      simp only [reject]
      split <;> simp [removals_send, hfp]
  | rename header _ name io =>
      obtain ⟨-, rfl⟩ := Prod.ext_iff.mp (Option.some.inj h)
      simp only [rename]
      split
      · simp [hfp]
      · split <;> simp [hfp]
  | remove header _ io =>
      obtain ⟨-, rfl⟩ := Prod.ext_iff.mp (Option.some.inj h)
      simp only [remove]
      split
      · simp [hfp]
      · split <;> simp [hfp]
  | finishRemove i =>
      obtain ⟨j, hj⟩ := List.mem_iff_getElem?.mp hfp
      by_cases hij : j = i
      · exact .inr (finishRemove_sent h (hij ▸ hj) hreceiving)
      · obtain ⟨⟨code, s₁⟩, hfinish, hs⟩ := Option.map_eq_some_iff.mp h
        obtain ⟨fp', -, hs₁⟩ := Option.map_eq_some_iff.mp hfinish
        obtain ⟨-, rfl⟩ := Prod.ext_iff.mp hs
        obtain ⟨-, rfl⟩ := Prod.ext_iff.mp hs₁
        left
        change fp ∈ (send _ _).removals
        rw [removals_send]
        exact List.mem_eraseIdx_iff_getElem?.mpr ⟨j, hij, hj⟩

end AppState

end RemoteBridge
