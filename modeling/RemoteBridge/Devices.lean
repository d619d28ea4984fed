import RemoteBridge.Unicode

/-!
# Devices

The approved viewers of `pairing.rs`: the list in memory, the directory it is
written to and the names the host page gives.

An operation that saves takes what the outside decides, `Io`: the readings of
the clock and the step of the save that fails, if one does.  It changes the list
before it saves, and a failed save does not change it back.
-/

namespace RemoteBridge

open Unicode Fields

/-- One approved viewer. -/
structure PairedDevice where
  fingerprint : Text
  name : Text
  pairedAt : UInt64
  lastSeen : UInt64
deriving DecidableEq

/-! ## The directory -/

/-- What a file of the directory holds: a list as JSON, or text that does not
parse. -/
inductive File where
  | json (devices : List PairedDevice)
  | garbage
deriving DecidableEq

/-- `paired.json` and the temporary file beside it. -/
structure Directory where
  pairedJson : Option File
  tmp : Option File
deriving DecidableEq

/-- The steps of a save that may fail.  A write that fails may leave any part of
the text. -/
inductive SaveFault where
  | createDir
  | write
  | rename
deriving DecidableEq

/-- What the outside decides in one operation: the readings of the clock, in
seconds, and the fault of the save. -/
structure Io where
  now : Nat → UInt64
  fault : Option SaveFault

/-! ## The list -/

/-- The approved viewers in memory, and the directory they are saved in. -/
structure PairedDevices where
  devices : List PairedDevice
  dir : Directory
deriving DecidableEq

namespace PairedDevices

/-- The list at a start of the host, `none` where `paired.json` does not parse. -/
def load (dir : Directory) : Option PairedDevices :=
  match dir.pairedJson with
  | some (.json devices) => some ⟨devices, dir⟩
  | some .garbage => none
  | none => some ⟨[], dir⟩

/-- Writes a temporary file and renames it over the old one. -/
def save (p : PairedDevices) (io : Io) : Except SaveFault Unit × PairedDevices :=
  match io.fault with
  | some .createDir => (.error .createDir, p)
  | some .write => (.error .write, { p with dir.tmp := some .garbage })
  | some .rename => (.error .rename, { p with dir.tmp := some (.json p.devices) })
  | none => (.ok (), { p with dir := ⟨some (.json p.devices), none⟩ })

def contains (p : PairedDevices) (fingerprint : Text) : Bool :=
  p.devices.any (·.fingerprint == fingerprint)

def add (p : PairedDevices) (fingerprint name : Text) (io : Io) :
    Except SaveFault Unit × PairedDevices :=
  if p.contains fingerprint then (.ok (), p)
  else
    save { p with devices := p.devices ++ [⟨fingerprint, name, io.now 0, io.now 1⟩] } io

/-- The value is false if the device was not paired. -/
def remove (p : PairedDevices) (fingerprint : Text) (io : Io) :
    Except SaveFault Bool × PairedDevices :=
  let devices := p.devices.filter (·.fingerprint != fingerprint)
  if devices.length = p.devices.length then (.ok false, { p with devices })
  else
    let (result, p) := save { p with devices } io
    (result.map fun _ => true, p)

/-- Changes the first device with this fingerprint, `none` if there is none. -/
def update (p : PairedDevices) (fingerprint : Text) (f : PairedDevice → PairedDevice) :
    Option PairedDevices :=
  (p.devices.findIdx? (·.fingerprint == fingerprint)).map fun i =>
    { p with devices := p.devices.modify i f }

/-- The value is false if the device was not paired. -/
def rename (p : PairedDevices) (fingerprint name : Text) (io : Io) :
    Except SaveFault Bool × PairedDevices :=
  match p.update fingerprint fun d => { d with name } with
  | none => (.ok false, p)
  | some p =>
      let (result, p) := save p io
      (result.map fun _ => true, p)

/-- Records that a paired device just connected. -/
def touch (p : PairedDevices) (fingerprint : Text) (io : Io) :
    Except SaveFault Unit × PairedDevices :=
  match p.update fingerprint fun d => { d with lastSeen := io.now 0 } with
  | none => (.ok (), p)
  | some p => save p io

/-! ## What the operations do to the fingerprints -/

/-- The fingerprints in the list. -/
def fingerprints (p : PairedDevices) : List Text := p.devices.map (·.fingerprint)

theorem contains_iff {p : PairedDevices} {fp : Text} : p.contains fp ↔ fp ∈ p.fingerprints := by
  simp [contains, fingerprints]

@[simp] theorem devices_save (p : PairedDevices) (io : Io) :
    (p.save io).2.devices = p.devices := by
  unfold save
  split <;> rfl

/-- A list a device is added to holds its fingerprint and those it held. -/
theorem fingerprints_add (p : PairedDevices) (fp name : Text) (io : Io) :
    (p.add fp name io).2.fingerprints =
      if fp ∈ p.fingerprints then p.fingerprints else p.fingerprints ++ [fp] := by
  unfold add
  by_cases h : p.contains fp
  · rw [if_pos h, if_pos (contains_iff.mp h)]
  · rw [if_neg h, if_neg (mt contains_iff.mpr h), fingerprints, devices_save, List.map_append]
    rfl

/-- The entries of the other devices. -/
def others (p : PairedDevices) (fp : Text) : List PairedDevice :=
  p.devices.filter (·.fingerprint != fp)

/-- Adding a device changes no other's entry. -/
theorem others_add (p : PairedDevices) (fp name : Text) (io : Io) :
    (p.add fp name io).2.others fp = p.others fp := by
  unfold add
  split
  · rfl
  · rw [others, devices_save, others, List.filter_append]
    simp

theorem fingerprints_add_subset (p : PairedDevices) (fp name : Text) (io : Io) :
    (p.add fp name io).2.fingerprints ⊆ fp :: p.fingerprints := by
  rw [fingerprints_add]
  split <;> grind

theorem subset_fingerprints_add (p : PairedDevices) (fp name : Text) (io : Io) :
    p.fingerprints ⊆ (p.add fp name io).2.fingerprints := by
  rw [fingerprints_add]
  split <;> grind

theorem mem_fingerprints_add (p : PairedDevices) (fp name : Text) (io : Io) :
    fp ∈ (p.add fp name io).2.fingerprints := by
  rw [fingerprints_add]
  split <;> grind

/-- A save fails exactly where one of its steps does. -/
theorem save_error_iff (p : PairedDevices) (io : Io) :
    (∃ e, (p.save io).1 = .error e) ↔ io.fault.isSome := by
  unfold save
  split <;> simp_all

/-- Adding fails exactly where a new device's save does. -/
theorem add_error_iff {p : PairedDevices} {fp name : Text} {io : Io} :
    (∃ e, (p.add fp name io).1 = .error e) ↔ fp ∉ p.fingerprints ∧ io.fault.isSome := by
  unfold add
  split
  · next hcontains => simp [contains_iff.mp hcontains]
  · next hcontains => simp [save_error_iff, mt contains_iff.mpr hcontains]

theorem update_isSome {p : PairedDevices} {fp : Text} {f : PairedDevice → PairedDevice} :
    (p.update fp f).isSome ↔ fp ∈ p.fingerprints := by
  rw [update, Option.isSome_map, List.findIdx?_isSome, ← contains_iff, contains]

/-- Recording a connect fails exactly where a device's save does. -/
theorem touch_error_iff {p : PairedDevices} {fp : Text} {io : Io} :
    (∃ e, (p.touch fp io).1 = .error e) ↔ fp ∈ p.fingerprints ∧ io.fault.isSome := by
  have hupdate : (p.update fp fun d => { d with lastSeen := io.now 0 }).isSome ↔
      fp ∈ p.fingerprints := update_isSome
  unfold touch
  split
  · next hnone =>
    have hout : fp ∉ p.fingerprints := by simpa [hnone] using hupdate
    simp [hout]
  · next p' hsome =>
    have hin : fp ∈ p.fingerprints := by simpa [hsome] using hupdate
    simp [save_error_iff, hin]

/-- Removing succeeds only for a device in the list, and where its save does. -/
theorem remove_ok {p : PairedDevices} {fp : Text} {io : Io} (h : (p.remove fp io).1 = .ok true) :
    fp ∈ p.fingerprints ∧ io.fault = none := by
  unfold remove at h
  dsimp only at h
  split at h
  · simp at h
  · next hlength =>
    constructor
    · by_contra hout
      refine hlength (congrArg List.length (List.filter_eq_self.mpr fun d hd => ?_))
      have hne : d.fingerprint ≠ fp := fun heq =>
        hout (heq ▸ List.mem_map.mpr ⟨d, hd, rfl⟩)
      simpa using hne
    · unfold save at h
      split at h <;> simp_all [Except.map]

theorem fingerprints_remove (p : PairedDevices) (fp : Text) (io : Io) :
    (p.remove fp io).2.fingerprints = p.fingerprints.filter (· != fp) := by
  have hfilter : ({ p with devices := p.devices.filter (·.fingerprint != fp) } :
      PairedDevices).fingerprints = p.fingerprints.filter (· != fp) := by
    rw [fingerprints, fingerprints, List.filter_map]
    rfl
  unfold remove
  dsimp only
  split
  · exact hfilter
  · rw [← hfilter, fingerprints, devices_save]
    rfl

theorem fingerprints_update {p p' : PairedDevices} {fp : Text} {f : PairedDevice → PairedDevice}
    (h : p.update fp f = some p') (hf : ∀ d, (f d).fingerprint = d.fingerprint) :
    p'.fingerprints = p.fingerprints := by
  obtain ⟨i, -, rfl⟩ := Option.map_eq_some_iff.mp h
  rw [fingerprints, fingerprints]
  refine List.ext_getElem (by simp) fun j hj hj' => ?_
  simp only [List.getElem_map, List.getElem_modify]
  split
  · exact hf _
  · rfl

theorem fingerprints_rename (p : PairedDevices) (fp name : Text) (io : Io) :
    (p.rename fp name io).2.fingerprints = p.fingerprints := by
  unfold rename
  split
  · rfl
  · next p' h =>
    rw [fingerprints, devices_save]
    exact fingerprints_update h fun _ => rfl

theorem fingerprints_touch (p : PairedDevices) (fp : Text) (io : Io) :
    (p.touch fp io).2.fingerprints = p.fingerprints := by
  unfold touch
  split
  · rfl
  · next p' h =>
    rw [fingerprints, devices_save]
    exact fingerprints_update h fun _ => rfl

end PairedDevices

/-! ## Names -/

/-- The general category Cc (`char::is_control`). -/
def isControl (c : Nat) : Bool := c ≤ 0x1F || (0x7F ≤ c && c ≤ 0x9F)

/-- Cleans up a device name typed in the host page. -/
def cleanName (name : Text) : Text :=
  ((trim isWhiteSpace name).filter fun c => !isControl c).take 40

end RemoteBridge
