import RemoteBridge.Devices
import RemoteBridge.Machine

/-!
# Devices.Operations

The operations on the approved viewers, one after another.  Each changes the
list and saves it, so the file holds the list again unless the save failed.
-/

namespace RemoteBridge

open Unicode Machine

/-- An operation that may change the list. -/
inductive Operation where
  | add (fingerprint name : Text)
  | remove (fingerprint : Text)
  | rename (fingerprint name : Text)
  | touch (fingerprint : Text)
deriving DecidableEq

namespace PairedDevices

/-- Runs an operation.  `remove` and `rename` return whether the device was
paired; `add` and `touch` return nothing, which is `true` here. -/
def run (p : PairedDevices) (op : Operation) (io : Io) : Except SaveFault Bool × PairedDevices :=
  match op with
  | .add fp name => ((p.add fp name io).1.map fun _ => true, (p.add fp name io).2)
  | .remove fp => p.remove fp io
  | .rename fp name => p.rename fp name io
  | .touch fp => ((p.touch fp io).1.map fun _ => true, (p.touch fp io).2)

/-- The approved viewers as a machine. -/
def machine : Machine PairedDevices (Operation × Io) := ⟨fun p e => some (p.run e.1 e.2).2⟩

/-! ## An operation is an edit and a save -/

/-- The list an operation saves, `none` where it saves nothing. -/
def edit (p : PairedDevices) (op : Operation) (now : Nat → UInt64) : Option PairedDevices :=
  match op with
  | .add fp name =>
      if p.contains fp then none
      else some { p with devices := p.devices ++ [⟨fp, name, now 0, now 1⟩] }
  | .remove fp => if p.contains fp then some { p with devices := p.others fp } else none
  | .rename fp name => p.update fp fun d => { d with name }
  | .touch fp => p.update fp fun d => { d with lastSeen := now 0 }

/-- What an operation returns that saves nothing. -/
def idle : Operation → Bool
  | .add _ _ | .touch _ => true
  | .remove _ | .rename _ _ => false

variable {p p' : PairedDevices} {op : Operation} {io : Io} {now : Nat → UInt64} {fp name : Text}

theorem others_eq_self : p.others fp = p.devices ↔ fp ∉ p.fingerprints := by
  rw [others, List.filter_eq_self, fingerprints, List.mem_map]
  grind

/-- Dropping a device shortens the list exactly if it was in it. -/
theorem length_others : (p.others fp).length = p.devices.length ↔ fp ∉ p.fingerprints := by
  rw [← others_eq_self, others]
  constructor
  · exact List.filter_sublist.eq_of_length
  · exact congrArg List.length

/-- **Operations** edit the list and save it. -/
theorem run_eq (p : PairedDevices) (op : Operation) (io : Io) :
    p.run op io = match p.edit op io.now with
      | none => (.ok (idle op), p)
      | some p' => ((p'.save io).1.map fun _ => true, (p'.save io).2) := by
  cases op with
  | add fp name =>
      rw [run, add, edit]
      split <;> rfl
  | remove fp =>
      have hlength : (p.others fp).length = p.devices.length ↔ fp ∉ p.fingerprints := length_others
      by_cases hfp : p.contains fp
      · rw [edit, if_pos hfp]
        exact if_neg (mt hlength.mp (not_not_intro (contains_iff.mp hfp)))
      · rw [edit, if_neg hfp]
        have hout := mt contains_iff.mpr hfp
        have hself : ({ p with devices := p.others fp } : PairedDevices) = p := by
          rw [others_eq_self.mpr hout]
        exact (if_pos (hlength.mpr hout)).trans (congrArg (Prod.mk _) hself)
  | rename fp name =>
      rw [run, rename, edit]
      cases p.update fp fun d => { d with name } <;> rfl
  | touch fp =>
      rw [run, touch, edit]
      cases p.update fp fun d => { d with lastSeen := io.now 0 } <;> rfl

theorem update_dir {f : PairedDevice → PairedDevice} (h : p.update fp f = some p') :
    p'.dir = p.dir := by
  obtain ⟨i, -, rfl⟩ := Option.map_eq_some_iff.mp h
  rfl

theorem edit_dir (h : p.edit op now = some p') : p'.dir = p.dir := by
  cases op with
  | add fp name =>
      rw [edit, Option.ite_none_left_eq_some] at h
      rw [← Option.some.inj h.2]
  | remove fp =>
      rw [edit, Option.ite_none_right_eq_some] at h
      rw [← Option.some.inj h.2]
  | rename fp name => exact update_dir h
  | touch fp => exact update_dir h

/-! ## The file -/

/-- A load of the directory gives this list. -/
def Saved (p : PairedDevices) : Prop := load p.dir = some p

instance (p : PairedDevices) : Decidable p.Saved := inferInstanceAs (Decidable (_ = _))

theorem save_ok (h : io.fault = none) :
    p.save io = (.ok (), { p with dir := ⟨some (.json p.devices), none⟩ }) := by
  rw [save, h]

/-- A failed save leaves the file as it was. -/
theorem save_failed (h : io.fault.isSome) :
    (p.save io).2.dir.pairedJson = p.dir.pairedJson := by
  unfold save
  split
  · rfl
  · rfl
  · rfl
  · next hfault => simp [hfault] at h

/-- What a load gives depends on the file only. -/
theorem load_congr {dir dir' : Directory} (h : dir'.pairedJson = dir.pairedJson) :
    (load dir').map (·.devices) = (load dir).map (·.devices) := by
  simp only [load, h]
  split <;> rfl

theorem load_dir {dir : Directory} (h : load dir = some p) : p.dir = dir := by
  unfold load at h
  split at h
  · rw [← Option.some.inj h]
  · contradiction
  · rw [← Option.some.inj h]

/-- What was loaded is in the file. -/
theorem saved_of_load {dir : Directory} (h : load dir = some p) : p.Saved := by
  rw [Saved, load_dir h, h]

theorem saved_iff : p.Saved ↔ (load p.dir).map (·.devices) = some p.devices := by
  constructor
  · intro h
    rw [h, Option.map_some]
  · intro h
    obtain ⟨p', hload, hdevices⟩ := Option.map_eq_some_iff.mp h
    have hdir := load_dir hload
    rw [Saved, hload]
    cases p
    cases p'
    simp_all

theorem saved_save_ok (h : io.fault = none) : (p.save io).2.Saved := by
  rw [save_ok h]
  rfl

/-- After a failed save the file holds the list if the edit changed nothing. -/
theorem saved_save_failed (hsaved : p.Saved) (hedit : p.edit op now = some p')
    (h : io.fault.isSome) : (p'.save io).2.Saved ↔ p'.devices = p.devices := by
  have hjson : (p'.save io).2.dir.pairedJson = p.dir.pairedJson := by
    rw [save_failed h, edit_dir hedit]
  rw [saved_iff, load_congr hjson, saved_iff.mp hsaved, devices_save, Option.some.injEq, eq_comm]

/-! ## Which saves matter -/

/-- The device an operation is about. -/
def find (p : PairedDevices) (fp : Text) : Option PairedDevice :=
  p.devices.find? (·.fingerprint == fp)

/-- The operation changes the list: it adds a device that is not in it, removes
one that is, gives a device another name or the time of another second. -/
def Changes (p : PairedDevices) (op : Operation) (now : Nat → UInt64) : Prop :=
  match op with
  | .add fp _ => fp ∉ p.fingerprints
  | .remove fp => fp ∈ p.fingerprints
  | .rename fp name => ∃ d ∈ p.find fp, d.name ≠ name
  | .touch fp => ∃ d ∈ p.find fp, d.lastSeen ≠ now 0

instance (p : PairedDevices) (op : Operation) (now : Nat → UInt64) : Decidable (p.Changes op now) :=
  match op with
  | .add fp _ => inferInstanceAs (Decidable (fp ∉ p.fingerprints))
  | .remove fp => inferInstanceAs (Decidable (fp ∈ p.fingerprints))
  | .rename fp name => inferInstanceAs (Decidable (∃ d ∈ p.find fp, d.name ≠ name))
  | .touch fp => inferInstanceAs (Decidable (∃ d ∈ p.find fp, d.lastSeen ≠ now 0))

/-- The first device with this fingerprint splits the list. -/
theorem find_eq_some {d : PairedDevice} :
    p.find fp = some d ↔ d.fingerprint = fp ∧ ∃ before after,
      p.devices = before ++ d :: after ∧ ∀ d ∈ before, d.fingerprint ≠ fp := by
  simp [find, List.find?_eq_some_iff_append]

/-- An update is of the device that is found. -/
theorem update_eq_some {f : PairedDevice → PairedDevice} :
    p.update fp f = some p' ↔ ∃ d, d.fingerprint = fp ∧ ∃ before after,
      p.devices = before ++ d :: after ∧ (∀ d ∈ before, d.fingerprint ≠ fp) ∧
        p' = { p with devices := before ++ f d :: after } := by
  rw [update, Option.map_eq_some_iff]
  constructor
  · rintro ⟨i, hi, rfl⟩
    obtain ⟨hlt, hfp, hbefore⟩ := List.findIdx?_eq_some_iff_getElem.mp hi
    refine ⟨p.devices[i], by simpa using hfp, p.devices.take i, p.devices.drop (i + 1), ?_, ?_, ?_⟩
    · rw [← List.drop_eq_getElem_cons hlt, List.take_append_drop]
    · intro d hd
      obtain ⟨j, hj, rfl⟩ := List.mem_take_iff_getElem.mp hd
      simpa using hbefore j (by omega)
    · rw [List.modify_eq_take_cons_drop hlt]
  · rintro ⟨d, hfp, before, after, hdevices, hbefore, rfl⟩
    refine ⟨before.length, ?_, ?_⟩
    · rw [hdevices, List.findIdx?_append]
      have hnone : before.findIdx? (·.fingerprint == fp) = none := by
        simpa [List.findIdx?_eq_none_iff] using hbefore
      simp [hnone, List.findIdx?_cons, hfp]
    · rw [hdevices, List.modify_eq_take_cons_drop (by simp)]
      simp

/-- An update changes the list exactly if it changes the device. -/
theorem update_ne {f : PairedDevice → PairedDevice} :
    (∃ p', p.update fp f = some p' ∧ p'.devices ≠ p.devices) ↔ ∃ d ∈ p.find fp, f d ≠ d := by
  constructor
  · rintro ⟨p', hupdate, hne⟩
    obtain ⟨d, hfp, before, after, hdevices, hbefore, rfl⟩ := update_eq_some.mp hupdate
    refine ⟨d, find_eq_some.mpr ⟨hfp, before, after, hdevices, hbefore⟩, fun heq => hne ?_⟩
    rw [heq, hdevices]
  · rintro ⟨d, hd, hne⟩
    obtain ⟨hfp, before, after, hdevices, hbefore⟩ := find_eq_some.mp hd
    refine ⟨_, update_eq_some.mpr ⟨d, hfp, before, after, hdevices, hbefore, rfl⟩, ?_⟩
    simpa [hdevices] using hne

/-- An operation changes the list exactly if its edit does. -/
theorem changes_iff :
    p.Changes op now ↔ ∃ p', p.edit op now = some p' ∧ p'.devices ≠ p.devices := by
  cases op with
  | add fp name => simp [Changes, edit, ← contains_iff]
  | remove fp => simp [Changes, edit, contains_iff, others_eq_self]
  | rename fp name =>
      have hname (d : PairedDevice) : { d with name } ≠ d ↔ d.name ≠ name := by
        cases d
        simp [eq_comm]
      simp only [edit, update_ne, Changes, hname]
  | touch fp =>
      have hseen (d : PairedDevice) : { d with lastSeen := now 0 } ≠ d ↔ d.lastSeen ≠ now 0 := by
        cases d
        simp [eq_comm]
      simp only [edit, update_ne, Changes, hseen]

/-! ## A run of operations -/

/-- The save of an operation that changes the list does not fail. -/
def Lands (p : PairedDevices) (e : Operation × Io) : Prop :=
  p.Changes e.1 e.2.now → e.2.fault = none

instance (p : PairedDevices) (e : Operation × Io) : Decidable (p.Lands e) :=
  inferInstanceAs (Decidable (_ → _))

/-- An operation that returns an error leaves the list as it was. -/
def Restores (p : PairedDevices) (e : Operation × Io) : Prop :=
  ∀ fault, (p.run e.1 e.2).1 = .error fault → (p.run e.1 e.2).2.devices = p.devices

/-- **One operation** keeps the list in the file exactly if it lands. -/
theorem saved_run_iff (hsaved : p.Saved) (e : Operation × Io) :
    (p.run e.1 e.2).2.Saved ↔ p.Lands e := by
  rw [Lands, changes_iff, run_eq]
  cases hedit : p.edit e.1 e.2.now with
  | none => simp [hsaved]
  | some p' =>
      cases hfault : e.2.fault with
      | none => simp [saved_save_ok hfault]
      | some fault => simp [saved_save_failed hsaved hedit (Option.isSome_of_eq_some hfault)]

/-- An operation that lands changes nothing if it returns an error. -/
theorem Lands.restores {e : Operation × Io} (h : p.Lands e) : p.Restores e := by
  intro fault herror
  rw [Lands, changes_iff] at h
  rw [run_eq] at herror ⊢
  cases hedit : p.edit e.1 e.2.now with
  | none => rfl
  | some p' =>
      simp only [hedit, devices_save] at herror ⊢
      by_contra hne
      rw [save_ok (h ⟨p', hedit, hne⟩)] at herror
      simp [Except.map] at herror

/-- **A failed save changes nothing** throughout a run exactly if no save of an
operation that changes the list fails in it. -/
theorem saved_iff_lands {p₀ : PairedDevices} {dir : Directory} {es : List (Operation × Io)}
    (hload : load dir = some p₀) (hrun : machine.Run p₀ es p) :
    (machine.Throughout p₀ es Saved ∧ machine.Along p₀ es Restores) ↔
      machine.Along p₀ es Lands := by
  have hsaved₀ : p₀.Saved := saved_of_load hload
  have hiff : machine.Throughout p₀ es Saved ↔ machine.Along p₀ es Lands := by
    refine hrun.throughout_iff_along hsaved₀ fun es s e s' hs hsaved _ hstep => ?_
    rw [← Option.some.inj hstep]
    exact saved_run_iff (hsaved es [] s (by simp) hs) e
  rw [hiff, and_iff_left_iff_imp]
  intro hlands es₁ e es₂ s heq hs
  exact (hlands es₁ e es₂ s heq hs).restores

/-- The directory of a host that paired a device. -/
abbrev savedDevice (fingerprint name : String) : Directory :=
  ⟨some (.json [⟨text fingerprint, text name, 1, 1⟩]), none⟩

/-- `saved_iff_lands` for a device whose new name, the one it has, is not saved,
and that is removed after that. -/
theorem saved_iff_lands_rename :
    ∃ p₀ es p, load (savedDevice "b1" "phone") = some p₀ ∧ machine.Run p₀ es p ∧
      p.devices = [] ∧ machine.Throughout p₀ es Saved ∧ machine.Along p₀ es Restores := by
  let es : List (Operation × Io) := [(.rename (text "b1") (text "phone"), ⟨fun _ => 2, some .write⟩),
    (.remove (text "b1"), ⟨fun _ => 3, none⟩)]
  let p₀ : PairedDevices := ⟨[⟨text "b1", text "phone", 1, 1⟩], savedDevice "b1" "phone"⟩
  have hload : load (savedDevice "b1" "phone") = some p₀ := rfl
  obtain ⟨p, hrun, hempty⟩ := exists_run machine p₀ es (fun p => p.devices = []) (by decide +kernel)
  refine ⟨p₀, es, p, hload, hrun, of_decide_eq_true hempty, ?_⟩
  exact (saved_iff_lands hload hrun).mpr (by decide +kernel)

/-- The save of a removal fails: the device is out of the list, so the removal
cannot be repeated, and in the file, so a restart undoes it. -/
theorem removal_half_done :
    ∃ p₀ p, load (savedDevice "b1" "phone") = some p₀ ∧
      let failed : Operation × Io := (.remove (text "b1"), ⟨fun _ => 2, some .write⟩)
      machine.Run p₀ [failed] p ∧ (p₀.run failed.1 failed.2).1 = .error .write ∧
        ¬ p₀.Restores failed ∧ ¬ p.Saved ∧
        (p.run (.remove (text "b1")) ⟨fun _ => 3, none⟩).1 = .ok false ∧
        load p.dir = some { p₀ with dir := p.dir } := by
  refine ⟨_, _, rfl, rfl, by decide +kernel, ?_, by decide +kernel, by decide +kernel,
    by decide +kernel⟩
  intro hrestores
  exact absurd (hrestores .write (by decide +kernel)) (by decide +kernel)

end PairedDevices

end RemoteBridge
