import Mathlib.Data.Finmap
import RemoteBridge.Devices.Operations

/-!
# Devices.Map

The approved viewers as a finite map from fingerprints to entries, over
operations whose saves succeed and over deaths of the host in the middle of a
save, after which the host is started again.
-/

namespace RemoteBridge

open Unicode Machine

/-! ## The map -/

/-- What the list says of a device. -/
structure Entry where
  name : Text
  pairedAt : UInt64
  lastSeen : UInt64
deriving DecidableEq

def PairedDevice.entry (d : PairedDevice) : Entry := ⟨d.name, d.pairedAt, d.lastSeen⟩

/-- The purpose of the list: an entry for each approved fingerprint. -/
abbrev DeviceMap := Finmap fun _ : Text => Entry

namespace DeviceMap

/-- What an operation returns and what it makes of the map.  `add` overwrites no
entry. -/
def run (m : DeviceMap) (op : Operation) (now : Nat → UInt64) : Bool × DeviceMap :=
  match op with
  | .add fp name => (true, if fp ∈ m then m else m.insert fp ⟨name, now 0, now 1⟩)
  | .remove fp => (fp ∈ m, m.erase fp)
  | .rename fp name =>
      match m.lookup fp with
      | some e => (true, m.insert fp { e with name })
      | none => (false, m)
  | .touch fp =>
      match m.lookup fp with
      | some e => (true, m.insert fp { e with lastSeen := now 0 })
      | none => (true, m)

/-- Operations one after another. -/
def runs (m : DeviceMap) (ops : List (Operation × (Nat → UInt64))) : DeviceMap :=
  ops.foldl (fun m op => (m.run op.1 op.2).2) m

theorem runs_snoc (m : DeviceMap) (ops : List (Operation × (Nat → UInt64))) (op : Operation)
    (now : Nat → UInt64) : m.runs (ops ++ [(op, now)]) = ((m.runs ops).run op now).2 :=
  List.foldl_append

end DeviceMap

namespace PairedDevices

variable {p p' : PairedDevices} {op : Operation} {io : Io} {now : Nat → UInt64}
  {fp fp' name : Text}

/-- The list as a map. -/
def entries (p : PairedDevices) : DeviceMap :=
  (p.devices.map fun d => ⟨d.fingerprint, d.entry⟩ : List (Sigma fun _ : Text => Entry)).toFinmap

theorem lookup_entries (p : PairedDevices) (fp : Text) :
    p.entries.lookup fp = (p.find fp).map PairedDevice.entry := by
  rw [entries, Finmap.dlookup_list_toFinmap, find]
  induction p.devices with
  | nil => rfl
  | cons d ds ih =>
      rw [List.map_cons]
      by_cases hd : d.fingerprint = fp
      · rw [List.find?_cons_of_pos (by simp [hd]), ← hd, List.dlookup_cons_eq, Option.map_some]
      · rw [List.find?_cons_of_neg (by simp [hd]), List.dlookup_cons_ne _ _ (Ne.symm hd), ih]

theorem mem_entries : fp ∈ p.entries ↔ p.contains fp := by
  rw [← Finmap.lookup_isSome, lookup_entries, Option.isSome_map, find, List.find?_isSome, contains,
    List.any_eq_true]

/-! ## What the operations do to the map -/

theorem find_append (ds : List PairedDevice) (d : PairedDevice) (dir : Directory) :
    find ⟨ds ++ [d], dir⟩ fp =
      (find ⟨ds, dir⟩ fp).or (if d.fingerprint = fp then some d else none) := by
  rw [find, List.find?_append]
  by_cases hd : d.fingerprint = fp <;> simp [find, hd]

theorem find_others :
    find { p with devices := p.others fp } fp' = if fp' = fp then none else p.find fp' := by
  rw [find, others, List.find?_filter, find]
  split
  · next heq => simp [heq]
  · next hne =>
    congr 1
    funext d
    by_cases hd : d.fingerprint = fp' <;> simp [hd, hne]

theorem find_update {f : PairedDevice → PairedDevice} (h : p.update fp f = some p')
    (hf : ∀ d, (f d).fingerprint = d.fingerprint) :
    p'.find fp' = if fp' = fp then (p.find fp).map f else p.find fp' := by
  obtain ⟨d, hfp, before, after, hdevices, hbefore, rfl⟩ := update_eq_some.mp h
  have hnone : before.find? (·.fingerprint == fp) = none := by simpa using hbefore
  simp only [find, hdevices, List.find?_append]
  by_cases hfp' : fp' = fp
  · rw [if_pos hfp', hfp', hnone, List.find?_cons_of_pos (by simp [hf, hfp]),
      List.find?_cons_of_pos (by simp [hfp])]
    rfl
  · have hne : d.fingerprint ≠ fp' := fun heq => hfp' (heq.symm.trans hfp)
    rw [if_neg hfp', List.find?_cons_of_neg (by simp [hf, hne]),
      List.find?_cons_of_neg (by simp [hne])]

theorem update_eq_none {f : PairedDevice → PairedDevice} :
    p.update fp f = none ↔ p.find fp = none := by
  simp [update, find]

theorem entries_ext {m : DeviceMap} (h : ∀ fp, (p.find fp).map PairedDevice.entry = m.lookup fp) :
    p.entries = m :=
  Finmap.ext_lookup fun fp => (lookup_entries p fp).trans (h fp)

/-- An operation that saves nothing is one the map ignores. -/
theorem run_entries_of_edit_eq_none (hedit : p.edit op now = none) :
    p.entries.run op now = (idle op, p.entries) := by
  cases op with
  | add fp name =>
      have hfp : p.contains fp := by simpa [edit] using hedit
      simp [idle, DeviceMap.run, mem_entries, hfp]
  | remove fp =>
      have hfp : fp ∉ p.entries := by simpa [edit, mem_entries] using hedit
      have herase : p.entries.erase fp = p.entries := by
        refine Finmap.ext_lookup fun fp' => ?_
        by_cases heq : fp' = fp
        · rw [heq, Finmap.lookup_erase, Finmap.lookup_eq_none.mpr hfp]
        · rw [Finmap.lookup_erase_ne heq]
      simp [idle, DeviceMap.run, hfp, herase]
  | rename fp name =>
      have hfp := update_eq_none.mp hedit
      simp [idle, DeviceMap.run, lookup_entries, hfp]
  | touch fp =>
      have hfp := update_eq_none.mp hedit
      simp [idle, DeviceMap.run, lookup_entries, hfp]

/-- An update of one device is an insertion of its new entry. -/
theorem entries_update {f : PairedDevice → PairedDevice} (h : p.update fp f = some p')
    (hf : ∀ d, (f d).fingerprint = d.fingerprint) :
    ∃ d, p.find fp = some d ∧ p'.entries = p.entries.insert fp (f d).entry := by
  have hne : p.update fp f ≠ none := by simp [h]
  obtain ⟨d, hd⟩ := Option.ne_none_iff_exists'.mp (mt update_eq_none.mpr hne)
  refine ⟨d, hd, entries_ext fun fp' => ?_⟩
  rw [find_update h hf]
  by_cases heq : fp' = fp
  · rw [if_pos heq, hd, heq, Finmap.lookup_insert]
    rfl
  · rw [if_neg heq, Finmap.lookup_insert_of_ne _ heq, lookup_entries]

/-- What an operation saves is what it makes of the map. -/
theorem entries_edit (hedit : p.edit op now = some p') :
    p.entries.run op now = (true, p'.entries) := by
  cases op with
  | add fp name =>
      rw [edit, Option.ite_none_left_eq_some] at hedit
      obtain ⟨hfp, hedit⟩ := hedit
      obtain rfl := Option.some.inj hedit
      have hout : fp ∉ p.entries := mt mem_entries.mp hfp
      have hfind : p.find fp = none := by
        rwa [← Finmap.lookup_eq_none, lookup_entries, Option.map_eq_none_iff] at hout
      rw [DeviceMap.run, if_neg hout]
      refine congrArg (Prod.mk true) (Eq.symm (entries_ext fun fp' => ?_))
      rw [find_append]
      by_cases heq : fp' = fp
      · rw [heq, hfind, if_pos rfl, Finmap.lookup_insert]
        rfl
      · rw [if_neg (Ne.symm heq), Option.or_none, Finmap.lookup_insert_of_ne _ heq, lookup_entries]
  | remove fp =>
      rw [edit, Option.ite_none_right_eq_some] at hedit
      obtain ⟨hfp, hedit⟩ := hedit
      obtain rfl := Option.some.inj hedit
      rw [DeviceMap.run, decide_eq_true (mem_entries.mpr hfp)]
      refine congrArg (Prod.mk true) (Eq.symm (entries_ext fun fp' => ?_))
      rw [find_others]
      by_cases heq : fp' = fp
      · rw [if_pos heq, heq, Finmap.lookup_erase, Option.map_none]
      · rw [if_neg heq, Finmap.lookup_erase_ne heq, lookup_entries]
  | rename fp name =>
      obtain ⟨d, hd, hentries⟩ := entries_update hedit fun _ => rfl
      simp [DeviceMap.run, lookup_entries, hd, hentries, PairedDevice.entry]
  | touch fp =>
      obtain ⟨d, hd, hentries⟩ := entries_update hedit fun _ => rfl
      simp [DeviceMap.run, lookup_entries, hd, hentries, PairedDevice.entry]

/-- **Operations** do to the list what they do to the map, and return the same. -/
theorem run_entries (p : PairedDevices) (op : Operation) (io : Io) (h : io.fault = none) :
    (p.run op io).1 = .ok (p.entries.run op io.now).1 ∧
      (p.run op io).2.entries = (p.entries.run op io.now).2 := by
  rw [run_eq]
  cases hedit : p.edit op io.now with
  | none =>
      rw [run_entries_of_edit_eq_none hedit]
      exact ⟨rfl, rfl⟩
  | some p' =>
      rw [entries_edit hedit]
      dsimp only
      rw [save_ok h]
      exact ⟨rfl, rfl⟩

/-! ## Deaths -/

/-- Where a save ends when the process dies in it. -/
inductive Death where
  /-- before the temporary file is opened -/
  | createDir
  /-- while the text is written: the temporary file holds a part of it -/
  | write (part : File)
  /-- before the rename -/
  | rename
  /-- after it -/
  | renamed

/-- What a save of this list leaves in the directory. -/
def dying (p : PairedDevices) : Death → Directory
  | .createDir => p.dir
  | .write part => { p.dir with tmp := some part }
  | .rename => { p.dir with tmp := some (.json p.devices) }
  | .renamed => ⟨some (.json p.devices), none⟩

/-- What an operation leaves in the directory; one that saves nothing, what it
finds there. -/
def left (p : PairedDevices) (op : Operation) (now : Nat → UInt64) (death : Death) : Directory :=
  match p.edit op now with
  | some p' => p'.dying death
  | none => p.dir

/-- A save that returns leaves what one leaves that died at the same step. -/
theorem exists_dying (p : PairedDevices) (io : Io) :
    ∃ death, (p.save io).2.dir = p.dying death := by
  unfold save
  split
  · exact ⟨.createDir, rfl⟩
  · exact ⟨.write .garbage, rfl⟩
  · exact ⟨.rename, rfl⟩
  · exact ⟨.renamed, rfl⟩

inductive StoreEvent where
  /-- an operation whose save succeeds -/
  | done (op : Operation) (now : Nat → UInt64)
  /-- an operation in which the host dies; it is started again -/
  | died (op : Operation) (now : Nat → UInt64) (death : Death)

/-- The approved viewers over operations and deaths. -/
def store : Machine PairedDevices StoreEvent where
  step p
    | .done op now => some (p.run op ⟨now, none⟩).2
    | .died op now death => load (p.left op now death)

/-- The load after a death gives the list from before the operation or the one
from after it. -/
theorem load_left (hsaved : p.Saved) (op : Operation) (now : Nat → UInt64) (death : Death) :
    ∃ p', load (p.left op now death) = some p' ∧
      (p'.devices = p.devices ∨ p'.devices = (p.run op ⟨now, none⟩).2.devices) := by
  have hold : ∀ dir : Directory, dir.pairedJson = p.dir.pairedJson →
      ∃ p', load dir = some p' ∧ p'.devices = p.devices := by
    intro dir hdir
    have hload := load_congr hdir
    rwa [saved_iff.mp hsaved, Option.map_eq_some_iff] at hload
  rw [run_eq, left]
  cases hedit : p.edit op now with
  | none =>
      obtain ⟨p', hload, hdevices⟩ := hold p.dir rfl
      exact ⟨p', hload, .inl hdevices⟩
  | some p₁ =>
      have hdir := edit_dir hedit
      cases death with
      | createDir =>
          obtain ⟨p', hload, hdevices⟩ := hold (p₁.dying .createDir) (by rw [dying, hdir])
          exact ⟨p', hload, .inl hdevices⟩
      | write part =>
          obtain ⟨p', hload, hdevices⟩ := hold (p₁.dying (.write part)) (by rw [dying, hdir])
          exact ⟨p', hload, .inl hdevices⟩
      | rename =>
          obtain ⟨p', hload, hdevices⟩ := hold (p₁.dying .rename) (by rw [dying, hdir])
          exact ⟨p', hload, .inl hdevices⟩
      | renamed => exact ⟨⟨p₁.devices, p₁.dying .renamed⟩, rfl, .inr (devices_save p₁ _).symm⟩

/-! ## Every run -/

/-- The list is the map: an entry for each of its devices, which have different
fingerprints. -/
structure Represents (p : PairedDevices) (m : DeviceMap) : Prop where
  distinct : p.fingerprints.Nodup
  mem : ∀ d, d ∈ p.devices ↔ m.lookup d.fingerprint = some d.entry
  contains : ∀ fp, p.contains fp ↔ fp ∈ m

/-- Among devices with different fingerprints each is the one found by its own. -/
theorem find_eq_some_iff (h : p.fingerprints.Nodup) {d : PairedDevice} :
    p.find fp = some d ↔ d ∈ p.devices ∧ d.fingerprint = fp := by
  rw [find_eq_some]
  constructor
  · rintro ⟨hfp, before, after, hdevices, -⟩
    exact ⟨by simp [hdevices], hfp⟩
  · rintro ⟨hd, hfp⟩
    obtain ⟨before, after, hdevices⟩ := List.append_of_mem hd
    refine ⟨hfp, before, after, hdevices, fun d' hd' heq => ?_⟩
    rw [fingerprints, hdevices, List.map_append, List.map_cons, List.nodup_append] at h
    exact h.2.2 _ (List.mem_map_of_mem hd') _ List.mem_cons_self (heq.trans hfp.symm)

theorem entry_inj {d d' : PairedDevice} (hfp : d.fingerprint = d'.fingerprint)
    (hentry : d.entry = d'.entry) : d = d' := by
  cases d
  cases d'
  simp_all [PairedDevice.entry]

theorem represents_entries (h : p.fingerprints.Nodup) : p.Represents p.entries := by
  refine ⟨h, fun d => ?_, fun fp => mem_entries.symm⟩
  rw [lookup_entries, Option.map_eq_some_iff]
  constructor
  · intro hd
    exact ⟨d, (find_eq_some_iff h).mpr ⟨hd, rfl⟩, rfl⟩
  · rintro ⟨d', hfind, hentry⟩
    obtain ⟨hd', hfp⟩ := (find_eq_some_iff h).mp hfind
    rwa [← entry_inj hfp hentry]

theorem nodup_edit (h : p.fingerprints.Nodup) (hedit : p.edit op now = some p') :
    p'.fingerprints.Nodup := by
  cases op with
  | add fp name =>
      rw [edit, Option.ite_none_left_eq_some] at hedit
      obtain ⟨hfp, hedit⟩ := hedit
      rw [← Option.some.inj hedit, fingerprints, List.map_append]
      exact h.append (List.nodup_singleton fp) (by simpa using mt contains_iff.mpr hfp)
  | remove fp =>
      rw [edit, Option.ite_none_right_eq_some] at hedit
      rw [← Option.some.inj hedit.2]
      exact h.sublist (List.filter_sublist.map _)
  | rename fp name => exact fingerprints_update hedit (fun _ => rfl) ▸ h
  | touch fp => exact fingerprints_update hedit (fun _ => rfl) ▸ h

theorem nodup_run (h : p.fingerprints.Nodup) (op : Operation) (io : Io) :
    (p.run op io).2.fingerprints.Nodup := by
  rw [run_eq]
  cases hedit : p.edit op io.now with
  | none => exact h
  | some p' =>
      dsimp only
      rw [fingerprints, devices_save]
      exact nodup_edit h hedit

theorem saved_run (hsaved : p.Saved) (op : Operation) (now : Nat → UInt64) :
    (p.run op ⟨now, none⟩).2.Saved :=
  (saved_run_iff hsaved (op, ⟨now, none⟩)).mpr fun _ => rfl

/-- The operations of a run that took effect: all that were done, and of those
the host died in some. -/
inductive Took : List StoreEvent → List (Operation × (Nat → UInt64)) → Prop
  | nil : Took [] []
  | done {es ops} (op : Operation) (now : Nat → UInt64) (took : Took es ops) :
      Took (es ++ [.done op now]) (ops ++ [(op, now)])
  | lost {es ops} (op : Operation) (now : Nat → UInt64) (death : Death) (took : Took es ops) :
      Took (es ++ [.died op now death]) ops
  | kept {es ops} (op : Operation) (now : Nat → UInt64) (death : Death) (took : Took es ops) :
      Took (es ++ [.died op now death]) (ops ++ [(op, now)])

/-- A file the host wrote, or none. -/
def Written (dir : Directory) : Prop :=
  dir.pairedJson = none ∨
    ∃ devices, dir.pairedJson = some (.json devices) ∧ (devices.map (·.fingerprint)).Nodup

theorem load_written {dir : Directory} (h : Written dir) :
    ∃ p, load dir = some p ∧ p.fingerprints.Nodup := by
  rcases h with hnone | ⟨devices, hjson, hdistinct⟩
  · exact ⟨⟨[], dir⟩, by rw [load, hnone], List.nodup_nil⟩
  · exact ⟨⟨devices, dir⟩, by rw [load, hjson], hdistinct⟩

/-- What the list is at any time: a map, in the file as in memory, on which the
next operation does what the map's does, and which a death in it leaves as it was
or as the operation would have left it. -/
structure Stands (p : PairedDevices) (m : DeviceMap) : Prop where
  represents : p.Represents m
  saved : p.Saved
  next : ∀ op now, (p.run op ⟨now, none⟩).1 = .ok (m.run op now).1
  death : ∀ op now death, ∃ p', load (p.left op now death) = some p' ∧
    (p'.devices = p.devices ∨ p'.devices = (p.run op ⟨now, none⟩).2.devices)

theorem stands_entries (h : p.fingerprints.Nodup) (hsaved : p.Saved) : p.Stands p.entries where
  represents := represents_entries h
  saved := hsaved
  next op now := (run_entries p op ⟨now, none⟩ rfl).1
  death := load_left hsaved

/-- **The approved viewers are a map that survives a crash.** -/
theorem stands_of_run {dir : Directory} (hdir : Written dir) :
    ∃ p₀, load dir = some p₀ ∧ ∀ es p, store.Run p₀ es p →
      ∃ ops, Took es ops ∧ p.Stands (DeviceMap.runs p₀.entries ops) := by
  obtain ⟨p₀, hload, hdistinct₀⟩ := load_written hdir
  refine ⟨p₀, hload, fun es p hrun => ?_⟩
  have hinv : p.fingerprints.Nodup ∧ p.Saved ∧
      ∃ ops, Took es ops ∧ p.entries = DeviceMap.runs p₀.entries ops := by
    refine hrun.rec_snoc (P := fun es p => p.fingerprints.Nodup ∧ p.Saved ∧
      ∃ ops, Took es ops ∧ p.entries = DeviceMap.runs p₀.entries ops)
      ⟨hdistinct₀, saved_of_load hload, [], .nil, rfl⟩ ?_
    rintro es e p p' - ⟨hdistinct, hsaved, ops, htook, hentries⟩ hstep
    cases e with
    | done op now =>
        obtain rfl := Option.some.inj hstep
        obtain ⟨-, hrun⟩ := run_entries p op ⟨now, none⟩ rfl
        refine ⟨nodup_run hdistinct op _, saved_run hsaved op now, _, htook.done op now, ?_⟩
        rw [hrun, hentries, DeviceMap.runs_snoc]
    | died op now death =>
        obtain ⟨p₁, hload, hdevices⟩ := load_left hsaved op now death
        obtain rfl := Option.some.inj (hload.symm.trans hstep)
        have hsaved' := saved_of_load hload
        rcases hdevices with hold | hnew
        · refine ⟨?_, hsaved', ops, htook.lost op now death, ?_⟩
          · rwa [fingerprints, hold]
          · rw [entries, hold, ← hentries, entries]
        · obtain ⟨-, hrun⟩ := run_entries p op ⟨now, none⟩ rfl
          refine ⟨?_, hsaved', _, htook.kept op now death, ?_⟩
          · rw [fingerprints, hnew]
            exact nodup_run hdistinct op _
          · rw [DeviceMap.runs_snoc, ← hentries, ← hrun, entries, hnew, entries]
  obtain ⟨hdistinct, hsaved, ops, htook, hentries⟩ := hinv
  exact ⟨ops, htook, hentries ▸ stands_entries hdistinct hsaved⟩

/-- `stands_of_run` for a host that pairs a device and dies while it removes it. -/
theorem stands_of_run_died :
    ∃ p₀ es p ops, load ⟨none, none⟩ = some p₀ ∧ store.Run p₀ es p ∧
      p.fingerprints = [text "b1"] ∧ Took es ops ∧ p.Stands (DeviceMap.runs p₀.entries ops) := by
  let es : List StoreEvent := [.done (.add (text "b1") (text "phone")) fun _ => 1,
    .died (.remove (text "b1")) (fun _ => 2) (.write .garbage)]
  obtain ⟨p₀, hload, hruns⟩ := stands_of_run (.inl rfl : Written ⟨none, none⟩)
  obtain rfl := Option.some.inj hload
  obtain ⟨p, hrun, hfps⟩ := exists_run store ⟨[], ⟨none, none⟩⟩ es
    (fun p => p.fingerprints = [text "b1"]) (by decide +kernel)
  obtain ⟨ops, htook, hstands⟩ := hruns es p hrun
  exact ⟨_, es, p, ops, hload, hrun, of_decide_eq_true hfps, htook, hstands⟩

end PairedDevices

end RemoteBridge
