import RemoteBridge.Machine
import RemoteBridge.Unicode

/-!
# Pairing.Certificate

The host's certificate on disk (`pairing.rs`): read where there is a file, else created and
written to a new one.

A start of the host may fail or be killed at every step.  What a start leaves is the file, and
its mere existence decides what the next one does.
-/

namespace RemoteBridge.Certificate

open Unicode

variable {C F : Type}

/-! ## Certificates as text -/

/-- `serialize_pem` and `from_pem`, which are not under `src/`: from_pem accepts the complete
texts, and gives back the certificate.  A part of a complete text is not complete. -/
structure Pem (C : Type) where
  serialize : C → Text
  fromPem : Text → Option C
  fromPem_eq_some_iff : ∀ {t c}, fromPem t = some c ↔ t = serialize c
  serialize_ne_nil : ∀ c, serialize c ≠ []
  prefix_free : ∀ {c c'}, serialize c <+: serialize c' → c = c'

/-! ## A call -/

/-- What becomes of a step. -/
inductive Outcome where
  | done
  | failed
  | killed
deriving DecidableEq

/-- What becomes of the step that opens a new file: one that is killed may have created it. -/
inductive Opening where
  | done
  | failed
  | killed (created : Bool)
deriving DecidableEq

/-- What becomes of the write: one that does not end leaves the first `n` characters. -/
inductive Writing where
  | done
  | failed (n : Nat)
  | killed (n : Nat)
deriving DecidableEq

/-- What the outside decides in one call. -/
structure Call (C : Type) where
  lookup : Outcome
  read : Outcome
  createDir : Outcome
  generate : Outcome
  fresh : C
  openNew : Opening
  write : Writing

inductive CertificateError where
  | read
  | pem
  | createDir
  | generate
  | openNew
  | write
deriving DecidableEq

/-- How a call ends. -/
inductive Ending (C : Type) where
  | returned (cert : C)
  | error (e : CertificateError)
  | killed
deriving DecidableEq

/-- A step that leaves the file as it is, and what is done after it. -/
def attempt (outcome : Outcome) (e : CertificateError) (file : Option Text)
    (next : Ending C × Option Text) : Ending C × Option Text :=
  match outcome with
  | .done => next
  | .failed => (.error e, file)
  | .killed => (.killed, file)

/-- The branch for a file that exists. -/
def load (pem : Pem C) (t : Text) (call : Call C) : Ending C × Option Text :=
  attempt call.read .read (some t)
    (match pem.fromPem t with
    | some cert => (.returned cert, some t)
    | none => (.error .pem, some t))

/-- `write_all` to the new file. -/
def writeAll (pem : Pem C) (call : Call C) : Ending C × Option Text :=
  match call.write with
  | .done => (.returned call.fresh, some (pem.serialize call.fresh))
  | .failed n => (.error .write, some ((pem.serialize call.fresh).take n))
  | .killed n => (.killed, some ((pem.serialize call.fresh).take n))

/-- `create_new`: a file that is there after all is not opened. -/
def createNew (pem : Pem C) (file : Option Text) (call : Call C) : Ending C × Option Text :=
  match call.openNew, file with
  | .killed true, none => (.killed, some [])
  | .killed _, _ => (.killed, file)
  | .failed, _ | .done, some _ => (.error .openNew, file)
  | .done, none => writeAll pem call

/-- Loads the host's DTLS certificate, creating it on first run.  A lookup that fails finds
no file.  (A file in the directory says that there is one; else it is made.) -/
def loadOrCreateCertificate (pem : Pem C) (file : Option Text) (call : Call C) :
    Ending C × Option Text :=
  match call.lookup, file with
  | .killed, _ => (.killed, file)
  | .done, some t => load pem t call
  | _, _ =>
      attempt call.createDir .createDir file
        (attempt call.generate .generate file (createNew pem file call))

/-! ## Starts of the host -/

/-- The file, and the certificates that were returned so far, the last one first. -/
structure Disk (C : Type) where
  file : Option Text
  returned : List C
deriving DecidableEq

/-- Before the first run. -/
def Disk.init : Disk C := { file := none, returned := [] }

def Ending.certificates : Ending C → List C
  | .returned cert => [cert]
  | .error _ | .killed => []

/-- One start after another. -/
def machine (pem : Pem C) : Machine (Disk C) (Call C) where
  step s call :=
    let (ending, file) := loadOrCreateCertificate pem s.file call
    some { file := file, returned := ending.certificates ++ s.returned }

/-- A call that meets no failure. -/
structure Call.Faultless (call : Call C) : Prop where
  lookup : call.lookup = .done
  read : call.read = .done
  createDir : call.createDir = .done
  generate : call.generate = .done
  openNew : call.openNew = .done
  write : call.write = .done

/-- A call that meets no failure returns a certificate. -/
def Startable (pem : Pem C) (s : Disk C) : Prop :=
  ∀ call : Call C, call.Faultless →
    ∃ cert, (loadOrCreateCertificate pem s.file call).1 = .returned cert

/-- The certificates that were returned have one fingerprint. -/
def SameFingerprint (fingerprint : C → F) (s : Disk C) : Prop :=
  ∀ c ∈ s.returned, ∀ c' ∈ s.returned, fingerprint c = fingerprint c'

def Writing.cutBefore : Writing → Nat → Bool
  | .done, _ => false
  | .failed n, len | .killed n, len => n < len

/-- The call, where there is no file, creates it and ends before the whole text is in it. -/
def CutShort (pem : Pem C) (call : Call C) : Prop :=
  call.lookup ≠ .killed ∧ call.createDir = .done ∧ call.generate = .done ∧
    (call.openNew = .killed true ∨
      call.openNew = .done ∧ call.write.cutBefore (pem.serialize call.fresh).length)

/-- A start that leaves a part of the text as the file. -/
def Torn (pem : Pem C) (s : Disk C) (call : Call C) : Prop := s.file = none ∧ CutShort pem call

instance (pem : Pem C) (s : Disk C) (call : Call C) : Decidable (Torn pem s call) :=
  inferInstanceAs (Decidable (_ ∧ _ ∧ _))

/-! ## What one call does -/

section

variable {pem : Pem C} {call : Call C}

/-- A step that does not end ends the call: no certificate, and the file as it was. -/
theorem attempt_cases (outcome : Outcome) (e : CertificateError) (file : Option Text)
    (next : Ending C × Option Text) :
    outcome = .done ∧ attempt outcome e file next = next ∨
      outcome ≠ .done ∧ (attempt outcome e file next).1.certificates = [] ∧
        (attempt outcome e file next).2 = file := by
  cases outcome with
  | done => exact .inl ⟨rfl, rfl⟩
  | failed | killed => exact .inr ⟨by decide, rfl, rfl⟩

/-- A file that is there stays as it is, and a certificate that is returned is the file's. -/
def Keeps (pem : Pem C) (t : Text) (result : Ending C × Option Text) : Prop :=
  result.2 = some t ∧ ∀ c ∈ result.1.certificates, t = pem.serialize c

theorem Keeps.attempt {t : Text} {next : Ending C × Option Text} (h : Keeps pem t next)
    (outcome : Outcome) (e : CertificateError) :
    Keeps pem t (attempt outcome e (some t) next) := by
  obtain ⟨-, hnext⟩ | ⟨-, hnone, hfile⟩ := attempt_cases outcome e (some t) next
  · rwa [hnext]
  · exact ⟨hfile, by simp [hnone]⟩

theorem keeps_load (pem : Pem C) (t : Text) (call : Call C) : Keeps pem t (load pem t call) := by
  refine Keeps.attempt ?_ call.read .read
  split
  · next cert hcert =>
    exact ⟨rfl, fun c hc => by
      obtain rfl := List.mem_singleton.mp hc
      exact pem.fromPem_eq_some_iff.mp hcert⟩
  · exact ⟨rfl, by simp [Ending.certificates]⟩

theorem keeps_createNew (pem : Pem C) (t : Text) (call : Call C) :
    Keeps pem t (createNew pem (some t) call) := by
  unfold createNew
  cases call.openNew with
  | done | failed => exact ⟨rfl, by simp [Ending.certificates]⟩
  | killed created => cases created <;> exact ⟨rfl, by simp [Ending.certificates]⟩

/-- Where there is a file. -/
theorem keeps_loadOrCreateCertificate (pem : Pem C) (t : Text) (call : Call C) :
    Keeps pem t (loadOrCreateCertificate pem (some t) call) := by
  unfold loadOrCreateCertificate
  cases call.lookup with
  | killed => exact ⟨rfl, by simp [Ending.certificates]⟩
  | done => exact keeps_load pem t call
  | failed => exact ((keeps_createNew pem t call).attempt _ _).attempt _ _

/-- What is left where there was no file: none, the whole text of the new certificate, or, if
the call is cut short, a part of it. -/
def Leaves (pem : Pem C) (call : Call C) (cut : Prop) (result : Ending C × Option Text) : Prop :=
  ¬ cut ∧ result.2 = none ∧ result.1.certificates = [] ∨
    ¬ cut ∧ result.2 = some (pem.serialize call.fresh) ∧
      result.1.certificates ⊆ [call.fresh] ∨
    cut ∧ result.1.certificates = [] ∧ ∃ part, result.2 = some part ∧
      part <+: pem.serialize call.fresh ∧ part ≠ pem.serialize call.fresh

/-- A step before is done, or nothing is left. -/
theorem Leaves.attempt {cut : Prop} {next : Ending C × Option Text} (h : Leaves pem call cut next)
    (outcome : Outcome) (e : CertificateError) :
    Leaves pem call (outcome = .done ∧ cut) (attempt outcome e none next) := by
  obtain ⟨hdone, hnext⟩ | ⟨hnot, hnone, hfile⟩ := attempt_cases outcome e none next
  · have hcut : (outcome = .done ∧ cut) = cut := by simp [hdone]
    rwa [hnext, hcut]
  · exact .inl ⟨fun hcut => hnot hcut.1, hfile, hnone⟩

/-- The first characters of the text, as many as were written. -/
theorem leaves_take (pem : Pem C) (call : Call C) (n : Nat) {ending : Ending C}
    (h : ending.certificates = []) :
    Leaves pem call (n < (pem.serialize call.fresh).length)
      (ending, some ((pem.serialize call.fresh).take n)) := by
  by_cases hn : n < (pem.serialize call.fresh).length
  · refine .inr (.inr ⟨hn, h, _, rfl, List.take_prefix n _, fun heq => ?_⟩)
    have hlen := congrArg List.length heq
    rw [List.length_take] at hlen
    omega
  · refine .inr (.inl ⟨hn, ?_, by simp [h]⟩)
    rw [List.take_of_length_le (by omega)]

theorem leaves_writeAll (pem : Pem C) (call : Call C) :
    Leaves pem call (call.write.cutBefore (pem.serialize call.fresh).length)
      (writeAll pem call) := by
  unfold writeAll
  cases call.write with
  | done => exact .inr (.inl ⟨by simp [Writing.cutBefore], rfl, List.Subset.refl _⟩)
  | failed n | killed n =>
      simpa [Writing.cutBefore] using leaves_take pem call n rfl

theorem leaves_createNew (pem : Pem C) (call : Call C) :
    Leaves pem call (call.openNew = .killed true ∨
        call.openNew = .done ∧ call.write.cutBefore (pem.serialize call.fresh).length)
      (createNew pem none call) := by
  unfold createNew
  cases call.openNew with
  | done => simpa using leaves_writeAll pem call
  | failed => exact .inl ⟨by simp, rfl, rfl⟩
  | killed created =>
      cases created with
      | false => exact .inl ⟨by simp, rfl, rfl⟩
      | true =>
          exact .inr (.inr ⟨.inl rfl, rfl, [], rfl, List.nil_prefix,
            (pem.serialize_ne_nil call.fresh).symm⟩)

/-- Where there is none. -/
theorem leaves_loadOrCreateCertificate (pem : Pem C) (call : Call C) :
    Leaves pem call (CutShort pem call) (loadOrCreateCertificate pem none call) := by
  have hsteps := ((leaves_createNew pem call).attempt call.generate .generate).attempt
    call.createDir .createDir
  unfold loadOrCreateCertificate
  cases hlookup : call.lookup with
  | killed => exact .inl ⟨fun h => h.1 hlookup, rfl, rfl⟩
  | done | failed => simpa [CutShort, hlookup] using hsteps

end

/-! ## Over all starts -/

section

variable {pem : Pem C} {s s' : Disk C} {call : Call C} {es : List (Call C)}

/-- The certificates that were returned are the file's. -/
def Stored (pem : Pem C) (s : Disk C) : Prop :=
  ∀ c ∈ s.returned, s.file = some (pem.serialize c)

theorem serialize_inj {c c' : C} (h : pem.serialize c = pem.serialize c') : c = c' := by
  have hc := pem.fromPem_eq_some_iff.mpr h
  rwa [pem.fromPem_eq_some_iff.mpr rfl, Option.some.injEq] at hc

theorem step_eq (h : (machine pem).step s call = some s') :
    s'.file = (loadOrCreateCertificate pem s.file call).2 ∧
      s'.returned = (loadOrCreateCertificate pem s.file call).1.certificates ++ s.returned := by
  obtain rfl := Option.some.inj h
  exact ⟨rfl, rfl⟩

/-- Whatever fails, no step changes what is returned. -/
theorem stored_step (hs : Stored pem s) (h : (machine pem).step s call = some s') :
    Stored pem s' := by
  obtain ⟨hfile, hreturned⟩ := step_eq h
  intro c hc
  rw [hreturned, List.mem_append] at hc
  cases hexists : s.file with
  | some t =>
      obtain ⟨hkept, hread⟩ := keeps_loadOrCreateCertificate pem t call
      rw [hexists] at hfile hc
      rw [hfile, hkept]
      rcases hc with hnew | hold
      · rw [hread c hnew]
      · rw [← hexists, hs c hold]
  | none =>
      have hnone : s.returned = [] := List.eq_nil_iff_forall_not_mem.mpr fun c hc => by
        simp [hs c hc] at hexists
      rw [hexists, hnone] at hc
      rw [hexists] at hfile
      rcases leaves_loadOrCreateCertificate pem call with
        ⟨-, -, hcert⟩ | ⟨-, hwhole, hcert⟩ | ⟨-, hcert, -⟩
      · simp [hcert] at hc
      · obtain rfl : c = call.fresh := by
          rcases hc with hnew | hold
          · exact List.mem_singleton.mp (hcert hnew)
          · contradiction
        rw [hfile, hwhole]
      · simp [hcert] at hc

/-- **One certificate**: in every run, all that is returned is one certificate, whatever
fails. -/
theorem stored_of_run (h : (machine pem).Run Disk.init es s) : Stored pem s :=
  h.invariant (by simp [Stored, Disk.init]) fun _ _ _ hs hstep => stored_step hs hstep

theorem Stored.sameFingerprint (hs : Stored pem s) (fingerprint : C → F) :
    SameFingerprint fingerprint s := by
  intro c hc c' hc'
  have heq : some (pem.serialize c) = some (pem.serialize c') := by rw [← hs c hc, hs c' hc']
  rw [serialize_inj (Option.some.inj heq)]

/-- Without a file, a call that meets no failure makes a certificate. -/
theorem startable_of_none (h : s.file = none) : Startable pem s := by
  intro call hcall
  refine ⟨call.fresh, ?_⟩
  simp [loadOrCreateCertificate, h, hcall.lookup, hcall.createDir, hcall.generate, attempt,
    createNew, hcall.openNew, writeAll, hcall.write]

/-- With one, it returns the certificate that the file is the text of. -/
theorem load_of_faultless {t : Text} (h : s.file = some t) (hcall : call.Faultless) :
    (loadOrCreateCertificate pem s.file call).1 =
      match pem.fromPem t with
      | some cert => .returned cert
      | none => .error .pem := by
  have hload : loadOrCreateCertificate pem (some t) call = load pem t call := by
    simp only [loadOrCreateCertificate, hcall.lookup]
  rw [h, hload, load, hcall.read, attempt]
  cases pem.fromPem t <;> rfl

/-- A call that meets no failure, and makes this certificate if there is none. -/
def making (cert : C) : Call C where
  lookup := .done
  read := .done
  createDir := .done
  generate := .done
  fresh := cert
  openNew := .done
  write := .done

theorem faultless_making (cert : C) : (making cert).Faultless := ⟨rfl, rfl, rfl, rfl, rfl, rfl⟩

theorem startable_of_complete {cert : C} (h : s.file = some (pem.serialize cert)) :
    Startable pem s := fun call hcall =>
  ⟨cert, by rw [load_of_faultless h hcall, pem.fromPem_eq_some_iff.mpr rfl]⟩

/-- A part of a text is never read. -/
theorem not_startable_of_part {cert : C} {part : Text} (h : s.file = some part)
    (hpart : part <+: pem.serialize cert) (hne : part ≠ pem.serialize cert) :
    ¬ Startable pem s := by
  intro hstart
  obtain ⟨c, hc⟩ := hstart (making cert) (faultless_making cert)
  rw [load_of_faultless h (faultless_making cert)] at hc
  cases hread : pem.fromPem part with
  | none =>
      rw [hread] at hc
      contradiction
  | some c' =>
      have hcomplete := pem.fromPem_eq_some_iff.mp hread
      rw [hcomplete] at hpart hne
      exact hne (by rw [pem.prefix_free hpart])

/-- A start that is possible leaves another one possible, exactly if it does not tear the
file. -/
theorem startable_step_iff (hs : Startable pem s) (h : (machine pem).step s call = some s') :
    Startable pem s' ↔ ¬ Torn pem s call := by
  obtain ⟨hfile, -⟩ := step_eq h
  cases hexists : s.file with
  | some t =>
      rw [hexists, (keeps_loadOrCreateCertificate pem t call).1] at hfile
      have hsame : Startable pem s' := by
        intro call' hcall'
        rw [hfile, ← hexists]
        exact hs call' hcall'
      exact iff_of_true hsame fun htorn => by simp [Torn, hexists] at htorn
  | none =>
      rw [hexists] at hfile
      rcases leaves_loadOrCreateCertificate pem call with
        ⟨hcut, hnone, -⟩ | ⟨hcut, hwhole, -⟩ | ⟨hcut, -, part, hleft, hpart, hne⟩
      · exact iff_of_true (startable_of_none (hfile.trans hnone)) fun htorn => hcut htorn.2
      · exact iff_of_true (startable_of_complete (hfile.trans hwhole)) fun htorn => hcut htorn.2
      · exact iff_of_false (not_startable_of_part (hfile.trans hleft) hpart hne)
          fun hwhole => hwhole ⟨hexists, hcut⟩

/-- **All or nothing**, exactly where no start tears the file: throughout a run, a call that
meets no failure returns a certificate, and all that are returned have one fingerprint. -/
theorem all_or_nothing_iff (fingerprint : C → F) (h : (machine pem).Run Disk.init es s) :
    (machine pem).Throughout Disk.init es
        (fun s => Startable pem s ∧ SameFingerprint fingerprint s) ↔
      (machine pem).Along Disk.init es fun s call => ¬ Torn pem s call := by
  refine h.throughout_iff_along ?_ fun es s call s' hrun hsafe _ hstep => ?_
  · have hinit : Stored pem Disk.init := stored_of_run (Machine.run_nil.mpr rfl)
    exact ⟨startable_of_none rfl, hinit.sameFingerprint fingerprint⟩
  · have hstart := (hsafe es [] s (by simp) hrun).1
    have hrun' := Machine.run_snoc.mpr ⟨s, hrun, hstep⟩
    rw [startable_step_iff hstart hstep]
    exact and_iff_left ((stored_of_run hrun').sameFingerprint fingerprint)

end

/-! ## Two certificates -/

/-- Two certificates, by the last character of their keys. -/
def twoKeys (c : Bool) : Text :=
  text "-----BEGIN PRIVATE_KEY-----\nMIGH" ++
    ((if c then 0x41 else 0x42) :: text "\n-----END PRIVATE_KEY-----\n")

def twoKeysPem : Pem Bool where
  serialize := twoKeys
  fromPem t :=
    if t = twoKeys true then some true else if t = twoKeys false then some false else none
  fromPem_eq_some_iff := by
    intro t c
    have hne : twoKeys true ≠ twoKeys false := by decide
    split
    · next h => cases c <;> simp [h, hne]
    · next h =>
      split
      · next h' => cases c <;> simp [h', hne.symm]
      · next h' => cases c <;> simp [h, h']
  serialize_ne_nil := by decide
  prefix_free := by
    intro c c' h
    cases c <;> cases c'
    · rfl
    · exact absurd h (by decide)
    · exact absurd h (by decide)
    · rfl

/-- Starts that fail before the file or while it is read leave one certificate. -/
theorem all_or_nothing_starts :
    ∃ s, (machine twoKeysPem).Run Disk.init
        [{ making false with createDir := .failed }, { making true with openNew := .killed false },
          making false, { making true with read := .killed }, making true] s ∧
      s.returned = [false, false] ∧
      (machine twoKeysPem).Throughout Disk.init
        [{ making false with createDir := .failed }, { making true with openNew := .killed false },
          making false, { making true with read := .killed }, making true]
        fun s => Startable twoKeysPem s ∧ SameFingerprint twoKeys s := by
  obtain ⟨s, hrun, hreturned⟩ := (machine twoKeysPem).exists_run Disk.init
    [{ making false with createDir := .failed }, { making true with openNew := .killed false },
      making false, { making true with read := .killed }, making true]
    (fun s => s.returned = [false, false]) (by decide)
  exact ⟨s, hrun, of_decide_eq_true hreturned,
    (all_or_nothing_iff twoKeys hrun).mpr (by decide)⟩

/-- Killed in the middle of the write, the host never starts again. -/
theorem killed_in_write :
    ∃ s, (machine twoKeysPem).Run Disk.init [{ making false with write := .killed 40 }] s ∧
      (loadOrCreateCertificate twoKeysPem s.file (making true)).1 = .error .pem ∧
      ¬ Startable twoKeysPem s := by
  obtain ⟨s, hrun, hfile⟩ := (machine twoKeysPem).exists_run Disk.init
    [{ making false with write := .killed 40 }]
    (fun s => s.file = some ((twoKeys false).take 40)) (by decide)
  have hpart : (loadOrCreateCertificate twoKeysPem s.file (making true)).1 = .error .pem := by
    rw [of_decide_eq_true hfile]
    decide
  refine ⟨s, hrun, hpart, fun hstart => ?_⟩
  obtain ⟨c, hc⟩ := hstart (making true) (faultless_making true)
  rw [hpart] at hc
  contradiction

end RemoteBridge.Certificate
