import RemoteBridge.HostPage
import RemoteBridge.Sessions.Approval

/-!
# HostPage.Approval

Who gets into the list of paired devices, seen from the user: a device does when Approve was
clicked while the page showed it with its own code, and under the name typed for it, whatever
becomes of the requests and answers in between.
-/

namespace RemoteBridge

open Unicode Machine

variable {S : Type} [Sdp S]

/-! ## The host's side -/

namespace Host

variable {h h' : Host S} {e : Event S} {fp name : Text}

/-- What is shown as waiting is shown with its code. -/
def CodeShown (hostFp : Text) (pending : Option Pending) : Prop :=
  ∀ p, pending = some p → p.code = Pairing.pairingCode hostFp p.fingerprint

theorem Step.codeShown {hostFp : Text} (hstep : Step h e h')
    (hhost : h.shared.hostFingerprint = hostFp) (hinv : CodeShown hostFp h.shared.pending) :
    CodeShown hostFp h'.shared.pending := by
  cases hstep
  case page p status s hpage => rw [(AppState.paged_page hpage).pending]; exact hinv
  case unknown sdp viewerFp pc o hpoint hunknown =>
    intro p hp
    obtain rfl := Option.some.inj hp
    rw [hhost]
  all_goals first | exact hinv | exact fun _ hp => nomatch hp

theorem codeShown_of_run {key hostFp : Text} {paired : PairedDevices} {es : List (Event S)}
    (hrun : (machine S).Run (init key hostFp paired) es h) :
    CodeShown hostFp h.shared.pending := by
  refine hrun.rec_snoc (P := fun _ h => CodeShown hostFp h.shared.pending)
    (fun _ hp => nomatch hp) fun es e s s' hs ih hstep => ?_
  exact (step_of_eq hstep).codeShown (hostFingerprint_of_run hs) ih

theorem Step.key (hstep : Step h e h') : h'.key = h.key := by
  cases hstep
  case page p status s hpage => exact (AppState.paged_page hpage).key
  all_goals rfl

theorem key_of_run {key hostFp : Text} {paired : PairedDevices} {es : List (Event S)}
    (hrun : (machine S).Run (init key hostFp paired) es h) : h.key = key := by
  refine hrun.invariant (I := fun h => h.key = key) rfl ?_
  intro s e s' hs hstep
  exact (step_of_eq hstep).key.trans hs

/-- A request of the page that approves this device under this name. -/
def Asks (h : Host S) (fp name : Text) (e : Event S) : Prop :=
  ∃ typed, name = cleanName typed ∧ e = .page (.approve (some h.key) fp typed)

omit [Sdp S] in
theorem mem_commands_page {s : AppState} {p : PageStep} {status : Option StatusCode}
    (hpage : h.toAppState.page p = some (status, s)) (hmem : .approve fp name ∈ s.commands) :
    .approve fp name ∈ h.commands ∨ h.Asks fp name (.page p) := by
  cases p with
  | approve header fp' typed =>
      simp only [AppState.page, AppState.approve, AppState.authorized, AppState.send] at hpage
      grind [Asks]
  | reject header fp' =>
      simp only [AppState.page, AppState.reject, AppState.authorized, AppState.send] at hpage
      grind
  | rename header fp' typed io =>
      simp only [AppState.page, AppState.rename] at hpage
      grind
  | remove header fp' io =>
      simp only [AppState.page, AppState.remove] at hpage
      grind
  | finishRemove i =>
      simp only [AppState.page, AppState.finishRemove, AppState.send] at hpage
      grind

/-- Only the page leaves an `Approve`. -/
theorem Step.mem_commands (hstep : Step h e h') (hmem : .approve fp name ∈ h'.commands) :
    .approve fp name ∈ h.commands ∨ h.Asks fp name e := by
  cases hstep
  case page p status s hpage => exact mem_commands_page hpage hmem
  all_goals grind [leave, closePc]

/-- The loop adds a device under the name its command has. -/
theorem Step.approving_name {sdp : S} {pc : ConnectionId} (hstep : Step h e h')
    (hpoint : h'.point = .approve name sdp fp pc) :
    h.point = .approve name sdp fp pc ∨ .approve fp name ∈ h.commands := by
  cases hstep
  all_goals grind [leave, closePc]

/-- The name a device gets that was approved under this one. -/
def given (h : Host S) (name : Text) : Text := if name = [] then h.defaultName else name

theorem devices_add {p : PairedDevices} (name : Text) (io : Io) (h : fp ∉ p.fingerprints) :
    (p.add fp name io).2.devices = p.devices ++ [⟨fp, name, io.now 0, io.now 1⟩] := by
  have hcontains : ¬ p.contains fp := mt PairedDevices.contains_iff.mp h
  rw [PairedDevices.add, if_neg hcontains, PairedDevices.devices_save]

/-- A device enters the list under the name of the `Approve`. -/
theorem added_named (hstep : (machine S).step h e = some h')
    (hout : fp ∉ h.shared.paired.fingerprints) (hin : fp ∈ h'.shared.paired.fingerprints) :
    ∃ name sdp pc, h.point = .approve name sdp fp pc ∧
      ∃ d ∈ h'.shared.paired.devices, d.fingerprint = fp ∧ d.name = h.given name := by
  obtain ⟨happroving, hpage⟩ := (step_of_eq hstep).admits hout hin
  obtain ⟨name, sdp, pc, hpoint⟩ : ∃ name sdp pc, h.point = .approve name sdp fp pc := by
    unfold Approving at happroving
    split at happroving
    · next name sdp viewerFp pc hpoint => exact ⟨name, sdp, pc, happroving ▸ hpoint⟩
    · exact happroving.elim
  refine ⟨name, sdp, pc, hpoint, ?_⟩
  cases e with
  | page p => exact absurd trivial hpage
  | recv | recvFailed | command => simp [machine, step, hpoint] at hstep
  | resume o =>
      have hdevices := devices_add (h.given name) o.io hout
      have hmem : (⟨fp, h.given name, o.io.now 0, o.io.now 1⟩ : PairedDevice) ∈
          (h.shared.paired.add fp (h.given name) o.io).2.devices := by
        rw [hdevices]
        exact List.mem_append_right _ (List.mem_singleton.mpr rfl)
      refine ⟨⟨fp, h.given name, o.io.now 0, o.io.now 1⟩, ?_, rfl, rfl⟩
      have hgiven : (if name = [] then h.defaultName else name) = h.given name := rfl
      simp only [machine, step, resume, hpoint, hgiven] at hstep
      split at hstep
      · next hadd =>
          rw [hadd] at hmem
          exact Option.some.inj hstep ▸ hmem
      · next hadd =>
          rw [hadd] at hmem
          exact Option.some.inj hstep ▸ hmem

end Host

/-! ## The page's side -/

namespace HostPage

/-- The page shows this device with this code. -/
structure Shows (p : HostPage) (fp code : Text) : Prop where
  shown : p.shownPending = some fp
  visible : p.pendingHidden = false
  code : p.pendingCode = code

/-- What the page knows comes from the host: every code is the device's own.  `typed fp name`
says that the name was typed while the page showed the device, `clicked fp name` that Approve
was clicked for it. -/
structure Faithful (hostFp : Text) (typed clicked : Text → Text → Prop) (p : HostPage) : Prop where
  views : ∀ c ∈ p.calls, ∀ view, c.progress = .answered (.state view) →
    Host.CodeShown hostFp view.pending
  shows : ∀ fp, p.shownPending = some fp → p.Shows fp (Pairing.pairingCode hostFp fp)
  named : ∀ fp, p.shownPending = some fp → p.pendingName = [] ∨ typed fp p.pendingName
  asked : ∀ c ∈ p.calls, ∀ fp name, c.request = .approve (some fp) name → clicked fp name

variable {hostFp : Text} {typed clicked : Text → Text → Prop} {p p' : HostPage} {request : Request}

theorem faithful_load (key : Option Text) : Faithful hostFp typed clicked (load key) := by
  refine ⟨?_, ?_, ?_, ?_⟩ <;> simp [load]

theorem Faithful.mono {typed' clicked' : Text → Text → Prop} (h : Faithful hostFp typed clicked p)
    (htyped : ∀ fp name, typed fp name → typed' fp name)
    (hclicked : ∀ fp name, clicked fp name → clicked' fp name) :
    Faithful hostFp typed' clicked' p where
  views := h.views
  shows := h.shows
  named fp hfp := (h.named fp hfp).imp_right (htyped fp _)
  asked c hc fp name hname := hclicked fp name (h.asked c hc fp name hname)

/-- What changes neither what is shown nor the field, and makes no call. -/
theorem Faithful.keeps (h : Faithful hostFp typed clicked p)
    (hshown : p'.shownPending = p.shownPending) (hhidden : p'.pendingHidden = p.pendingHidden)
    (hcode : p'.pendingCode = p.pendingCode) (hname : p'.pendingName = p.pendingName)
    (hcalls : p'.calls ⊆ p.calls) : Faithful hostFp typed clicked p' where
  views c hc := h.views c (hcalls hc)
  shows fp hfp := by
    have hshows := h.shows fp (hshown ▸ hfp)
    exact ⟨hfp, hhidden.trans hshows.visible, hcode.trans hshows.code⟩
  named fp hfp := by
    rw [hname]
    exact h.named fp (hshown ▸ hfp)
  asked c hc := h.asked c (hcalls hc)

/-- A request that is no `Approve`, or an `Approve` that was clicked. -/
theorem Faithful.send (h : Faithful hostFp typed clicked p)
    (hasked : ∀ fp name, request = .approve (some fp) name → clicked fp name) :
    Faithful hostFp typed clicked (p.send request) where
  views c hc view hview := by
    rcases List.mem_append.mp hc with hc | hc
    · exact h.views c hc view hview
    · rw [List.mem_singleton.mp hc] at hview
      contradiction
  shows := fun fp hfp => ⟨hfp, (h.shows fp hfp).visible, (h.shows fp hfp).code⟩
  named := h.named
  asked c hc fp name hname := by
    rcases List.mem_append.mp hc with hc | hc
    · exact h.asked c hc fp name hname
    · rw [List.mem_singleton.mp hc] at hname
      exact hasked fp name hname

/-- A call that goes on, with an answer from the host if it has one. -/
theorem Faithful.setProgress {i : Nat} {progress : Progress} (h : Faithful hostFp typed clicked p)
    (hview : ∀ view, progress = .answered (.state view) → Host.CodeShown hostFp view.pending) :
    Faithful hostFp typed clicked (p.setProgress i progress) := by
  have hcalls : ∀ c ∈ (p.setProgress i progress).calls,
      c ∈ p.calls ∨ ∃ c' ∈ p.calls, c = { c' with progress } := by
    intro c hc
    obtain ⟨j, hj⟩ := List.mem_iff_getElem?.mp hc
    rw [HostPage.setProgress, List.getElem?_modify] at hj
    obtain ⟨c', hc', rfl⟩ := Option.map_eq_some_iff.mp hj
    by_cases hij : i = j
    · exact .inr ⟨c', List.mem_of_getElem? hc', by rw [if_pos hij]⟩
    · exact .inl (by rw [if_neg hij]; exact List.mem_of_getElem? hc')
  exact {
    views := fun c hc view heq => by
      rcases hcalls c hc with hc | ⟨c', hc', rfl⟩
      · exact h.views c hc view heq
      · exact hview view heq
    shows := fun fp hfp => ⟨hfp, (h.shows fp hfp).visible, (h.shows fp hfp).code⟩
    named := h.named
    asked := fun c hc fp name heq => by
      rcases hcalls c hc with hc | ⟨c', hc', rfl⟩
      · exact h.asked c hc fp name heq
      · exact h.asked c' hc' fp name heq }

/-- A device that comes to be shown is shown with its code and an empty field; one that stays
keeps what was typed for it. -/
theorem Faithful.renderPending {pending : Option Pending} (h : Faithful hostFp typed clicked p)
    (hpending : Host.CodeShown hostFp pending) :
    Faithful hostFp typed clicked (p.renderPending pending) := by
  unfold HostPage.renderPending
  dsimp only
  split
  · next hsame =>
      refine ⟨h.views, fun fp hfp => ?_, h.named, h.asked⟩
      refine ⟨hfp, ?_, (h.shows fp hfp).code⟩
      cases pending with
      | none => rw [← hsame] at hfp; contradiction
      | some pending => rfl
  · cases pending with
    | none => exact ⟨h.views, fun fp hfp => (nomatch hfp), fun fp hfp => (nomatch hfp), h.asked⟩
    | some pending =>
        refine ⟨h.views, fun fp hfp => ?_, fun fp hfp => .inl rfl, h.asked⟩
        obtain rfl := Option.some.inj hfp
        exact ⟨rfl, rfl, hpending pending rfl⟩

theorem Faithful.refreshed {a : Answer} (h : Faithful hostFp typed clicked p)
    (hview : ∀ view, a = .state view → Host.CodeShown hostFp view.pending) :
    Faithful hostFp typed clicked (p.refreshed a) := by
  cases a with
  | state view =>
      exact (h.renderPending (hview view rfl)).keeps rfl rfl rfl rfl (List.Subset.refl _)
  | status code => exact h.keeps rfl rfl rfl rfl (List.Subset.refl _)
  | failed message => exact h.keeps rfl rfl rfl rfl (List.Subset.refl _)

theorem Faithful.deliver {i : Nat} (h : Faithful hostFp typed clicked p)
    (hdeliver : p.deliver i = some p') : Faithful hostFp typed clicked p' := by
  rw [HostPage.deliver] at hdeliver
  split at hdeliver
  · next request a hcall =>
      have hmem := List.mem_of_getElem? hcall
      have herase : Faithful hostFp typed clicked { p with calls := p.calls.eraseIdx i } :=
        h.keeps rfl rfl rfl rfl (List.eraseIdx_sublist ..).subset
      obtain rfl := Option.some.inj hdeliver
      split
      · refine herase.refreshed fun view hview => ?_
        exact h.views _ hmem view (congrArg Progress.answered hview)
      · refine Faithful.send ?_ fun fp name hname => nomatch hname
        exact herase.keeps rfl rfl rfl rfl (List.Subset.refl _)
  · contradiction

/-- What the user does on the page: a name is typed for the device that is shown, and a click on
Approve is one for this device under the name in the field. -/
theorem Faithful.act {action : Action} (h : Faithful hostFp typed clicked p)
    (hact : p.act action = some p')
    (htyped : ∀ fp name, action = .type name → p.shownPending = some fp → typed fp name)
    (hclicked : ∀ fp, action = .approve → p.Shows fp (Pairing.pairingCode hostFp fp) →
      (p.pendingName = [] ∨ typed fp p.pendingName) → clicked fp p.pendingName) :
    Faithful hostFp typed clicked p' := by
  cases action with
  | refresh =>
      simp only [HostPage.act] at hact
      split at hact
      · contradiction
      · exact Option.some.inj hact ▸ h.send fun fp name hname => nomatch hname
  | type name =>
      obtain rfl := Option.some.inj hact
      refine ⟨h.views, fun fp hfp => ?_, fun fp hfp => .inr (htyped fp name rfl hfp), h.asked⟩
      exact ⟨hfp, (h.shows fp hfp).visible, (h.shows fp hfp).code⟩
  | approve =>
      obtain rfl := Option.some.inj hact
      refine h.send fun fp name hname => ?_
      obtain ⟨hshown, rfl⟩ := Request.approve.inj hname
      exact hclicked fp rfl (h.shows fp hshown) (h.named fp hshown)
  | reject =>
      obtain rfl := Option.some.inj hact
      exact h.send fun fp name hname => nomatch hname
  | rename row name =>
      obtain ⟨d, -, rfl⟩ := Option.map_eq_some_iff.mp hact
      exact h.send fun fp name hname => nomatch hname
  | remove row =>
      obtain ⟨d, -, rfl⟩ := Option.map_eq_some_iff.mp hact
      exact h.send fun fp name hname => nomatch hname

end HostPage

/-! ## Runs -/

namespace HostPages

/-- The name is typed on page `i` while it shows the device. -/
structure Typed (i : Nat) (fp name : Text) (s : HostPages S) (e : Event S) : Prop where
  event : e = .act i (.type name)
  shown : ∃ p, s.pages[i]? = some p ∧ p.shownPending = some fp

/-- Approve is clicked on page `i` while it shows the device with its code, and the name stands
in the field. -/
structure Clicked (hostFp : Text) (i : Nat) (fp name : Text) (s : HostPages S) (e : Event S) :
    Prop where
  event : e = .act i .approve
  page : ∃ p, s.pages[i]? = some p ∧ p.Shows fp (Pairing.pairingCode hostFp fp) ∧
    p.pendingName = name

/-- A request that no page made and that approves a device lacks the key. -/
def KeyKept (key : Text) : Event S → Prop
  | .host (.page (.approve header _ _)) => header ≠ some key
  | _ => True

instance (key : Text) : (e : Event S) → Decidable (KeyKept key e)
  | .host (.page (.approve header _ _)) => inferInstanceAs (Decidable (header ≠ some key))
  | .host (.page (.reject ..)) | .host (.page (.rename ..)) | .host (.page (.remove ..))
  | .host (.page (.finishRemove _)) | .host (.recv _) | .host .recvFailed | .host .command
  | .host (.resume _) | .load _ | .act .. | .serve .. | .finishRemove .. | .fail ..
  | .deliver .. => inferInstanceAs (Decidable True)

section

variable (key hostFp : Text) (paired : PairedDevices)

/-- Approve was clicked for the device under this name, which was typed for it if it is one. -/
def Decided (es : List (Event S)) (fp name : Text) : Prop :=
  ∃ i es₁ e es₂ s, es = es₁ ++ e :: es₂ ∧ (machine S).Run (init key hostFp paired) es₁ s ∧
    Clicked hostFp i fp name s e ∧
    (name = [] ∨ (machine S).Occurs (init key hostFp paired) es₁ (Typed i fp name))

/-- The same, of the name as the host cleans it. -/
def DecidedAs (es : List (Event S)) (fp name : Text) : Prop :=
  ∃ typed, name = cleanName typed ∧ Decided key hostFp paired es fp typed

/-- Everything on its way to the list comes from a click. -/
structure ByClick (es : List (Event S)) (s : HostPages S) : Prop where
  host : ∃ hes, (Host.machine S).Run (Host.init key hostFp paired) hes s.host
  pages : ∀ (i : Nat) (p : HostPage), s.pages[i]? = some p → p.Faithful hostFp
    (fun fp name => (machine S).Occurs (init key hostFp paired) es (Typed i fp name))
    (Decided key hostFp paired es)
  commands : ∀ fp name, .approve fp name ∈ s.host.commands → DecidedAs key hostFp paired es fp name
  point : ∀ name sdp fp pc, s.host.point = .approve name sdp fp pc →
    DecidedAs key hostFp paired es fp name

end

variable {key hostFp : Text} {paired : PairedDevices} {es : List (Event S)} {s s' : HostPages S}
  {e : Event S} {fp name : Text}

theorem Decided.snoc (h : Decided key hostFp paired es fp name) :
    Decided key hostFp paired (es ++ [e]) fp name := by
  obtain ⟨i, es₁, e', es₂, s, rfl, hrun, hclicked, htyped⟩ := h
  exact ⟨i, es₁, e', es₂ ++ [e], s, by simp, hrun, hclicked, htyped⟩

theorem DecidedAs.snoc (h : DecidedAs key hostFp paired es fp name) :
    DecidedAs key hostFp paired (es ++ [e]) fp name := by
  obtain ⟨typed, hname, hdecided⟩ := h
  exact ⟨typed, hname, hdecided.snoc⟩

theorem byClick_init : ByClick key hostFp paired [] (init key hostFp paired : HostPages S) where
  host := ⟨[], run_nil.mpr rfl⟩
  pages i p hp := by simp [init] at hp
  commands fp name hmem := by simp [init, Host.init] at hmem
  point name sdp fp pc hpoint := by simp [init, Host.init] at hpoint

namespace ByClick

theorem snoc (h : ByClick key hostFp paired es s) : ByClick key hostFp paired (es ++ [e]) s where
  host := h.host
  pages i p hp := (h.pages i p hp).mono (fun _ _ => Occurs.append) fun _ _ => Decided.snoc
  commands fp name hmem := (h.commands fp name hmem).snoc
  point name sdp fp pc hpoint := (h.point name sdp fp pc hpoint).snoc

theorem setPage {i : Nat} {p' : HostPage} (h : ByClick key hostFp paired es s)
    (hp' : p'.Faithful hostFp
      (fun fp name => (machine S).Occurs (init key hostFp paired) es (Typed i fp name))
      (Decided key hostFp paired es)) : ByClick key hostFp paired es (s.setPage i p') where
  host := h.host
  pages j p hp := by
    rw [HostPages.setPage, List.getElem?_set] at hp
    split at hp
    · next hij =>
        split at hp
        · obtain rfl := Option.some.inj hp
          exact hij ▸ hp'
        · contradiction
    · exact h.pages j p hp
  commands := h.commands
  point := h.point

/-- The host's step; an `Approve` it is asked for comes from a click. -/
theorem setHost {e' : Host.Event S} {h' : Host S} (h : ByClick key hostFp paired es s)
    (hstep : s.host.step e' = some h')
    (hasks : ∀ fp name, s.host.Asks fp name e' → DecidedAs key hostFp paired es fp name) :
    ByClick key hostFp paired es { s with host := h' } where
  host := by
    obtain ⟨hes, hrun⟩ := h.host
    exact ⟨hes ++ [e'], run_snoc.mpr ⟨s.host, hrun, hstep⟩⟩
  pages := h.pages
  commands fp name hmem := by
    rcases (Host.step_of_eq hstep).mem_commands hmem with hmem | hask
    · exact h.commands fp name hmem
    · exact hasks fp name hask
  point name sdp fp pc hpoint := by
    rcases (Host.step_of_eq hstep).approving_name hpoint with hpoint | hmem
    · exact h.point name sdp fp pc hpoint
    · exact h.commands fp name hmem

end ByClick

/-- What serving a request does to the host: nothing, or the page step it stands for. -/
theorem serve_spec {h h' : Host S} {header : Option Text} {io : Io}
    {connected : ConnectionId → Bool} {request : HostPage.Request} {progress : HostPage.Progress}
    (hserve : serve h header io connected request = some (h', progress)) :
    (h' = h ∨ ∃ step, request.pageStep header io = some step ∧ h.step (.page step) = some h') ∧
      ∀ view, progress = .answered (.state view) → view.pending = h.shared.pending := by
  rw [serve] at hserve
  split at hserve
  · split at hserve
    · next view hview =>
        obtain ⟨rfl, rfl⟩ := Prod.mk.inj (Option.some.inj hserve)
        refine ⟨.inl rfl, fun view' heq => ?_⟩
        obtain rfl := HostPage.Answer.state.inj (HostPage.Progress.answered.inj heq)
        simp only [AppState.getState] at hview
        split at hview
        · contradiction
        · rw [← Option.some.inj hview]
    · obtain ⟨rfl, rfl⟩ := Prod.mk.inj (Option.some.inj hserve)
      exact ⟨.inl rfl, fun view heq => nomatch heq⟩
  · split at hserve
    · obtain ⟨rfl, rfl⟩ := Prod.mk.inj (Option.some.inj hserve)
      exact ⟨.inl rfl, fun view heq => nomatch heq⟩
    · next step hpage =>
        obtain ⟨⟨status, app⟩, happ, heq⟩ := Option.map_eq_some_iff.mp hserve
        obtain ⟨rfl, rfl⟩ := Prod.mk.inj heq
        refine ⟨.inr ⟨step, hpage, ?_⟩, fun view hview => ?_⟩
        · rw [Host.step, happ]
          rfl
        · cases status <;> simp at hview

omit [Sdp S] in
theorem call_eq_some {i c : Nat} {p : HostPage} {call : HostPage.Call}
    (h : s.call i c = some (p, call)) : s.pages[i]? = some p ∧ call ∈ p.calls := by
  obtain ⟨p', hp, h⟩ := Option.bind_eq_some_iff.mp h
  obtain ⟨call', hcall, heq⟩ := Option.map_eq_some_iff.mp h
  obtain ⟨rfl, rfl⟩ := Prod.mk.inj heq
  exact ⟨hp, List.mem_of_getElem? hcall⟩

/-- **One step** keeps it. -/
theorem ByClick.step (hinv : ByClick key hostFp paired es s)
    (hrun : (machine S).Run (init key hostFp paired) es s) (hkey : KeyKept key e)
    (hstep : (machine S).step s e = some s') : ByClick key hostFp paired (es ++ [e]) s' := by
  have hnext := hinv.snoc (e := e)
  obtain ⟨hes, hhost⟩ := hinv.host
  have hshown := Host.codeShown_of_run hhost
  have hkeyHost := Host.key_of_run hhost
  cases e with
  | host e' =>
      obtain ⟨h', hhost', rfl⟩ := Option.map_eq_some_iff.mp hstep
      refine hnext.setHost hhost' fun fp name ⟨typed, hname, he'⟩ => ?_
      rw [he', hkeyHost] at hkey
      exact absurd rfl hkey
  | load link =>
      obtain rfl := Option.some.inj hstep
      refine ⟨hnext.host, fun i p hp => ?_, hnext.commands, hnext.point⟩
      rw [List.getElem?_append] at hp
      split at hp
      · exact hnext.pages i p hp
      · rw [List.getElem?_singleton] at hp
        split at hp
        · exact Option.some.inj hp ▸ HostPage.faithful_load link
        · contradiction
  | act i action =>
      obtain ⟨p, hp, hpage⟩ := Option.bind_eq_some_iff.mp hstep
      obtain ⟨p', hact, rfl⟩ := Option.map_eq_some_iff.mp hpage
      refine hnext.setPage ((hnext.pages i p hp).act hact ?_ ?_)
      · intro fp name haction hfp
        exact (occurs_snoc hrun).mpr (.inr ⟨by rw [haction], p, hp, hfp⟩)
      · intro fp haction hshows _
        have hnamed := (hinv.pages i p hp).named fp hshows.shown
        exact ⟨i, es, _, [], s, rfl, hrun, ⟨by rw [haction], p, hp, hshows, rfl⟩, hnamed⟩
  | serve i c io connected =>
      simp only [machine, HostPages.step] at hstep
      split at hstep
      · next p request hcall =>
          obtain ⟨hp, hmem⟩ := call_eq_some hcall
          obtain ⟨⟨h', progress⟩, hserve, rfl⟩ := Option.map_eq_some_iff.mp hstep
          obtain ⟨hserved, hview⟩ := serve_spec hserve
          have hpage : (p.setProgress c progress).Faithful hostFp
              (fun fp name => (machine S).Occurs (init key hostFp paired)
                (es ++ [.serve i c io connected]) (Typed i fp name))
              (Decided key hostFp paired (es ++ [.serve i c io connected])) :=
            (hnext.pages i p hp).setProgress fun view heq => hview view heq ▸ hshown
          rcases hserved with rfl | ⟨step, hpageStep, hhost'⟩
          · exact hnext.setPage hpage
          · refine (hnext.setHost hhost' fun fp name ⟨typed, hname, hask⟩ => ?_).setPage hpage
            obtain rfl := Host.Event.page.inj hask
            refine ⟨typed, hname, (hnext.pages i p hp).asked _ hmem fp typed ?_⟩
            cases request with
            | approve fp' name' =>
                obtain ⟨fp', rfl, heq⟩ := Option.map_eq_some_iff.mp hpageStep
                obtain ⟨-, rfl, rfl⟩ := PageStep.approve.inj heq
                rfl
            | state => contradiction
            | reject fp' =>
                obtain ⟨fp', -, heq⟩ := Option.map_eq_some_iff.mp hpageStep
                contradiction
            | rename fp' name' => exact nomatch Option.some.inj hpageStep
            | remove fp' => exact nomatch Option.some.inj hpageStep
      · contradiction
  | finishRemove i c k =>
      simp only [machine, HostPages.step] at hstep
      split at hstep
      · next p request hcall =>
          obtain ⟨hp, -⟩ := call_eq_some hcall
          obtain ⟨h', hhost', rfl⟩ := Option.map_eq_some_iff.mp hstep
          refine (hnext.setHost hhost' fun fp name ⟨typed, hname, hask⟩ => ?_).setPage
            ((hnext.pages i p hp).setProgress fun view heq => nomatch heq)
          exact nomatch Host.Event.page.inj hask
      · contradiction
  | fail i c message =>
      obtain ⟨⟨p, call⟩, hcall, rfl⟩ := Option.map_eq_some_iff.mp hstep
      obtain ⟨hp, -⟩ := call_eq_some hcall
      exact hnext.setPage ((hnext.pages i p hp).setProgress fun view heq => nomatch heq)
  | deliver i c =>
      obtain ⟨p, hp, hpage⟩ := Option.bind_eq_some_iff.mp hstep
      obtain ⟨p', hdeliver, rfl⟩ := Option.map_eq_some_iff.mp hpage
      exact hnext.setPage ((hnext.pages i p hp).deliver hdeliver)

theorem byClick_of_run (hrun : (machine S).Run (init key hostFp paired) es s)
    (hkey : ∀ e ∈ es, KeyKept key e) : ByClick key hostFp paired es s := by
  refine hrun.rec_snoc (P := fun es s => (∀ e ∈ es, KeyKept key e) →
    ByClick key hostFp paired es s) (fun _ => byClick_init) ?_ hkey
  intro es e s s' hs ih hstep hkey
  have hbefore := ih fun e he => hkey e (List.mem_append_left _ he)
  exact hbefore.step hs (hkey e (List.mem_append_right _ (List.mem_singleton.mpr rfl))) hstep

/-- The device enters the list after a click for it, under the name typed for it. -/
def Enters (key hostFp : Text) (paired : PairedDevices) (es : List (Event S)) (s s' : HostPages S)
    (fp : Text) : Prop :=
  ∃ name, Decided key hostFp paired es fp name ∧ ∃ d ∈ s'.host.shared.paired.devices,
    d.fingerprint = fp ∧ d.name = s.host.given (cleanName name)

theorem enters_of_step (hrun : (machine S).Run (init key hostFp paired) es s)
    (hkey : ∀ e ∈ es, KeyKept key e) (hstep : (machine S).step s e = some s')
    (hout : fp ∉ s.host.shared.paired.fingerprints)
    (hin : fp ∈ s'.host.shared.paired.fingerprints) : Enters key hostFp paired es s s' fp := by
  -- no page step adds a device
  have hpage (p : PageStep) (h' : Host S)
      (hhost : (Host.machine S).step s.host (.page p) = some h')
      (hin : fp ∈ h'.shared.paired.fingerprints) : False :=
    ((Host.step_of_eq hhost).admits hout hin).2 trivial
  cases e with
  | host e' =>
      obtain ⟨h', hhost, rfl⟩ := Option.map_eq_some_iff.mp hstep
      obtain ⟨name, sdp, pc, hpoint, hadded⟩ := Host.added_named hhost hout hin
      obtain ⟨typed, rfl, hdecided⟩ := (byClick_of_run hrun hkey).point name sdp fp pc hpoint
      exact ⟨typed, hdecided, hadded⟩
  | load link =>
      obtain rfl := Option.some.inj hstep
      exact absurd hin hout
  | act i action =>
      obtain ⟨p, -, h⟩ := Option.bind_eq_some_iff.mp hstep
      obtain ⟨p', -, rfl⟩ := Option.map_eq_some_iff.mp h
      exact absurd hin hout
  | serve i c io connected =>
      simp only [machine, step] at hstep
      split at hstep
      · obtain ⟨⟨h', progress⟩, hserve, rfl⟩ := Option.map_eq_some_iff.mp hstep
        rcases (serve_spec hserve).1 with rfl | ⟨p, -, hhost⟩
        · exact absurd hin hout
        · exact (hpage p h' hhost hin).elim
      · contradiction
  | finishRemove i c k =>
      simp only [machine, step] at hstep
      split at hstep
      · obtain ⟨h', hhost, rfl⟩ := Option.map_eq_some_iff.mp hstep
        exact (hpage _ h' hhost hin).elim
      · contradiction
  | fail i c message =>
      obtain ⟨⟨p, call⟩, -, rfl⟩ := Option.map_eq_some_iff.mp hstep
      exact absurd hin hout
  | deliver i c =>
      obtain ⟨p, -, h⟩ := Option.bind_eq_some_iff.mp hstep
      obtain ⟨p', -, rfl⟩ := Option.map_eq_some_iff.mp h
      exact absurd hin hout

/-- **Devices are paired by a click**: a device of the list was in `paired.json`, or it entered
the list after Approve was clicked on a page that showed it with its own code, under the name
that stood in the field then and had been typed while the page showed it. -/
theorem paired_by_click (hrun : (machine S).Run (init key hostFp paired) es s)
    (hkey : ∀ e ∈ es, KeyKept key e) (hin : fp ∈ s.host.shared.paired.fingerprints) :
    fp ∈ paired.fingerprints ∨ ∃ es₁ e es₂ s₁ s₂, es = es₁ ++ e :: es₂ ∧
      (machine S).Run (init key hostFp paired) es₁ s₁ ∧ (machine S).step s₁ e = some s₂ ∧
      fp ∉ s₁.host.shared.paired.fingerprints ∧ Enters key hostFp paired es₁ s₁ s₂ fp := by
  refine hrun.rec_snoc (P := fun es s => (∀ e ∈ es, KeyKept key e) →
    fp ∈ s.host.shared.paired.fingerprints → fp ∈ paired.fingerprints ∨
      ∃ es₁ e es₂ s₁ s₂, es = es₁ ++ e :: es₂ ∧
        (machine S).Run (init key hostFp paired) es₁ s₁ ∧ (machine S).step s₁ e = some s₂ ∧
        fp ∉ s₁.host.shared.paired.fingerprints ∧ Enters key hostFp paired es₁ s₁ s₂ fp)
    (fun _ hin => .inl hin) ?_ hkey hin
  intro es e s s' hs ih hstep hkey hin
  have hbefore : ∀ e ∈ es, KeyKept key e := fun e he => hkey e (List.mem_append_left _ he)
  by_cases hout : fp ∈ s.host.shared.paired.fingerprints
  · refine (ih hbefore hout).imp_right ?_
    rintro ⟨es₁, e', es₂, s₁, s₂, rfl, hrest⟩
    exact ⟨es₁, e', es₂ ++ [e], s₁, s₂, by simp, hrest⟩
  · exact .inr ⟨es, e, [], s, s', rfl, hs, hstep, hout, enters_of_step hs hbefore hstep hout hin⟩

/-- A device answers, its page shows it, and it is approved under a typed name. -/
def approval : List (Event Text) :=
  (Host.firstSession ++ Host.newAnswer "b1").map .host ++
    [.load (some (text "7e")), .act 0 .refresh, .serve 0 0 ⟨fun _ => 0, none⟩ fun _ => false,
      .deliver 0 0, .act 0 (.type (text " Pad ")), .act 0 .approve,
      .serve 0 0 ⟨fun _ => 0, none⟩ fun _ => false, .host .command, .host Host.goOn, .deliver 0 0]

/-- `paired_by_click` for a device that is approved in its first session. -/
theorem paired_by_click_pad :
    ∃ s, (machine Text).Run (init (text "7e") (text "0a") ⟨[], ⟨none, none⟩⟩) approval s ∧
      (s.host.shared.paired.devices.map fun d => (d.fingerprint, d.name)) =
        [(text "b1", text "Pad")] ∧
      ∃ es₁ e es₂ s₁ s₂, approval = es₁ ++ e :: es₂ ∧
        (machine Text).Run (init (text "7e") (text "0a") ⟨[], ⟨none, none⟩⟩) es₁ s₁ ∧
        (machine Text).step s₁ e = some s₂ ∧ text "b1" ∉ s₁.host.shared.paired.fingerprints ∧
        Enters (text "7e") (text "0a") ⟨[], ⟨none, none⟩⟩ es₁ s₁ s₂ (text "b1") := by
  obtain ⟨s, hrun, hend⟩ := exists_run (machine Text)
    (init (text "7e") (text "0a") ⟨[], ⟨none, none⟩⟩) approval
    (fun s => (s.host.shared.paired.devices.map fun d => (d.fingerprint, d.name)) =
      [(text "b1", text "Pad")]) (by decide +kernel)
  have hend := of_decide_eq_true hend
  have hin : text "b1" ∈ s.host.shared.paired.fingerprints := by
    have hmap := congrArg (List.map Prod.fst) hend
    rw [List.map_map] at hmap
    change s.host.shared.paired.fingerprints = [text "b1"] at hmap
    rw [hmap]
    exact List.mem_singleton.mpr rfl
  refine ⟨s, hrun, hend, (paired_by_click hrun (by decide +kernel) hin).resolve_left ?_⟩
  simp [PairedDevices.fingerprints]

end HostPages

end RemoteBridge
