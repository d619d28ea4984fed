import RemoteBridge.Sessions

/-!
# Sessions.Steps

Everything a step of the host can be: one constructor for each branch of the
session loop, with the guards it is taken under, and one for the host page.
-/

namespace RemoteBridge.Host

open Unicode

variable {S : Type} [Sdp S] {h h' : Host S}

/-- What a step from `h` can be. -/
inductive Step (h : Host S) : Event S → Host S → Prop
  | configured (iceServers : List IceServerConfig) (point : h.point = .config) :
      Step h (.recv (.config iceServers)) { h with serverIce := iceServers, point := .head }
  | skipped (message : SignalMessage S) (point : h.point = .config) : Step h (.recv message) h
  | lost (point : h.point = .config ∨ h.point = .head) : Step h .recvFailed h.leave
  | joined (point : h.point = .head) :
      Step h (.recv .viewerJoined) { h with waiting := none, point := .join }
  | answered (sdp : S) (viewerFp : Text) (pc : ConnectionId) (point : h.point = .head)
      (current : h.current = some pc) (viewer : fingerprintOf sdp = some viewerFp) :
      Step h (.recv (.answer sdp h.session)) { h with point := .answer sdp viewerFp pc }
  | ignored (message : SignalMessage S) (point : h.point = .head) : Step h (.recv message) h
  | approving (name : Text) (w : Waiting S) (pc : ConnectionId) (commands : List Command)
      (point : h.point = .head) (command : h.commands = .approve w.fingerprint name :: commands)
      (waiting : h.waiting = some w) (current : h.current = some pc)
      (session : w.session = h.session) :
      Step h .command { h with
        commands
        waiting := none
        point := .approve name w.sdp w.fingerprint pc }
  | dropped (name : Text) (w : Waiting S) (commands : List Command) (point : h.point = .head)
      (command : h.commands = .approve w.fingerprint name :: commands)
      (waiting : h.waiting = some w) (stale : h.current = none ∨ w.session ≠ h.session) :
      Step h .command { h with commands, waiting := none }
  | rejecting (w : Waiting S) (commands : List Command) (point : h.point = .head)
      (command : h.commands = .reject w.fingerprint :: commands) (waiting : h.waiting = some w) :
      Step h .command { h with commands, waiting := none, point := .reject w.fingerprint }
  | disconnecting (fp : Text) (commands : List Command) (point : h.point = .head)
      (command : h.commands = .disconnect fp :: commands) :
      Step h .command { h with commands, point := .disconnect fp }
  | passed (c : Command) (commands : List Command) (point : h.point = .head)
      (command : h.commands = c :: commands) (other : ∀ fp, c ≠ .disconnect fp)
      (waiting : ∀ w, h.waiting = some w → w.fingerprint ≠ c.fingerprint) :
      Step h .command { h with commands }
  | approveFailed (name : Text) (sdp : S) (viewerFp : Text) (pc : ConnectionId) (o : Outcome S)
      (point : h.point = .approve name sdp viewerFp pc)
      (fault : viewerFp ∉ h.shared.paired.fingerprints ∧ o.io.fault.isSome) (paired : PairedDevices)
      (fingerprints : paired.fingerprints ⊆ viewerFp :: h.shared.paired.fingerprints)
      (others : paired.others viewerFp = h.shared.paired.others viewerFp) :
      Step h (.resume o) { h with shared.paired := paired }.leave
  | approved (name : Text) (sdp : S) (viewerFp : Text) (pc : ConnectionId) (o : Outcome S)
      (point : h.point = .approve name sdp viewerFp pc) (paired : PairedDevices)
      (fingerprints : paired.fingerprints ⊆ viewerFp :: h.shared.paired.fingerprints)
      (kept : h.shared.paired.fingerprints ⊆ paired.fingerprints)
      (added : viewerFp ∈ paired.fingerprints)
      (others : paired.others viewerFp = h.shared.paired.others viewerFp) :
      Step h (.resume o) { h with
        shared := { h.shared with paired, pending := none, active := some (viewerFp, pc) }
        point := .apply pc sdp h.session }
  | applied (pc : ConnectionId) (sdp : S) (n : UInt32) (o : Outcome S)
      (point : h.point = .apply pc sdp n) :
      Step h (.resume o)
        { h with pcs := h.pcs.modify pc (·.setRemote sdp o.wellFormed), point := .head }
  | rejected (fp : Text) (pc : ConnectionId) (o : Outcome S) (point : h.point = .reject fp)
      (current : h.current = some pc) :
      Step h (.resume o)
        { h with shared.pending := none, current := none, point := .rejectClose fp pc }
  | rejectedNone (fp : Text) (o : Outcome S) (point : h.point = .reject fp)
      (current : h.current = none) :
      Step h (.resume o) { h with shared.pending := none, point := .head }
  | rejectClosed (fp : Text) (pc : ConnectionId) (o : Outcome S)
      (point : h.point = .rejectClose fp pc) :
      Step h (.resume o) { h.closePc pc with point := .head }
  | disconnected (fp : Text) (pc : ConnectionId) (o : Outcome S) (point : h.point = .disconnect fp)
      (active : h.shared.active = some (fp, pc)) :
      Step h (.resume o) { h with shared.active := none, point := .disconnectClose fp pc }
  | disconnectedNone (fp : Text) (o : Outcome S) (point : h.point = .disconnect fp)
      (active : ∀ pc, h.shared.active ≠ some (fp, pc)) :
      Step h (.resume o) { h with point := .head }
  | disconnectClosed (fp : Text) (pc : ConnectionId) (o : Outcome S)
      (point : h.point = .disconnectClose fp pc) :
      Step h (.resume o) { h.closePc pc with current := none, point := .head }
  | joinedCurrent (old : ConnectionId) (o : Outcome S) (point : h.point = .join)
      (current : h.current = some old) :
      Step h (.resume o) { h with
        shared := { h.shared with pending := none, active := none }
        current := none
        point := .joinClose old }
  | joinedNone (o : Outcome S) (point : h.point = .join) (current : h.current = none) :
      Step h (.resume o) { h with
        shared := { h.shared with pending := none, active := none }
        session := h.session + 1
        point := .start }
  | joinClosed (old : ConnectionId) (o : Outcome S) (point : h.point = .joinClose old) :
      Step h (.resume o) { h.closePc old with session := h.session + 1, point := .start }
  | started (offer : S) (o : Outcome S) (point : h.point = .start)
      (outcome : o.started = some offer) :
      Step h (.resume o) { h with
        pcs := h.pcs ++ [⟨h.session, h.serverIce, offer, none, false⟩]
        offers := h.offers ++ [(offer, h.session)]
        current := some h.pcs.length
        point := .head }
  | startFailed (o : Outcome S) (point : h.point = .start) (outcome : o.started = none) :
      Step h (.resume o) { h with point := .head }
  | touchFailed (sdp : S) (viewerFp : Text) (pc : ConnectionId) (o : Outcome S)
      (point : h.point = .answer sdp viewerFp pc) (known : viewerFp ∈ h.shared.paired.fingerprints)
      (fault : o.io.fault.isSome) (paired : PairedDevices)
      (fingerprints : paired.fingerprints = h.shared.paired.fingerprints) :
      Step h (.resume o) { h with shared.paired := paired }.leave
  | known (sdp : S) (viewerFp : Text) (pc : ConnectionId) (o : Outcome S)
      (point : h.point = .answer sdp viewerFp pc) (known : viewerFp ∈ h.shared.paired.fingerprints)
      (paired : PairedDevices) (fingerprints : paired.fingerprints = h.shared.paired.fingerprints) :
      Step h (.resume o) { h with
        shared := { h.shared with paired, active := some (viewerFp, pc) }
        point := .apply pc sdp h.session }
  | unknown (sdp : S) (viewerFp : Text) (pc : ConnectionId) (o : Outcome S)
      (point : h.point = .answer sdp viewerFp pc)
      (unknown : viewerFp ∉ h.shared.paired.fingerprints) :
      Step h (.resume o) { h with
        shared.pending :=
          some ⟨viewerFp, Pairing.pairingCode h.shared.hostFingerprint viewerFp⟩
        waiting := some ⟨h.session, sdp, viewerFp⟩
        point := .head }
  | page (p : PageStep) (status : Option StatusCode) (s : AppState)
      (step : h.toAppState.page p = some (status, s)) :
      Step h (.page p) { h with toAppState := s }

/-! ## The inversion -/

theorem step_receive (message : SignalMessage S) (point : h.point = .head) :
    Step h (.recv message) (h.receive message) := by
  cases message with
  | config => exact .ignored _ point
  | viewerJoined => exact .joined point
  | offer => exact .ignored _ point
  | answer sdp answered =>
      rw [receive]
      split
      · next hsession =>
        subst hsession
        split
        · next pc viewerFp hcurrent hviewer =>
          exact .answered sdp viewerFp pc point hcurrent hviewer
        · exact .ignored _ point
      · exact .ignored _ point

omit [Sdp S] in
theorem takeWaiting_eq_some {fp : Text} {w : Waiting S} :
    h.takeWaiting fp = some w ↔ h.waiting = some w ∧ w.fingerprint = fp := by
  simp [takeWaiting, Option.filter_eq_some_iff]

omit [Sdp S] in
theorem takeWaiting_eq_none {fp : Text} :
    h.takeWaiting fp = none ↔ ∀ w, h.waiting = some w → w.fingerprint ≠ fp := by
  simp [takeWaiting, Option.filter_eq_none_iff]

theorem step_handle (c : Command) (commands : List Command) (point : h.point = .head)
    (command : h.commands = c :: commands) :
    Step h .command ({ h with commands }.handle c) := by
  cases c with
  | approve fp name =>
      rw [handle]
      split
      · next hnone =>
        exact .passed _ commands point command (by simp) (takeWaiting_eq_none.mp hnone)
      · next w hw =>
        obtain ⟨hwaiting, rfl⟩ := takeWaiting_eq_some.mp hw
        split
        · next hcurrent =>
          refine .dropped name w commands point command hwaiting ?_
          cases hc : h.current with
          | none => exact .inl rfl
          | some pc => simp [hc] at hcurrent; exact .inr hcurrent
        · next pc hcurrent =>
          obtain ⟨hcurrent, hsession⟩ := Option.filter_eq_some_iff.mp hcurrent
          have hsession : w.session = h.session := by simpa using hsession
          exact .approving name w pc commands point command hwaiting hcurrent hsession
  | reject fp =>
      rw [handle]
      split
      · next hnone =>
        exact .passed _ commands point command (by simp) (takeWaiting_eq_none.mp hnone)
      · next w hw =>
        obtain ⟨hwaiting, rfl⟩ := takeWaiting_eq_some.mp hw
        exact .rejecting w commands point command hwaiting
  | disconnect fp => exact .disconnecting fp commands point command

/-- The steps of a branch. -/
theorem step_resume (o : Outcome S) (hresume : h.resume o = some h') :
    Step h (.resume o) h' := by
  unfold resume at hresume
  split at hresume
  · contradiction
  · contradiction
  · contradiction
  · next name sdp viewerFp pc point =>
    generalize (if name = [] then h.defaultName else name) = deviceName at hresume
    have hsub := PairedDevices.fingerprints_add_subset h.shared.paired viewerFp deviceName o.io
    have hkept := PairedDevices.subset_fingerprints_add h.shared.paired viewerFp deviceName o.io
    have hadded := PairedDevices.mem_fingerprints_add h.shared.paired viewerFp deviceName o.io
    have hothers := PairedDevices.others_add h.shared.paired viewerFp deviceName o.io
    dsimp only at hresume
    split at hresume
    · next e paired heq =>
      simp only [heq] at hsub hothers
      have hfault := PairedDevices.add_error_iff.mp ⟨e, congrArg Prod.fst heq⟩
      exact Option.some.inj hresume ▸
        .approveFailed name sdp viewerFp pc o point hfault paired hsub hothers
    · next u paired heq =>
      simp only [heq] at hsub hkept hadded hothers
      exact Option.some.inj hresume ▸
        .approved name sdp viewerFp pc o point paired hsub hkept hadded hothers
  · next pc sdp n point => exact Option.some.inj hresume ▸ .applied pc sdp n o point
  · next fp point =>
    dsimp only at hresume
    split at hresume
    · next pc current => exact Option.some.inj hresume ▸ .rejected fp pc o point current
    · next current => exact Option.some.inj hresume ▸ .rejectedNone fp o point current
  · next fp pc point => exact Option.some.inj hresume ▸ .rejectClosed fp pc o point
  · next fp point =>
    split at hresume
    · next fp' pc hactive =>
      obtain ⟨hsome, hfp⟩ := Option.filter_eq_some_iff.mp hactive
      obtain rfl : fp' = fp := by simpa using hfp
      exact Option.some.inj hresume ▸ .disconnected fp' pc o point hsome
    · next hactive =>
      refine Option.some.inj hresume ▸ .disconnectedNone fp o point fun pc hpc => ?_
      simp [hpc] at hactive
  · next fp pc point => exact Option.some.inj hresume ▸ .disconnectClosed fp pc o point
  · next point =>
    dsimp only at hresume
    split at hresume
    · next old current => exact Option.some.inj hresume ▸ .joinedCurrent old o point current
    · next current => exact Option.some.inj hresume ▸ .joinedNone o point current
  · next old point => exact Option.some.inj hresume ▸ .joinClosed old o point
  · next point =>
    split at hresume
    · next offer outcome => exact Option.some.inj hresume ▸ .started offer o point outcome
    · next outcome => exact Option.some.inj hresume ▸ .startFailed o point outcome
  · next sdp viewerFp pc point =>
    split at hresume
    · next hknown =>
      have hfps := PairedDevices.fingerprints_touch h.shared.paired viewerFp o.io
      have hknown := PairedDevices.contains_iff.mp hknown
      split at hresume
      · next e paired heq =>
        rw [heq] at hfps
        obtain ⟨-, hfault⟩ := PairedDevices.touch_error_iff.mp ⟨e, congrArg Prod.fst heq⟩
        exact Option.some.inj hresume ▸
          .touchFailed sdp viewerFp pc o point hknown hfault paired hfps
      · next u paired heq =>
        rw [heq] at hfps
        exact Option.some.inj hresume ▸ .known sdp viewerFp pc o point hknown paired hfps
    · next hunknown =>
      exact Option.some.inj hresume ▸
        .unknown sdp viewerFp pc o point (mt PairedDevices.contains_iff.mpr hunknown)

/-- **Inversion**: every step of the host is one of these. -/
theorem step_of_eq {e : Event S} (hstep : (machine S).step h e = some h') : Step h e h' := by
  simp only [machine] at hstep
  cases e with
  | recv message =>
      simp only [step] at hstep
      split at hstep
      · next iceServers point => exact Option.some.inj hstep ▸ .configured iceServers point
      · next point _ => exact Option.some.inj hstep ▸ .skipped _ point
      · next point => exact Option.some.inj hstep ▸ step_receive _ point
      · contradiction
  | recvFailed =>
      simp only [step] at hstep
      split at hstep
      · next point => exact Option.some.inj hstep ▸ .lost (.inl point)
      · next point => exact Option.some.inj hstep ▸ .lost (.inr point)
      · contradiction
  | command =>
      simp only [step] at hstep
      split at hstep
      · next c commands point command =>
        exact Option.some.inj hstep ▸ step_handle c commands point command
      · contradiction
  | resume o => exact step_resume o hstep
  | page p =>
      obtain ⟨⟨status, s⟩, hpage, rfl⟩ := Option.map_eq_some_iff.mp hstep
      exact .page p status s hpage

end RemoteBridge.Host
