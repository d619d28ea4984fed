import Mathlib.Data.List.Nodup
import Mathlib.Data.List.Perm.Basic
import RemoteBridge.Viewer.Page

/-!
# Viewer.Answers

What the page answers: only the offer it started to handle last, once, and only
if it trusts the key announced there.  A call that was overtaken finds another
peer connection in `pc`, or none, and gives up.
-/

namespace RemoteBridge.Page

open Unicode Machine

variable {S N : Type}

/-! ## Peer connections -/

/-- What a peer connection was made for and from. -/
def Peer.made (peer : Peer) : Nat × Option Text := (peer.offer, peer.hostFingerprint)

/-- What the `i`-th peer connection was made for and from. -/
def madeAt (peers : List Peer) (i : Nat) : Option (Nat × Option Text) := peers[i]?.map Peer.made

variable {peers peers' : List Peer} {peer : Peer} {i j : Nat}

theorem madeAt_modify {f : Peer → Peer} (hf : ∀ peer, (f peer).made = peer.made) :
    madeAt (peers.modify j f) i = madeAt peers i := by
  simp only [madeAt, List.getElem?_modify]
  cases peers[i]? with
  | none => rfl
  | some peer => by_cases hij : j = i <;> simp [hij, hf]

theorem madeAt_map {f : Peer → Peer} (hf : ∀ peer, (f peer).made = peer.made) :
    madeAt (peers.map f) i = madeAt peers i := by
  simp only [madeAt, List.getElem?_map]
  cases peers[i]? with
  | none => rfl
  | some peer => exact congrArg some (hf peer)

theorem madeAt_set {peer' : Peer} (hpeer : peers[j]? = some peer) (hmade : peer'.made = peer.made) :
    madeAt (peers.set j peer') i = madeAt peers i := by
  rw [madeAt, madeAt]
  by_cases hij : j = i
  · subst hij
    rw [List.getElem?_set_self (List.getElem?_eq_some_iff.mp hpeer).1, hpeer]
    exact congrArg some hmade
  · rw [List.getElem?_set_ne hij]

theorem madeAt_concat : madeAt (peers ++ [peer]) i =
    if i = peers.length then some peer.made else madeAt peers i := by
  simp only [madeAt, List.getElem?_append, List.getElem?_singleton]
  grind

theorem lt_of_madeAt {made : Nat × Option Text} (h : madeAt peers i = some made) :
    i < peers.length := by
  obtain ⟨peer, hpeer, -⟩ := Option.map_eq_some_iff.mp h
  exact (List.getElem?_eq_some_iff.mp hpeer).1

/-- Descriptions and states aside, the peer connections stay what they are. -/
theorem madeAt_startOver (p : Page S N) (sdp : Option S) (session : N) :
    madeAt (p.startOver sdp session).peers i = madeAt p.peers i := by
  unfold startOver
  cases p.pc with
  | none => rfl
  | some j => exact madeAt_modify fun _ => rfl

/-! ## Steps -/

variable [Sdp S] [FinalSigma] {p p' : Page S N} {e : Event S N}

/-- What a step from `p` can be. -/
inductive Step (p : Page S N) : Event S N → Page S N → Prop
  | configured (iceServers : List IceServerConfig) (created : Bool) :
      Step p (.onmessage (.config iceServers) created) { p with iceServers := some iceServers }
  | ignored (message : Received S N) (created : Bool) : Step p (.onmessage message created) p
  | refused (sdp : Option S) (session : N) (created hostChanged : Bool) :
      Step p (.onmessage (.offer sdp session) created)
        { p.startOver sdp session with hostChanged }
  | taken (sdp : S) (session : N) (created : Bool)
      (trusted : Viewer.hostChanged p.savedHostFingerprint (hostFingerprint sdp) = false) :
      Step p (.onmessage (.offer (some sdp) session) created)
        { p.startOver (some sdp) session with
          pc := some (p.startOver (some sdp) session).peers.length
          peers := (p.startOver (some sdp) session).peers ++
            [⟨p.offers.length, hostFingerprint sdp, false, none⟩]
          calls := p.calls ++ [⟨(p.startOver (some sdp) session).peers.length, p.offers.length,
            session, .setRemoteDescription, false⟩] }
  | waited (i : Nat) (result : Option Text) (call : Call N) (peers : List Peer) (await : Await)
      (rejects hostChanged : Bool) (found : p.calls[i]? = some call)
      (made : ∀ j, madeAt peers j = madeAt p.peers j) :
      Step p (.resume i result)
        { p with peers, hostChanged, calls := p.calls.set i { call with await, rejects } }
  | ended (i : Nat) (result : Option Text) (peers : List Peer)
      (made : ∀ j, madeAt peers j = madeAt p.peers j) :
      Step p (.resume i result) { p with peers, calls := p.calls.eraseIdx i }
  | answered (i : Nat) (result : Option Text) (call : Call N) (peer : Peer) (answer : Text)
      (found : p.calls[i]? = some call) (current : p.pc = some call.peer)
      (peer_eq : p.peers[call.peer]? = some peer) (description : peer.localDescription = some answer) :
      Step p (.resume i result)
        { p with
          calls := p.calls.eraseIdx i
          answers := p.answers ++ [⟨call.offer, answer, call.session⟩] }
  | gathered (i : Nat) (localDescription : Text) (peers : List Peer)
      (made : ∀ j, madeAt peers j = madeAt p.peers j) :
      Step p (.gathered i localDescription) { p with peers }
  | shown (i : Nat) (room hostChanged : Bool) : Step p (.connected i room) { p with hostChanged }
  | saved (i : Nat) (room : Bool) (peer : Peer) (fp : Text) (peer_eq : p.peers[i]? = some peer)
      (current : p.pc = some i) (fingerprint : peer.hostFingerprint = some fp)
      (empty : Viewer.truthy p.savedHostFingerprint = false) :
      Step p (.connected i room)
        { p with storage := p.storage.saveHostFingerprint fp room, hostChanged := false }
  | forgotten : Step p .forget { p with storage := p.storage.forget }.load
  | loaded : Step p .load p.load

theorem step_onmessage (message : Received S N) (created : Bool) :
    Step p (.onmessage message created) (p.onmessage message created) := by
  cases message with
  | config iceServers => exact .configured iceServers created
  | other => exact .ignored .other created
  | offer sdp session =>
      by_cases hconfig : p.iceServers.isNone
      · simp only [onmessage, if_pos hconfig]
        exact .ignored _ created
      · simp only [onmessage, if_neg hconfig]
        cases sdp with
        | none => exact .refused none session created p.hostChanged
        | some sdp =>
            dsimp only
            split
            · exact .refused (some sdp) session created true
            · next htrusted =>
              split
              · exact .refused (some sdp) session created p.hostChanged
              · exact .taken sdp session created (Bool.eq_false_of_not_eq_true htrusted)

theorem step_resume {result : Option Text} (hstep : p.resume i result = some p') :
    Step p (.resume i result) p' := by
  have hended : ∀ (p : Page S N), Step p (.resume i result) { p with calls := p.calls.eraseIdx i } :=
    fun p => .ended i result p.peers fun _ => rfl
  unfold resume at hstep
  split at hstep
  · contradiction
  · next call hcall =>
    split at hstep
    · contradiction
    · next peer hpeer =>
      dsimp only at hstep
      split at hstep
      · exact Option.some.inj hstep ▸ hended p
      · next answer =>
        have hmade : ∀ j, madeAt (p.peers.set call.peer
            { peer with localDescription := some answer }) j = madeAt p.peers j :=
          fun j => madeAt_set hpeer rfl
        split at hstep
        · contradiction
        · split at hstep
          · exact Option.some.inj hstep ▸
              .waited i _ call p.peers .createAnswer peer.closed p.hostChanged hcall fun _ => rfl
          · exact Option.some.inj hstep ▸
              .waited i _ call p.peers .setLocalDescription peer.closed p.hostChanged hcall fun _ => rfl
          · split at hstep
            · exact Option.some.inj hstep ▸ .ended i _ _ hmade
            · split at hstep
              · exact Option.some.inj hstep ▸ .ended i _ _ hmade
              · exact Option.some.inj hstep ▸
                  .waited i _ call _ .waitForIceGathering false false hcall hmade
          · split at hstep
            · exact Option.some.inj hstep ▸ hended p
            · next hpc =>
              split at hstep
              · exact Option.some.inj hstep ▸ hended p
              · next sdp hdescription =>
                exact Option.some.inj hstep ▸
                  .answered i _ call peer sdp hcall (not_not.mp hpc) hpeer hdescription

theorem step_connected {room : Bool} (hstep : p.connected i room = some p') :
    Step p (.connected i room) p' := by
  unfold connected at hstep
  split at hstep
  · contradiction
  · next peer hpeer =>
    split at hstep
    · contradiction
    · split at hstep
      · exact Option.some.inj hstep ▸ .shown i room p.hostChanged
      · next hpc =>
        split at hstep
        · next fp hfp =>
          split at hstep
          · next hsaves =>
            have hempty : Viewer.truthy p.savedHostFingerprint = false := by
              rw [Bool.and_eq_true, Bool.not_eq_true'] at hsaves
              exact hsaves.1
            exact Option.some.inj hstep ▸ .saved i room peer fp hpeer (not_not.mp hpc) hfp hempty
          · exact Option.some.inj hstep ▸ .shown i room false
        · exact Option.some.inj hstep ▸ .shown i room false

/-- **Inversion**: every step of the page is one of these. -/
theorem step_of_eq (hstep : (machine S N).step p e = some p') : Step p e p' := by
  simp only [machine] at hstep
  cases e with
  | onmessage message created => exact Option.some.inj hstep ▸ step_onmessage message created
  | resume call result => exact step_resume hstep
  | connected i room => exact step_connected hstep
  | load => exact Option.some.inj hstep ▸ .loaded
  | forget =>
      simp only [step] at hstep
      split at hstep
      · exact Option.some.inj hstep ▸ .forgotten
      · contradiction
  | gathered i localDescription =>
      simp only [step] at hstep
      split at hstep
      · contradiction
      · next peer hpeer =>
        split at hstep
        · contradiction
        · exact Option.some.inj hstep ▸
            .gathered i localDescription _ fun _ => madeAt_set hpeer rfl

/-! ## The invariant -/

/-- The current peer connection is of the last offer, every peer connection of an
offer that was trusted, every call of its peer connection's; and no offer has two
calls, or a call and an answer, or two answers. -/
structure Sound (p : Page S N) : Prop where
  current : ∀ i, p.pc = some i → ∃ n fp, n + 1 = p.offers.length ∧ madeAt p.peers i = some (n, fp)
  peers : ∀ i n fp, madeAt p.peers i = some (n, fp) → ∃ offer sdp, p.offers[n]? = some offer ∧
    offer.sdp = some sdp ∧ fp = hostFingerprint sdp ∧ Viewer.hostChanged offer.saved fp = false
  calls : ∀ call ∈ p.calls, ∃ fp offer, madeAt p.peers call.peer = some (call.offer, fp) ∧
    p.offers[call.offer]? = some offer ∧ offer.session = call.session
  answers : ∀ answer ∈ p.answers, answer.offer < p.offers.length
  once : (p.calls.map (·.offer) ++ p.answers.map (·.offer)).Nodup

theorem sound_init (storage : Storage) : Sound (init storage : Page S N) where
  current i hi := by simp [init] at hi
  peers i n fp h := by simp [init, madeAt] at h
  calls call hcall := by simp [init] at hcall
  answers answer hanswer := by simp [init] at hanswer
  once := by simp [init]

/-- A step that makes no peer connection and no call. -/
theorem Sound.keep (hinv : Sound p) (hoffers : p'.offers = p.offers)
    (hmade : ∀ j, madeAt p'.peers j = madeAt p.peers j)
    (hpc : ∀ i, p'.pc = some i → p.pc = some i)
    (hcalls : ∀ call' ∈ p'.calls, ∃ call ∈ p.calls, call'.peer = call.peer ∧
      call'.offer = call.offer ∧ call'.session = call.session)
    (hanswers : ∀ answer ∈ p'.answers, answer.offer < p.offers.length)
    (honce : (p'.calls.map (·.offer) ++ p'.answers.map (·.offer)).Nodup) : Sound p' where
  current i hi := by
    rw [hoffers, hmade]
    exact hinv.current i (hpc i hi)
  peers i n fp h := by
    rw [hmade] at h
    rw [hoffers]
    exact hinv.peers i n fp h
  calls call' hcall' := by
    obtain ⟨call, hcall, hpeer, hoffer, hsession⟩ := hcalls call' hcall'
    rw [hpeer, hoffer, hsession, hoffers, hmade]
    exact hinv.calls call hcall
  answers := by rwa [hoffers]
  once := honce

/-- An offer starts over. -/
theorem Sound.startOver (hinv : Sound p) (sdp : Option S) (session : N) :
    Sound (p.startOver sdp session) where
  current i hi := by simp [Page.startOver] at hi
  peers i n fp h := by
    rw [madeAt_startOver] at h
    obtain ⟨offer, sdp', hoffer, hspec⟩ := hinv.peers i n fp h
    have hlt := (List.getElem?_eq_some_iff.mp hoffer).1
    exact ⟨offer, sdp', by rwa [Page.startOver, List.getElem?_append_left hlt], hspec⟩
  calls call hcall := by
    obtain ⟨fp, offer, hmade, hoffer, hsession⟩ := hinv.calls call hcall
    have hlt := (List.getElem?_eq_some_iff.mp hoffer).1
    exact ⟨fp, offer, by rwa [madeAt_startOver],
      by rwa [Page.startOver, List.getElem?_append_left hlt], hsession⟩
  answers answer hanswer := by
    rw [Page.startOver, List.length_append]
    exact Nat.lt_add_right _ (hinv.answers answer hanswer)
  once := hinv.once

/-- The numbers of the calls are those of offers. -/
theorem Sound.call_lt (hinv : Sound p) {call : Call N} (hcall : call ∈ p.calls) :
    call.offer < p.offers.length := by
  obtain ⟨fp, offer, -, hoffer, -⟩ := hinv.calls call hcall
  exact (List.getElem?_eq_some_iff.mp hoffer).1

/-- An offer that is taken has a peer connection and a call of its own. -/
theorem Sound.take (hinv : Sound p) {sdp : S} {session : N}
    (htrusted : Viewer.hostChanged p.savedHostFingerprint (hostFingerprint sdp) = false) :
    Sound { p.startOver (some sdp) session with
      pc := some (p.startOver (some sdp) session).peers.length
      peers := (p.startOver (some sdp) session).peers ++
        [⟨p.offers.length, hostFingerprint sdp, false, none⟩]
      calls := p.calls ++ [⟨(p.startOver (some sdp) session).peers.length, p.offers.length, session,
        .setRemoteDescription, false⟩] } := by
  have hstart := hinv.startOver (some sdp) session
  have hoffer : (p.startOver (some sdp) session).offers[p.offers.length]? =
      some ⟨some sdp, session, p.savedHostFingerprint⟩ := List.getElem?_concat_length
  have hlength : (p.startOver (some sdp) session).offers.length = p.offers.length + 1 := by
    simp [Page.startOver]
  refine ⟨fun i hi => ?_, fun i n fp h => ?_, fun call hcall => ?_, hstart.answers, ?_⟩
  · obtain rfl := Option.some.inj hi
    exact ⟨p.offers.length, _, hlength.symm, by rw [madeAt_concat, if_pos rfl]; rfl⟩
  · rw [madeAt_concat] at h
    split at h
    · obtain ⟨rfl, rfl⟩ := Prod.ext_iff.mp (Option.some.inj h)
      exact ⟨_, sdp, hoffer, rfl, rfl, htrusted⟩
    · exact hstart.peers i n fp h
  · rcases List.mem_append.mp hcall with hcall | hcall
    · obtain ⟨fp, offer, hmade, hspec⟩ := hstart.calls call hcall
      have hne := Nat.ne_of_lt (lt_of_madeAt hmade)
      exact ⟨fp, offer, by rwa [madeAt_concat, if_neg hne], hspec⟩
    · rw [List.mem_singleton.mp hcall]
      exact ⟨_, _, by rw [madeAt_concat, if_pos rfl]; rfl, hoffer, rfl⟩
  · have hnew : ∀ n ∈ p.calls.map (·.offer) ++ p.answers.map (·.offer), n ≠ p.offers.length := by
      intro n hn
      rcases List.mem_append.mp hn with hn | hn
      · obtain ⟨call, hcall, rfl⟩ := List.mem_map.mp hn
        exact Nat.ne_of_lt (hinv.call_lt hcall)
      · obtain ⟨answer, hanswer, rfl⟩ := List.mem_map.mp hn
        exact Nat.ne_of_lt (hinv.answers answer hanswer)
    rw [List.map_append, List.append_assoc, List.map_singleton, List.singleton_append,
      List.nodup_middle, List.nodup_cons]
    exact ⟨fun hmem => hnew _ hmem rfl, hinv.once⟩

/-- **One step** keeps the invariant. -/
theorem Step.sound (hstep : Step p e p') (hinv : Sound p) : Sound p' := by
  have hsame : ∀ calls : List (Call N), calls ⊆ p.calls → ∀ call' ∈ calls, ∃ call ∈ p.calls,
      call'.peer = call.peer ∧ call'.offer = call.offer ∧ call'.session = call.session :=
    fun calls hsub call hcall => ⟨call, hsub hcall, rfl, rfl, rfl⟩
  cases hstep with
  | configured | ignored | shown | saved =>
      exact hinv.keep rfl (fun _ => rfl) (fun _ h => h) (hsame _ (List.Subset.refl _)) hinv.answers
        hinv.once
  | refused sdp session =>
      exact (hinv.startOver sdp session).keep rfl (fun _ => rfl) (fun _ h => h)
        (fun call hcall => ⟨call, hcall, rfl, rfl, rfl⟩) (hinv.startOver sdp session).answers
        hinv.once
  | taken sdp session created htrusted => exact hinv.take htrusted
  | gathered i localDescription peers hmade =>
      exact hinv.keep rfl hmade (fun _ h => h) (hsame _ (List.Subset.refl _)) hinv.answers hinv.once
  | waited i result call peers await rejects hostChanged hcall hmade =>
      have hoffers : (p.calls.set i { call with await, rejects }).map (·.offer) =
          p.calls.map (·.offer) := by
        obtain ⟨hlt, rfl⟩ := List.getElem?_eq_some_iff.mp hcall
        have hlt : i < (p.calls.map (·.offer)).length := by simpa using hlt
        rw [List.map_set]
        simpa only [List.getElem_map] using List.set_getElem_self hlt
      refine hinv.keep rfl hmade (fun _ h => h) (fun call' hcall' => ?_) hinv.answers
        (by rw [hoffers]; exact hinv.once)
      rcases List.mem_or_eq_of_mem_set hcall' with hcall' | rfl
      · exact ⟨call', hcall', rfl, rfl, rfl⟩
      · exact ⟨call, List.mem_of_getElem? hcall, rfl, rfl, rfl⟩
  | ended i result peers hmade =>
      refine hinv.keep rfl hmade (fun _ h => h) (hsame _ (List.eraseIdx_subset ..)) hinv.answers ?_
      exact hinv.once.sublist
        (((List.eraseIdx_sublist ..).map _).append_right _)
  | answered i result call peer answer hcall =>
      have hmem := List.mem_of_getElem? hcall
      refine hinv.keep rfl (fun _ => rfl) (fun _ h => h) (hsame _ (List.eraseIdx_subset ..))
        (fun a ha => ?_) ?_
      · rcases List.mem_append.mp ha with ha | ha
        · exact hinv.answers a ha
        · rw [List.mem_singleton.mp ha]
          exact hinv.call_lt hmem
      · -- the call's number moves to the answers
        obtain ⟨hlt, rfl⟩ := List.getElem?_eq_some_iff.mp hcall
        have hcalls := (List.getElem_cons_eraseIdx_perm hlt).map (·.offer)
        rw [List.map_append, ← List.append_assoc, List.map_singleton,
          (List.perm_append_singleton _ _).nodup_iff, ← List.cons_append]
        exact (hcalls.append_right _).nodup_iff.mpr hinv.once
  | forgotten | loaded =>
      refine hinv.keep rfl (fun j => madeAt_map fun _ => rfl) (by simp [load])
        (by simp [load]) hinv.answers ?_
      exact hinv.once.sublist (List.sublist_append_right _ _)

/-! ## Every run -/

theorem sound_of_run {storage : Storage} {es : List (Event S N)}
    (hrun : (machine S N).Run (init storage) es p) : Sound p :=
  hrun.invariant (sound_init storage) fun _ _ _ hinv hstep => (step_of_eq hstep).sound hinv

/-- The page sends its answer to the offer it started to handle last, which it
trusted then, with the description of the peer connection it made from it. -/
structure Sends (p p' : Page S N) (offer : Offer S N) (sdp : S) (peer : Peer) (answer : Text) :
    Prop where
  newest : p.offers.getLast? = some offer
  offered : offer.sdp = some sdp
  trusted : ∃ fp, hostFingerprint sdp = some fp ∧
    (Viewer.truthy offer.saved → offer.saved = some fp)
  current : ∃ i, p.pc = some i ∧ p.peers[i]? = some peer ∧ peer.offer + 1 = p.offers.length
  description : peer.localDescription = some answer
  answers : p'.answers = p.answers ++ [⟨peer.offer, answer, offer.session⟩]

/-- The current peer connection is connected, and the fingerprint its offer
announced is saved where there was none. -/
structure Saves (p : Page S N) (e : Event S N) (p' : Page S N) (peer : Peer) (sdp : S) (fp : Text) :
    Prop where
  connected : ∃ i room, e = .connected i room ∧ p.pc = some i ∧ p.peers[i]? = some peer
  offered : ∃ offer, p.offers[peer.offer]? = some offer ∧ offer.sdp = some sdp
  announced : hostFingerprint sdp = some fp
  empty : Viewer.truthy p.savedHostFingerprint = false
  saved : p'.savedHostFingerprint = some fp

/-- A step sends no answer, or one to the newest offer; and it leaves the saved
fingerprint as it is, saves it, or forgets it. -/
structure Careful (p : Page S N) (e : Event S N) (p' : Page S N) : Prop where
  answers : p'.answers = p.answers ∨ ∃ offer sdp peer answer, Sends p p' offer sdp peer answer
  saved : p'.savedHostFingerprint = p.savedHostFingerprint ∨
    (∃ peer sdp fp, Saves p e p' peer sdp fp) ∨ e = .forget ∧ p'.savedHostFingerprint = none

omit [FinalSigma] in
/-- What was trusted announces a fingerprint, and the saved one if there is any. -/
theorem trusted_of_not_hostChanged {savedFp hostFp : Option Text}
    (h : Viewer.hostChanged savedFp hostFp = false) :
    ∃ fp, hostFp = some fp ∧ (Viewer.truthy savedFp → savedFp = some fp) := by
  rw [Viewer.hostChanged, Bool.or_eq_false_iff] at h
  obtain ⟨htruthy, hsame⟩ := h
  cases hostFp with
  | none => contradiction
  | some fp =>
      refine ⟨fp, rfl, fun hsaved => ?_⟩
      rw [hsaved] at hsame
      simpa using hsame

/-- The call of the current peer connection belongs to the newest offer. -/
theorem Sound.sends (hinv : Sound p) {call : Call N} {peer : Peer} {answer : Text}
    (hcall : call ∈ p.calls) (hpc : p.pc = some call.peer) (hpeer : p.peers[call.peer]? = some peer)
    (hdescription : peer.localDescription = some answer)
    (hanswers : p'.answers = p.answers ++ [⟨call.offer, answer, call.session⟩]) :
    ∃ offer sdp peer answer, Sends p p' offer sdp peer answer := by
  obtain ⟨n, fp, hn, hmade⟩ := hinv.current call.peer hpc
  obtain ⟨fp', offer, hmade', hoffer, hsession⟩ := hinv.calls call hcall
  obtain ⟨hcallOffer, rfl⟩ := Prod.ext_iff.mp (Option.some.inj (hmade.symm.trans hmade'))
  obtain ⟨offer', sdp, hoffer', hsdp, hfp, htrusted⟩ := hinv.peers _ _ _ hmade'
  obtain rfl := Option.some.inj (hoffer.symm.trans hoffer')
  have hpeerOffer : peer.offer = call.offer := by
    rw [madeAt, hpeer] at hmade'
    exact (Prod.ext_iff.mp (Option.some.inj hmade')).1
  have hlast : call.offer + 1 = p.offers.length := by
    rw [← hn]
    exact congrArg (· + 1) hcallOffer.symm
  refine ⟨offer, sdp, peer, answer, ?_, hsdp, ?_, ⟨call.peer, hpc, hpeer, ?_⟩, hdescription, ?_⟩
  · rw [List.getLast?_eq_getElem?, ← hlast, Nat.add_sub_cancel]
    exact hoffer
  · rw [← hfp]
    exact trusted_of_not_hostChanged htrusted
  · rw [hpeerOffer, hlast]
  · rw [hanswers, hpeerOffer, hsession]

/-- **One step** is careful. -/
theorem Step.careful (hstep : Step p e p') (hinv : Sound p) : Careful p e p' := by
  cases hstep with
  | configured | ignored | refused | taken | waited | ended | gathered | shown | loaded =>
      exact ⟨.inl rfl, .inl rfl⟩
  | answered i result call peer answer hcall hpc hpeer hdescription =>
      exact ⟨.inr (hinv.sends (List.mem_of_getElem? hcall) hpc hpeer hdescription rfl), .inl rfl⟩
  | forgotten =>
      refine ⟨.inl rfl, .inr (.inr ⟨rfl, ?_⟩)⟩
      simp only [savedHostFingerprint, load]
      cases p.storage <;> rfl
  | saved i room peer fp hpeer hpc hfp hempty =>
      refine ⟨.inl rfl, ?_⟩
      have hmade : madeAt p.peers i = some (peer.offer, peer.hostFingerprint) := by
        rw [madeAt, hpeer]
        rfl
      obtain ⟨offer, sdp, hoffer, hsdp, hannounced, -⟩ := hinv.peers i _ _ hmade
      have hstorage : p.storage.saveHostFingerprint fp room = p.storage ∨
          (p.storage.saveHostFingerprint fp room).savedHostFingerprint = some fp := by
        cases p.storage with
        | denied => exact .inl rfl
        | item value =>
            cases room with
            | false => exact .inl rfl
            | true => exact .inr rfl
      rcases hstorage with hsame | hsaved
      · exact .inl (congrArg Storage.savedHostFingerprint hsame)
      · exact .inr (.inl ⟨peer, sdp, fp, ⟨i, room, rfl, hpc, hpeer⟩, ⟨offer, hoffer, hsdp⟩,
          hannounced.symm.trans hfp, hempty, hsaved⟩)

/-- **The viewer answers only the newest offer and only the host it trusts**, at
most once each; and what it saved changes only from nothing to the key of the
host it is connected to, or is forgotten. -/
theorem careful_of_run {storage : Storage} {es : List (Event S N)}
    (hrun : (machine S N).Run (init storage) es p) :
    (p.answers.map (·.offer)).Nodup ∧
      ∀ e p', (machine S N).step p e = some p' → Careful p e p' := by
  have hinv := sound_of_run hrun
  exact ⟨(List.nodup_append.mp hinv.once).2.1, fun e p' hstep => (step_of_eq hstep).careful hinv⟩

omit [Sdp S] [FinalSigma] in
/-- `careful_of_run` for an offer that arrives while an older one waits: the older
call gives up, the newer one answers, and the host's key is saved. -/
theorem careful_of_run_overtaken :
    letI : FinalSigma := ⟨fun _ _ => false⟩
    ∃ es p, (machine Text UInt32).Run (init (.item none)) es p ∧
      p.answers = [⟨1, text "a=fingerprint:sha-256 b1", 2⟩] ∧
      p.savedHostFingerprint = some (text "0a") ∧
      ∀ e p', (machine Text UInt32).step p e = some p' → Careful p e p' := by
  let _ : FinalSigma := ⟨fun _ _ => false⟩
  let offer (session : UInt32) : Event Text UInt32 :=
    .onmessage (.offer (some (text "a=fingerprint:sha-256 0A")) session) true
  let goOn (call : Nat) : Event Text UInt32 :=
    .resume call (some (text "a=fingerprint:sha-256 b1"))
  obtain ⟨p, hrun, hend⟩ := exists_run (machine Text UInt32) (init (.item none))
    [.onmessage (.config []) true, offer 1, goOn 0, offer 2, goOn 1, goOn 1, .resume 0 none, goOn 0,
      goOn 0, .connected 1 true]
    (fun p => p.answers = [⟨1, text "a=fingerprint:sha-256 b1", 2⟩] ∧
      p.savedHostFingerprint = some (text "0a")) (by decide +kernel)
  obtain ⟨hanswers, hsaved⟩ := of_decide_eq_true hend
  exact ⟨_, p, hrun, hanswers, hsaved, (careful_of_run hrun).2⟩

end RemoteBridge.Page
