import Mathlib.Data.List.InsertIdx
import RemoteBridge.Viewer.Answers

/-!
# Viewer.Refines

The page with all its waits, while it stays loaded, does what the page in the
network does: what a call does before its answer is made, and what is saved, is
not seen there.
-/

namespace RemoteBridge

open Unicode Machine

namespace Viewer

inductive Event where
  | onmessage (message : Message) (savedFp : Option Text) (created : Bool)
  | goOn (call : Nat) (description : Option Text)

variable [FinalSigma]

/-- The page and what it sent, as a machine of its own. -/
def machine : Machine (Viewer × List Message) Event where
  step
    | (v, sent), .onmessage message savedFp created =>
        some (v.onmessage message savedFp created, sent)
    | (v, sent), .goOn call description =>
        (v.goOn call description).map fun (v', out) => (v', sent ++ out)

variable {v : Viewer} {i : Nat} {call : Call}

theorem goOn_failed (hcall : v.calls[i]? = some call) :
    v.goOn i none = some ({ v with calls := v.calls.eraseIdx i }, []) := by
  rw [goOn, hcall]
  rfl

theorem goOn_stale (hcall : v.calls[i]? = some call) (hpc : v.pc ≠ some call.peer) (text : Text) :
    v.goOn i (some text) = some ({ v with calls := v.calls.eraseIdx i }, []) := by
  rw [goOn, hcall]
  simp [hpc]

/-- An answer without a fingerprint ends its call. -/
theorem goOn_unnamed (hcall : v.calls[i]? = some call) (hpc : v.pc = some call.peer)
    (hgathering : call.gathering = false) {text : Text}
    (hfp : Pairing.Page.fingerprintFromSdp text = none) :
    v.goOn i (some text) = some ({ v with calls := v.calls.eraseIdx i }, []) := by
  rw [goOn, hcall]
  simp [hpc, hgathering, hfp]

/-- An answer that is made is not sent before its candidates are gathered. -/
theorem goOn_gathers (hcall : v.calls[i]? = some call) (hpc : v.pc = some call.peer)
    (hgathering : call.gathering = false) {text : Text}
    (hfp : Pairing.Page.fingerprintFromSdp text ≠ none) :
    v.goOn i (some text) =
      some ({ v with calls := v.calls.set i { call with gathering := true } }, []) := by
  rw [goOn, hcall]
  simp [hpc, hgathering, hfp]

theorem goOn_answers (hcall : v.calls[i]? = some call) (hpc : v.pc = some call.peer)
    (hgathering : call.gathering = true) (text : Text) :
    v.goOn i (some text) = some ({ v with calls := v.calls.eraseIdx i },
      [.answer (.answer text call.offer) call.session]) := by
  rw [goOn, hcall]
  simp [hpc, hgathering]

end Viewer

namespace Page

/-- A message of the server's, as the page takes it. -/
def Received.ofMessage : Message → Received Desc UInt32
  | .config iceServers => .config iceServers
  | .offer sdp session => .offer (some sdp) session
  | .viewerJoined | .answer _ _ => .other

/-- An event while the page stays loaded, with messages of the server's. -/
def Event.Plain : Event Desc UInt32 → Prop
  | .onmessage message _ => ∃ m, message = .ofMessage m
  | .forget | .load => False
  | .resume _ _ | .gathered _ _ | .connected _ _ => True

/-! ## What is seen of a page -/

variable {offers : List (Offer Desc UInt32)} {p p' : Page Desc UInt32} {v : Viewer}
variable {sent : List Message}

/-- The description that was offered. -/
def offered (offers : List (Offer Desc UInt32)) (n : Nat) : Option Desc :=
  offers[n]?.bind (·.sdp)

/-- What is seen of a waiting call. -/
def seenCall (offers : List (Offer Desc UInt32)) (call : Call UInt32) :
    Option RemoteBridge.Call :=
  (offered offers call.offer).map fun sdp =>
    ⟨call.peer, sdp, call.session, call.await = .waitForIceGathering⟩

/-- What is seen of an answer. -/
def seenAnswer (offers : List (Offer Desc UInt32)) (answer : Answer UInt32) : Option Message :=
  (offered offers answer.offer).map fun sdp => .answer (.answer answer.sdp sdp) answer.session

/-- The page of the network, and what it sent, is what is seen of this one. -/
structure Shows (p : Page Desc UInt32) (v : Viewer) (sent : List Message) : Prop where
  iceServers : v.iceServers = p.iceServers
  pc : v.pc = p.pc
  peers : v.peers = p.peers.length
  calls : p.calls.map (seenCall p.offers) = v.calls.map some
  sent : p.answers.map (seenAnswer p.offers) = sent.map some

theorem shows_init (storage : Storage) : Shows (init storage) .init [] :=
  ⟨rfl, rfl, rfl, rfl, rfl⟩

/-- What was offered is not changed by a later offer. -/
theorem offered_append {n : Nat} {sdp : Desc} {offer : Offer Desc UInt32}
    (h : offered offers n = some sdp) : offered (offers ++ [offer]) n = some sdp := by
  obtain ⟨o, ho, hsdp⟩ := Option.bind_eq_some_iff.mp h
  rw [offered, List.getElem?_append_left (List.getElem?_eq_some_iff.mp ho).1, ho]
  exact hsdp

/-- What is seen stays as it is when each part of it does. -/
theorem map_eq_of_kept {α β : Type} {f g : α → Option β} {xs : List α} {ys : List β}
    (h : xs.map f = ys.map some) (hfg : ∀ x y, f x = some y → g x = some y) :
    xs.map g = ys.map some := by
  rw [← h]
  refine List.map_congr_left fun x hx => ?_
  have hmem : f x ∈ ys.map some := h ▸ List.mem_map_of_mem hx
  obtain ⟨y, -, hy⟩ := List.mem_map.mp hmem
  rw [← hy, hfg x y hy.symm]

/-! ## Steps -/

theorem Shows.startOver (h : Shows p v sent) (sdp : Desc) (session : UInt32) :
    Shows (p.startOver (some sdp) session) { v with pc := none } sent where
  iceServers := h.iceServers
  pc := rfl
  peers := by
    rw [h.peers, Page.startOver]
    cases p.pc with
    | none => rfl
    | some i => exact (List.length_modify ..).symm
  calls := by
    refine map_eq_of_kept h.calls fun call seen hseen => ?_
    obtain ⟨sdp, hsdp, rfl⟩ := Option.map_eq_some_iff.mp hseen
    rw [seenCall, Page.startOver, offered_append hsdp]
    rfl
  sent := by
    refine map_eq_of_kept h.sent fun answer seen hseen => ?_
    obtain ⟨sdp, hsdp, rfl⟩ := Option.map_eq_some_iff.mp hseen
    rw [seenAnswer, Page.startOver, offered_append hsdp]
    rfl

theorem offered_startOver (p : Page Desc UInt32) (sdp : Desc) (session : UInt32) :
    offered (p.startOver (some sdp) session).offers p.offers.length = some sdp := by
  rw [offered, Page.startOver, List.getElem?_concat_length]
  rfl

variable [FinalSigma]

/-- A peer connection is made for an offer, and its call waits. -/
theorem Shows.take (h : Shows p v sent) (sdp : Desc) (session : UInt32) :
    Shows { p.startOver (some sdp) session with
        pc := some (p.startOver (some sdp) session).peers.length
        peers := (p.startOver (some sdp) session).peers ++
          [⟨p.offers.length, hostFingerprint sdp, false, none⟩]
        calls := (p.startOver (some sdp) session).calls ++
          [⟨(p.startOver (some sdp) session).peers.length, p.offers.length, session,
            .setRemoteDescription, false⟩] }
      { v with
        pc := some v.peers
        peers := v.peers + 1
        calls := v.calls ++ [⟨v.peers, sdp, session, false⟩] } sent := by
  have hstart := h.startOver sdp session
  refine ⟨hstart.iceServers, congrArg some hstart.peers, ?_, ?_, hstart.sent⟩
  · rw [List.length_append, ← hstart.peers]
    rfl
  · rw [List.map_append, List.map_append, hstart.calls, List.map_singleton, ← hstart.peers]
    simp only [seenCall, offered_startOver]
    rfl

omit [FinalSigma] in
/-- A waiting call is seen. -/
theorem Shows.call (h : Shows p v sent) {i : Nat} {call : Call UInt32}
    (hcall : p.calls[i]? = some call) :
    ∃ sdp, offered p.offers call.offer = some sdp ∧ v.calls[i]? =
      some ⟨call.peer, sdp, call.session, call.await = .waitForIceGathering⟩ := by
  have hseen : (p.calls[i]?.map (seenCall p.offers)) = v.calls[i]?.map some := by
    rw [← List.getElem?_map, h.calls, List.getElem?_map]
  rw [hcall, Option.map_some] at hseen
  obtain ⟨seen, hfound, hsome⟩ := Option.map_eq_some_iff.mp hseen.symm
  obtain ⟨sdp, hsdp, rfl⟩ := Option.map_eq_some_iff.mp hsome.symm
  exact ⟨sdp, hsdp, hfound⟩

omit [FinalSigma] in
/-- A call ends. -/
theorem Shows.erase (h : Shows p v sent) (i : Nat) :
    Shows { p with calls := p.calls.eraseIdx i } { v with calls := v.calls.eraseIdx i } sent :=
  { h with
    calls := by rw [← List.eraseIdx_map, h.calls, List.eraseIdx_map] }

omit [FinalSigma] in
/-- A call waits for something else. -/
theorem Shows.wait (h : Shows p v sent) (i : Nat) {call : Call UInt32} {sdp : Desc}
    (hsdp : offered p.offers call.offer = some sdp) (await : Await) (rejects : Bool) :
    Shows { p with calls := p.calls.set i { call with await, rejects } }
      { v with
        calls := v.calls.set i ⟨call.peer, sdp, call.session, await = .waitForIceGathering⟩ }
      sent :=
  { h with
    calls := by
      rw [List.map_set, h.calls, List.map_set]
      simp only [seenCall, hsdp, Option.map_some] }

omit [FinalSigma] in
/-- An answer is sent. -/
theorem Shows.answer (h : Shows p v sent) {call : Call UInt32} {sdp : Desc}
    (hsdp : offered p.offers call.offer = some sdp) (text : Text) :
    Shows { p with answers := p.answers ++ [⟨call.offer, text, call.session⟩] } v
      (sent ++ [.answer (.answer text sdp) call.session]) :=
  { h with
    sent := by
      rw [List.map_append, List.map_append, h.sent]
      simp only [List.map_singleton, seenAnswer, hsdp, Option.map_some] }

theorem Shows.onmessage (h : Shows p v sent) (message : Message) (created : Bool) :
    Shows (p.onmessage (.ofMessage message) created)
      (v.onmessage message p.savedHostFingerprint created) sent := by
  cases message with
  | config iceServers => exact { h with iceServers := rfl }
  | viewerJoined => exact h
  | answer sdp session => exact h
  | offer sdp session =>
      by_cases hconfig : p.iceServers = none
      · have hconfig' : v.iceServers = none := h.iceServers.trans hconfig
        simp only [Received.ofMessage, Page.onmessage, Viewer.onmessage, hconfig, hconfig',
          Option.isNone_none, if_true]
        exact h
      · have hstart := h.startOver sdp session
        have hconfig' : v.iceServers ≠ none := fun hnone => hconfig (h.iceServers.symm.trans hnone)
        have hsome : ¬ p.iceServers.isNone := mt Option.isNone_iff_eq_none.mp hconfig
        have hfp : Pairing.Page.fingerprintFromSdp (Sdp.text sdp) = hostFingerprint sdp := rfl
        simp only [Received.ofMessage, Page.onmessage, Viewer.onmessage, hfp, if_neg hconfig',
          if_neg hsome]
        by_cases hchanged : Viewer.hostChanged p.savedHostFingerprint (hostFingerprint sdp)
        · rw [if_pos hchanged, if_pos hchanged]
          exact { hstart with }
        · rw [if_neg hchanged, if_neg hchanged]
          cases created with
          | false => exact hstart
          | true => exact h.take sdp session

/-- What the page in the network does for a call that ends here without an answer. -/
theorem Shows.ends (h : Shows p v sent) {i : Nat} {description : Option Text}
    (hgo : v.goOn i description = some ({ v with calls := v.calls.eraseIdx i }, []))
    {peers : List Peer} (hpeers : peers.length = p.peers.length) :
    ∃ description v' out, v.goOn i description = some (v', out) ∧
      Shows { p with peers, calls := p.calls.eraseIdx i } v' (sent ++ out) := by
  refine ⟨description, _, [], hgo, ?_⟩
  rw [List.append_nil]
  exact { h.erase i with peers := h.peers.trans hpeers.symm }

omit [FinalSigma] in
/-- Before its answer is made, what a call waits for is not seen. -/
theorem Shows.waits (h : Shows p v sent) {i : Nat} {call : Call UInt32} {sdp : Desc}
    (hsdp : offered p.offers call.offer = some sdp)
    (hseen : v.calls[i]? =
      some ⟨call.peer, sdp, call.session, call.await = .waitForIceGathering⟩)
    (hcall : call.await ≠ .waitForIceGathering) {await : Await}
    (hawait : await ≠ .waitForIceGathering) (rejects : Bool) :
    Shows { p with calls := p.calls.set i { call with await, rejects } } v sent := by
  rw [decide_eq_false hcall] at hseen
  have hsame : v.calls.set i ⟨call.peer, sdp, call.session, false⟩ = v.calls := by
    obtain ⟨hlt, heq⟩ := List.getElem?_eq_some_iff.mp hseen
    rw [← heq]
    exact List.set_getElem_self hlt
  have hset := h.wait i hsdp await rejects
  rwa [decide_eq_false hawait, hsame] at hset

/-- A call goes on before its answer is made, which is not seen, or as its call in
the network does. -/
theorem Shows.resume (h : Shows p v sent) {i : Nat} {result : Option Text}
    (hstep : p.resume i result = some p') :
    Shows p' v sent ∨ ∃ description v' out, v.goOn i description = some (v', out) ∧
      Shows p' v' (sent ++ out) := by
  unfold Page.resume at hstep
  split at hstep
  · contradiction
  · next call hcall =>
    obtain ⟨sdp, hsdp, hseen⟩ := h.call hcall
    split at hstep
    · contradiction
    · next peer hpeer =>
      dsimp only at hstep
      split at hstep
      · -- the wait fails
        exact Option.some.inj hstep ▸ .inr (h.ends (Viewer.goOn_failed hseen) rfl)
      · next answer =>
        split at hstep
        · contradiction
        · split at hstep
          case h_1 hawait =>
            exact Option.some.inj hstep ▸ .inl (h.waits hsdp hseen (by simp [hawait]) (by simp) _)
          case h_2 hawait =>
            exact Option.some.inj hstep ▸ .inl (h.waits hsdp hseen (by simp [hawait]) (by simp) _)
          case h_3 hawait =>
            rw [hawait] at hseen
            split at hstep
            · next hpc =>
              have hstale := Viewer.goOn_stale hseen (h.pc ▸ hpc) answer
              exact Option.some.inj hstep ▸ .inr (h.ends hstale List.length_set)
            · next hpc =>
              rw [not_not, ← h.pc] at hpc
              split at hstep
              · next hfp =>
                have hgo := Viewer.goOn_unnamed hseen hpc rfl hfp
                exact Option.some.inj hstep ▸ .inr (h.ends hgo List.length_set)
              · next hfp =>
                have hset := h.wait i hsdp .waitForIceGathering false
                refine Option.some.inj hstep ▸
                  .inr ⟨some answer, _, [], Viewer.goOn_gathers hseen hpc rfl hfp, ?_⟩
                rw [List.append_nil]
                exact { hset with peers := h.peers.trans List.length_set.symm }
          case h_4 hawait =>
            rw [hawait] at hseen
            split at hstep
            · next hpc =>
              have hstale := Viewer.goOn_stale hseen (h.pc ▸ hpc) answer
              exact Option.some.inj hstep ▸ .inr (h.ends hstale rfl)
            · next hpc =>
              rw [not_not, ← h.pc] at hpc
              split at hstep
              · exact Option.some.inj hstep ▸ .inr (h.ends (Viewer.goOn_failed hseen) rfl)
              · next text htext =>
                exact Option.some.inj hstep ▸ .inr ⟨some text, _, _,
                  Viewer.goOn_answers hseen hpc rfl text, (h.erase i).answer hsdp text⟩

/-- **One step** of a page that stays loaded is a step of the page in the network,
or nothing that is seen of it. -/
theorem Shows.step (h : Shows p v sent) {e : Event Desc UInt32} (hplain : e.Plain)
    (hstep : (machine Desc UInt32).step p e = some p') :
    ∃ es vs, Viewer.machine.Run (v, sent) es vs ∧ Shows p' vs.1 vs.2 := by
  have hquiet (hshows : Shows p' v sent) :
      ∃ es vs, Viewer.machine.Run (v, sent) es vs ∧ Shows p' vs.1 vs.2 :=
    ⟨[], (v, sent), run_nil.mpr rfl, hshows⟩
  simp only [machine] at hstep
  cases e with
  | forget => exact hplain.elim
  | load => exact hplain.elim
  | onmessage message created =>
      obtain ⟨m, rfl⟩ := hplain
      refine ⟨[.onmessage m p.savedHostFingerprint created], (_, sent),
        run_cons.mpr ⟨_, rfl, run_nil.mpr rfl⟩, ?_⟩
      exact Option.some.inj hstep ▸ h.onmessage m created
  | resume i result =>
      rcases h.resume hstep with hshows | ⟨description, v', out, hgo, hshows⟩
      · exact hquiet hshows
      · refine ⟨[.goOn i description], (v', sent ++ out),
          run_cons.mpr ⟨_, ?_, run_nil.mpr rfl⟩, hshows⟩
        simp only [Viewer.machine, hgo, Option.map_some]
  | connected i room =>
      refine hquiet ?_
      cases step_connected hstep with
      | shown | saved => exact { h with }
  | gathered i localDescription =>
      simp only [Page.step] at hstep
      split at hstep
      · contradiction
      · split at hstep
        · contradiction
        · refine hquiet (Option.some.inj hstep ▸ ?_)
          exact { h with peers := h.peers.trans List.length_set.symm }

/-- **The page refines the page of the network**: a run of it, while it stays
loaded, is one of the other, which sends the same answers. -/
theorem refines_viewer {storage : Storage} {es : List (Event Desc UInt32)}
    (hrun : (machine Desc UInt32).Run (init storage) es p)
    (hplain : (machine Desc UInt32).Along (init storage) es fun _ e => e.Plain) :
    ∃ es' vs, Viewer.machine.Run (.init, []) es' vs ∧ Shows p vs.1 vs.2 :=
  hrun.simulated (R := fun p (vs : Viewer × List Message) => Shows p vs.1 vs.2) hplain
    (shows_init storage) fun _ _ _ _ hshows hplain hstep => hshows.step hplain hstep

end Page

end RemoteBridge
