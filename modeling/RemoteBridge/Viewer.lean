import RemoteBridge.Hub
import RemoteBridge.Pairing.Page

/-!
# Viewer

The viewer page's `ws.onmessage` (`index.html`).  It is an async function, so
several calls of it may be waiting at a time; `pc` is the peer connection of the
last one, and a call that finds another there gives up.

A description remembers what it was made for, which no code reads: an offer the
host and its connection, an answer the offer the page made it from.
-/

namespace RemoteBridge

open Unicode

/-- A session description and what it was made for. -/
inductive Desc where
  | offer (text : Text) (host : Conn) (pc : ConnectionId)
  | answer (text : Text) (offer : Desc)
deriving DecidableEq

instance : Sdp Desc where
  text
    | .offer text _ _ => text
    | .answer text _ => text

abbrev Message := SignalMessage Desc

/-- A call of `ws.onmessage` that waits: for its answer to be made, or after that
for gathering. -/
structure Call where
  peer : Nat
  offer : Desc
  session : UInt32
  gathering : Bool
deriving DecidableEq

/-- The page: the ICE servers it got, its current peer connection, how many it
made and the calls that wait. -/
structure Viewer where
  iceServers : Option (List IceServerConfig)
  pc : Option Nat
  peers : Nat
  calls : List Call
deriving DecidableEq

namespace Viewer

def init : Viewer := ⟨none, none, 0, []⟩

/-- A string that is there and not empty. -/
def truthy (s : Option Text) : Bool := s ≠ none ∧ s ≠ some []

variable [FinalSigma]

/-- The offer's key is missing or is not the one this device paired with. -/
def hostChanged (savedFp hostFp : Option Text) : Bool :=
  !truthy hostFp || (truthy savedFp && savedFp ≠ hostFp)

/-- A message is received, up to the first wait.  The outside decides what host
key is saved and whether the peer connection can be made. -/
def onmessage (v : Viewer) (message : Message) (savedFp : Option Text) (created : Bool) : Viewer :=
  match message with
  | .config iceServers => { v with iceServers := some iceServers }
  | .offer sdp session =>
      if v.iceServers = none then v
      else
        let v := { v with pc := none }
        if hostChanged savedFp (Pairing.Page.fingerprintFromSdp (Sdp.text sdp)) then v
        else if !created then v
        else
          { v with
            pc := some v.peers
            peers := v.peers + 1
            calls := v.calls ++ [⟨v.peers, sdp, session, false⟩] }
  | .viewerJoined | .answer _ _ => v

/-- The `i`-th waiting call goes on: its wait fails, or its peer's local
description now has this text. -/
def goOn (v : Viewer) (i : Nat) (description : Option Text) : Option (Viewer × List Message) :=
  v.calls[i]?.map fun call =>
    let rest := { v with calls := v.calls.eraseIdx i }
    match description with
    | none => (rest, [])
    | some text =>
        if v.pc ≠ some call.peer then (rest, [])
        else if !call.gathering then
          -- the code the page shows needs a fingerprint
          if Pairing.Page.fingerprintFromSdp text = none then (rest, [])
          else ({ v with calls := v.calls.set i { call with gathering := true } }, [])
        else (rest, [.answer (.answer text call.offer) call.session])

/-! ## Calls -/

/-- A call that would still send its answer to this offer. -/
def Live (v : Viewer) (offer : Desc) (session : UInt32) : Prop :=
  ∃ call ∈ v.calls, v.pc = some call.peer ∧ call.offer = offer ∧ call.session = session

/-- The calls are of peer connections that were made. -/
def Made (v : Viewer) : Prop := ∀ call ∈ v.calls, call.peer < v.peers

variable {v v' : Viewer} {message : Message} {savedFp : Option Text} {created : Bool}

theorem made_onmessage (hmade : v.Made) : (v.onmessage message savedFp created).Made := by
  cases message with
  | offer sdp session =>
      simp only [onmessage]
      split_ifs
      · exact hmade
      · exact hmade
      · exact hmade
      · intro call hcall
        rcases List.mem_append.mp hcall with hcall | hcall
        · exact Nat.lt_succ_of_lt (hmade call hcall)
        · rw [List.mem_singleton.mp hcall]
          exact Nat.lt_succ_self _
  | _ => exact hmade

/-- A message that is received makes a call for its offer, and ends the others. -/
theorem live_onmessage {offer : Desc} {session : UInt32} (hmade : v.Made)
    (hlive : (v.onmessage message savedFp created).Live offer session) :
    v.Live offer session ∨ message = .offer offer session := by
  cases message with
  | offer sdp n =>
      obtain ⟨call, hcall, hpc, rfl, rfl⟩ := hlive
      simp only [onmessage] at hcall hpc
      split_ifs at hcall hpc
      · exact .inl ⟨call, hcall, hpc, rfl, rfl⟩
      · rcases List.mem_append.mp hcall with hcall | hcall
        · -- an older call is of an older peer connection
          have hlt := hmade call hcall
          rw [Option.some.inj hpc] at hlt
          exact absurd hlt (Nat.lt_irrefl _)
        · rw [List.mem_singleton.mp hcall]
          exact .inr rfl
  | _ => exact .inl hlive

/-- What a call that goes on does: the calls left are those there were, and what
is sent is its answer, if its peer connection is still the page's. -/
theorem goOn_spec {i : Nat} {description : Option Text} {sent : List Message}
    (hstep : v.goOn i description = some (v', sent)) :
    v'.pc = v.pc ∧ v'.peers = v.peers ∧
      (∀ call' ∈ v'.calls, ∃ call ∈ v.calls, call'.peer = call.peer ∧
        call'.offer = call.offer ∧ call'.session = call.session) ∧
      (sent = [] ∨ ∃ text call, v.calls[i]? = some call ∧ description = some text ∧
        v.pc = some call.peer ∧ call.gathering ∧
        sent = [.answer (.answer text call.offer) call.session]) := by
  obtain ⟨call, hcall, hgo⟩ := Option.map_eq_some_iff.mp hstep
  have hmem := List.mem_of_getElem? hcall
  have hrest : ∀ call' ∈ v.calls.eraseIdx i, ∃ call ∈ v.calls, call'.peer = call.peer ∧
      call'.offer = call.offer ∧ call'.session = call.session :=
    fun call' hcall' => ⟨call', List.mem_of_mem_eraseIdx hcall', rfl, rfl, rfl⟩
  cases description with
  | none =>
      obtain ⟨rfl, rfl⟩ := Prod.ext_iff.mp hgo
      exact ⟨rfl, rfl, hrest, .inl rfl⟩
  | some text =>
      dsimp only at hgo
      split_ifs at hgo with hpc hgathering hfp
      · obtain ⟨rfl, rfl⟩ := Prod.ext_iff.mp hgo
        exact ⟨rfl, rfl, hrest, .inl rfl⟩
      · obtain ⟨rfl, rfl⟩ := Prod.ext_iff.mp hgo
        exact ⟨rfl, rfl, hrest, .inl rfl⟩
      · obtain ⟨rfl, rfl⟩ := Prod.ext_iff.mp hgo
        refine ⟨rfl, rfl, fun call' hcall' => ?_, .inl rfl⟩
        rcases List.mem_or_eq_of_mem_set hcall' with hcall' | rfl
        · exact ⟨call', hcall', rfl, rfl, rfl⟩
        · exact ⟨call, hmem, rfl, rfl, rfl⟩
      · obtain ⟨rfl, rfl⟩ := Prod.ext_iff.mp hgo
        exact ⟨rfl, rfl, hrest,
          .inr ⟨text, call, hcall, rfl, not_not.mp hpc, by simpa using hgathering, rfl⟩⟩

theorem made_goOn {i : Nat} {description : Option Text} {sent : List Message} (hmade : v.Made)
    (hstep : v.goOn i description = some (v', sent)) : v'.Made := by
  obtain ⟨-, hpeers, hcalls, -⟩ := goOn_spec hstep
  intro call' hcall'
  obtain ⟨call, hcall, hpeer, -, -⟩ := hcalls call' hcall'
  rw [hpeers, hpeer]
  exact hmade call hcall

/-- A call that would still answer was there before. -/
theorem live_goOn {i : Nat} {description : Option Text} {sent : List Message} {offer : Desc}
    {session : UInt32} (hstep : v.goOn i description = some (v', sent))
    (hlive : v'.Live offer session) : v.Live offer session := by
  obtain ⟨hpc', -, hcalls, -⟩ := goOn_spec hstep
  obtain ⟨call', hcall', hpc, rfl, rfl⟩ := hlive
  obtain ⟨call, hcall, hpeer, hoffer, hsession⟩ := hcalls call' hcall'
  exact ⟨call, hcall, by rw [← hpc', hpc, hpeer], hoffer.symm, hsession.symm⟩

/-- What a call sends is an answer to its offer. -/
theorem sent_goOn {i : Nat} {description : Option Text} {sent : List Message} {m : Message}
    (hstep : v.goOn i description = some (v', sent)) (hm : m ∈ sent) :
    ∃ text call, description = some text ∧ v.calls[i]? = some call ∧ v.pc = some call.peer ∧
      call.gathering ∧ m = .answer (.answer text call.offer) call.session := by
  obtain ⟨-, -, -, rfl | ⟨text, call, hcall, hdescription, hpc, hgathering, rfl⟩⟩ := goOn_spec hstep
  · exact absurd hm List.not_mem_nil
  · exact ⟨text, call, hdescription, hcall, hpc, hgathering, List.mem_singleton.mp hm⟩

end Viewer

end RemoteBridge
