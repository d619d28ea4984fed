import RemoteBridge.Admin
import RemoteBridge.Machine
import RemoteBridge.Pairing

/-!
# Sessions

The host's session loop, `run_sessions` of `webrtc_host.rs`, as a machine.

The loop is cut where it awaits and before each section under the shared lock:
what it does next is its `Point`, with the variables of the branch it is in.
The host page's requests run between any two steps.  What the outside decides in
a step of the loop is its `Outcome`: clock and disk, the connection that
`start_session` makes and whether an answer that can be applied is well-formed.

`S` is the type of session descriptions, of which the code uses the text.
-/

namespace RemoteBridge

open Unicode

/-- A session description is known by its text. -/
class Sdp (S : Type) where
  text : S → Text

instance : Sdp Text := ⟨id⟩

/-- The fingerprint an SDP announces, as the host reads it. -/
def fingerprintOf {S : Type} [Sdp S] (sdp : S) : Option Text :=
  Pairing.fingerprintFromSdp (Sdp.text sdp)

/-! ## Messages and connections -/

/-- One STUN/TURN entry from the server. -/
structure IceServerConfig where
  urls : List Text
  username : Option Text
  credential : Option Text
deriving DecidableEq

inductive SignalMessage (S : Type) where
  | config (iceServers : List IceServerConfig)
  | viewerJoined
  | offer (sdp : S) (session : UInt32)
  | answer (sdp : S) (session : UInt32)
deriving DecidableEq

/-- A peer connection that `start_session` returned: the session it was started
for, the ICE servers it was built with, its own offer and the answer it accepted.
The host's program holds it; `closed` is what `close` makes of it. -/
structure PeerConnection (S : Type) where
  session : UInt32
  iceServers : List IceServerConfig
  offer : S
  remote : Option S
  closed : Bool
deriving DecidableEq

/-- `set_remote_description`: an open connection that has none takes the answer as its
remote description.  Whether the library does is `wellFormed`: an answer that it cannot
read is not taken, one that it takes and then fails on (without an ICE ufrag, say) stays. -/
def PeerConnection.setRemote {S : Type} (pc : PeerConnection S) (sdp : S) (wellFormed : Bool) :
    PeerConnection S :=
  if !pc.closed && pc.remote.isNone && wellFormed then { pc with remote := some sdp } else pc

def PeerConnection.close {S : Type} (pc : PeerConnection S) : PeerConnection S :=
  { pc with closed := true }

/-! ## The loop's state -/

/-- An answer from an unpaired device, held until the user decides. -/
structure Waiting (S : Type) where
  session : UInt32
  sdp : S
  fingerprint : Text
deriving DecidableEq

/-- What the loop does next. -/
inductive Point (S : Type) where
  /-- waits for the ICE servers -/
  | config
  /-- `select!`, at the head of the loop -/
  | head
  /-- `Approve`, before the lock -/
  | approve (name : Text) (sdp : S) (viewerFp : Text) (pc : ConnectionId)
  /-- `apply_answer(pc, sdp, session)` -/
  | apply (pc : ConnectionId) (sdp : S) (session : UInt32)
  /-- `Reject`, before the lock -/
  | reject (fingerprint : Text)
  /-- `Reject`, at `close` -/
  | rejectClose (fingerprint : Text) (pc : ConnectionId)
  /-- `Disconnect`, before the lock -/
  | disconnect (fingerprint : Text)
  /-- `Disconnect`, at `close` -/
  | disconnectClose (fingerprint : Text) (pc : ConnectionId)
  /-- `ViewerJoined`, before the lock -/
  | join
  /-- `ViewerJoined`, at `close` -/
  | joinClose (pc : ConnectionId)
  /-- `start_session` -/
  | start
  /-- `Answer`, before the lock -/
  | answer (sdp : S) (viewerFp : Text) (pc : ConnectionId)
  /-- `run_sessions` returned -/
  | returned
deriving DecidableEq

/-- The host: what it shares with the page, the loop's variables, the
connections `start_session` returned and the offers sent. -/
structure Host (S : Type) extends AppState where
  serverIce : List IceServerConfig
  session : UInt32
  current : Option ConnectionId
  waiting : Option (Waiting S)
  point : Point S
  pcs : List (PeerConnection S)
  offers : List (S × UInt32)
deriving DecidableEq

/-- What the outside decides in a step of the loop. -/
structure Outcome (S : Type) where
  io : Io
  started : Option S
  wellFormed : Bool

namespace Host

variable {S : Type} [Sdp S]

/-- The host at its start, with what `paired.json` held. -/
def init (key hostFingerprint : Text) (paired : PairedDevices) : Host S :=
  { key
    shared := ⟨hostFingerprint, paired, none, none⟩
    commands := []
    receiving := true
    removals := []
    serverIce := []
    session := 0
    current := none
    waiting := none
    point := .config
    pcs := []
    offers := [] }

/-- `run_sessions` returns, and with it goes the receiver of the commands. -/
def leave (h : Host S) : Host S := { h with point := .returned, receiving := false, commands := [] }

/-- `close`, on the `i`-th connection. -/
def closePc (h : Host S) (i : ConnectionId) : Host S :=
  { h with pcs := h.pcs.modify i .close }

/-! ## Steps -/

/-- A message taken at the head of the loop, up to the lock. -/
def receive (h : Host S) : SignalMessage S → Host S
  | .viewerJoined => { h with waiting := none, point := .join }
  | .answer sdp answered =>
      if answered = h.session then
        match h.current, fingerprintOf sdp with
        | some pc, some viewerFp => { h with point := .answer sdp viewerFp pc }
        | _, _ => h
      else h
  | .config _ | .offer _ _ => h

/-- The answer waiting from this device, which is taken (`pending.take_if`). -/
def takeWaiting (h : Host S) (fingerprint : Text) : Option (Waiting S) :=
  h.waiting.filter (·.fingerprint = fingerprint)

/-- A command taken at the head of the loop, up to the lock. -/
def handle (h : Host S) : Command → Host S
  | .approve fp name =>
      match h.takeWaiting fp with
      | none => h
      | some w =>
          match h.current.filter fun _ => w.session = h.session with
          | none => { h with waiting := none }
          | some pc => { h with waiting := none, point := .approve name w.sdp w.fingerprint pc }
  | .reject fp =>
      match h.takeWaiting fp with
      | none => h
      | some _ => { h with waiting := none, point := .reject fp }
  | .disconnect fp => { h with point := .disconnect fp }

/-- The name a device gets when the page gave none. -/
def defaultName (h : Host S) : Text := text s!"device {h.shared.paired.devices.length + 1}"

/-- The next step of a branch, from its point. -/
def resume (h : Host S) (o : Outcome S) : Option (Host S) :=
  match h.point with
  | .config | .head | .returned => none
  | .approve name sdp viewerFp pc =>
      let name := if name = [] then h.defaultName else name
      match h.shared.paired.add viewerFp name o.io with
      | (.error _, paired) => some { h with shared.paired := paired }.leave
      | (.ok _, paired) =>
          some { h with
            shared := { h.shared with paired, pending := none, active := some (viewerFp, pc) }
            point := .apply pc sdp h.session }
  | .apply pc sdp _ =>
      some { h with pcs := h.pcs.modify pc (·.setRemote sdp o.wellFormed), point := .head }
  | .reject fp =>
      let h := { h with shared.pending := none }
      match h.current with
      | some pc => some { h with current := none, point := .rejectClose fp pc }
      | none => some { h with point := .head }
  | .rejectClose _ pc => some { h.closePc pc with point := .head }
  | .disconnect fp =>
      match h.shared.active.filter (·.1 = fp) with
      | some (_, pc) => some { h with shared.active := none, point := .disconnectClose fp pc }
      | none => some { h with point := .head }
  | .disconnectClose _ pc => some { h.closePc pc with current := none, point := .head }
  | .join =>
      let h := { h with shared.pending := none, shared.active := none }
      match h.current with
      | some old => some { h with current := none, point := .joinClose old }
      | none => some { h with session := h.session + 1, point := .start }
  | .joinClose old => some { h.closePc old with session := h.session + 1, point := .start }
  | .start =>
      match o.started with
      | some offer =>
          some { h with
            pcs := h.pcs ++ [⟨h.session, h.serverIce, offer, none, false⟩]
            offers := h.offers ++ [(offer, h.session)]
            current := some h.pcs.length
            point := .head }
      | none => some { h with point := .head }
  | .answer sdp viewerFp pc =>
      if h.shared.paired.contains viewerFp then
        match h.shared.paired.touch viewerFp o.io with
        | (.error _, paired) => some { h with shared.paired := paired }.leave
        | (.ok _, paired) =>
            some { h with
              shared := { h.shared with paired, active := some (viewerFp, pc) }
              point := .apply pc sdp h.session }
      else
        let code := Pairing.pairingCode h.shared.hostFingerprint viewerFp
        some { h with
          shared.pending := some ⟨viewerFp, code⟩
          waiting := some ⟨h.session, sdp, viewerFp⟩
          point := .head }

inductive Event (S : Type) where
  /-- the next signaling message -/
  | recv (message : SignalMessage S)
  /-- receiving failed, or the connection ended -/
  | recvFailed
  /-- the next command -/
  | command
  /-- the loop goes on from its point -/
  | resume (outcome : Outcome S)
  /-- the host page's server makes a step -/
  | page (step : PageStep)

/-- One step of the host. -/
def step (h : Host S) : Event S → Option (Host S)
  | .recv message =>
      match h.point, message with
      | .config, .config iceServers => some { h with serverIce := iceServers, point := .head }
      | .config, _ => some h
      | .head, message => some (h.receive message)
      | _, _ => none
  | .recvFailed =>
      match h.point with
      | .config | .head => some h.leave
      | _ => none
  | .command =>
      match h.point, h.commands with
      | .head, command :: commands => some ({ h with commands }.handle command)
      | _, _ => none
  | .resume outcome => h.resume outcome
  | .page step => (h.toAppState.page step).map fun s => { h with toAppState := s.2 }

/-- The host as a machine. -/
def machine (S : Type) [Sdp S] : Machine (Host S) (Event S) := ⟨step⟩

/-! ## Short runs -/

/-- An answer that announces this fingerprint. -/
def answerOf (fingerprint : String) : Text := text ("a=fingerprint:sha-256 " ++ fingerprint)

/-- The loop goes on and nothing fails. -/
def goOn : Event S := .resume ⟨⟨fun _ => 0, none⟩, none, true⟩

/-- `start_session` makes a connection with this offer. -/
def startWith (offer : S) : Event S := .resume ⟨⟨fun _ => 0, none⟩, some offer, true⟩

/-- A host, with these devices in `paired.json`. -/
abbrev hostWith (fingerprints : List String) : Host Text :=
  init [] (text "0a") ⟨fingerprints.map fun fp => ⟨text fp, [], 0, 0⟩, ⟨none, none⟩⟩

/-- The host gets its ICE servers and starts a first session. -/
def firstSession : List (Event Text) :=
  [.recv (.config []), .recv .viewerJoined, goOn, startWith (text "offer")]

/-- In the first session an unpaired device answers. -/
def newAnswer (fingerprint : String) : List (Event Text) :=
  [.recv (.answer (answerOf fingerprint) 1), goOn]

/-- In the first session a paired device answers, and its answer is applied. -/
def knownAnswer (fingerprint : String) : List (Event Text) := newAnswer fingerprint ++ [goOn]

end Host

end RemoteBridge
