import RemoteBridge.Machine
import RemoteBridge.Viewer

/-!
# Viewer.Page

The viewer page with every wait of its offer handler, its peer connections and the
host fingerprint it saves.  `ws.onmessage` waits in four places; any number of its
calls may wait at a time, and each goes on or fails when it likes.  An operation
on a closed peer connection fails.

`S` is the type of offered session descriptions, `N` that of session numbers.
-/

namespace RemoteBridge

open Unicode

namespace Page

/-- The page's `localStorage`: its entry for the host fingerprint, unless access
is denied. -/
inductive Storage where
  | denied
  | item (value : Option Text)
deriving DecidableEq

def Storage.savedHostFingerprint : Storage → Option Text
  | denied => none
  | item value => value

/-- Writing fails where there is no room left. -/
def Storage.saveHostFingerprint (fp : Text) (room : Bool) : Storage → Storage
  | denied => denied
  | item value => if room then item (some fp) else item value

def Storage.forget : Storage → Storage
  | denied => denied
  | item _ => item none

/-- A message, as `ws.onmessage` takes it: any but the first two is ignored. -/
inductive Received (S N : Type) where
  | config (iceServers : List IceServerConfig)
  | offer (sdp : Option S) (session : N)
  | other
deriving DecidableEq

/-- An offer the page started to handle, with the fingerprint saved then. -/
structure Offer (S N : Type) where
  sdp : Option S
  session : N
  saved : Option Text
deriving DecidableEq

/-- A peer connection, and which offer it was made for. -/
structure Peer where
  offer : Nat
  hostFingerprint : Option Text
  closed : Bool
  localDescription : Option Text
deriving DecidableEq

/-- What a call of `ws.onmessage` waits for. -/
inductive Await where
  | setRemoteDescription
  | createAnswer
  | setLocalDescription
  | waitForIceGathering
deriving DecidableEq

/-- A call of `ws.onmessage` that waits; `rejects` where it waits for an operation
on a peer connection that was closed. -/
structure Call (N : Type) where
  peer : Nat
  offer : Nat
  session : N
  await : Await
  rejects : Bool
deriving DecidableEq

/-- An answer, and to which offer the call that sent it belongs. -/
structure Answer (N : Type) where
  offer : Nat
  sdp : Text
  session : N
deriving DecidableEq

end Page

/-- The page.  No code reads the offers it handled and the answers it sent. -/
structure Page (S N : Type) where
  storage : Page.Storage
  iceServers : Option (List IceServerConfig)
  /-- the page says that the host's key has changed, beside the forget button -/
  hostChanged : Bool
  pc : Option Nat
  peers : List Page.Peer
  calls : List (Page.Call N)
  offers : List (Page.Offer S N)
  answers : List (Page.Answer N)
deriving DecidableEq

namespace Page

variable {S N : Type}

def init (storage : Storage) : Page S N := ⟨storage, none, false, none, [], [], [], []⟩

def savedHostFingerprint (p : Page S N) : Option Text := p.storage.savedHostFingerprint

/-- The page is loaded again; its connections and calls end. -/
def load (p : Page S N) : Page S N :=
  { p with
    iceServers := none
    hostChanged := false
    pc := none
    peers := p.peers.map fun peer => { peer with closed := true }
    calls := [] }

/-- An offer starts over: the current peer connection is closed. -/
def startOver (p : Page S N) (sdp : Option S) (session : N) : Page S N :=
  { p with
    pc := none
    peers := match p.pc with
      | some i => p.peers.modify i fun peer => { peer with closed := true }
      | none => p.peers
    offers := p.offers ++ [⟨sdp, session, p.savedHostFingerprint⟩] }

variable [Sdp S] [FinalSigma]

/-- The fingerprint an offer announces. -/
def hostFingerprint (sdp : S) : Option Text := Pairing.Page.fingerprintFromSdp (Sdp.text sdp)

/-- `ws.onmessage`, up to its first wait; the outside decides whether the peer
connection can be made. -/
def onmessage (p : Page S N) (message : Received S N) (created : Bool) : Page S N :=
  match message with
  | .config iceServers => { p with iceServers := some iceServers }
  | .other => p
  | .offer sdp session =>
      if p.iceServers.isNone then p
      else
        let offer := p.offers.length
        let savedFp := p.savedHostFingerprint
        let p := p.startOver sdp session
        match sdp with
        -- there is no text to read a fingerprint from
        | none => p
        | some sdp =>
            let hostFp := hostFingerprint sdp
            if Viewer.hostChanged savedFp hostFp then { p with hostChanged := true }
            else if !created then p
            else
              { p with
                pc := some p.peers.length
                peers := p.peers ++ [⟨offer, hostFp, false, none⟩]
                calls := p.calls ++ [⟨p.peers.length, offer, session, .setRemoteDescription, false⟩] }

/-- A waiting call goes on, with the text of the answer where it waited for one to
be set, or it fails. -/
def resume (p : Page S N) (i : Nat) (result : Option Text) : Option (Page S N) :=
  match p.calls[i]? with
  | none => none
  | some call =>
      match p.peers[call.peer]? with
      | none => none
      | some peer =>
          let ended := { p with calls := p.calls.eraseIdx i }
          let wait (p : Page S N) (await : Await) (rejects : Bool) : Page S N :=
            { p with calls := p.calls.set i { call with await, rejects } }
          match result with
          | none => some ended
          | some answer =>
              if call.rejects then none
              else
                match call.await with
                | .setRemoteDescription => some (wait p .createAnswer peer.closed)
                | .createAnswer => some (wait p .setLocalDescription peer.closed)
                | .setLocalDescription =>
                    let peers := p.peers.set call.peer { peer with localDescription := some answer }
                    if p.pc ≠ some call.peer then some { ended with peers }
                    -- the code the page shows needs a fingerprint
                    else if Pairing.Page.fingerprintFromSdp answer = none then
                      some { ended with peers }
                    else
                      some (wait { p with peers, hostChanged := false } .waitForIceGathering false)
                | .waitForIceGathering =>
                    if p.pc ≠ some call.peer then some ended
                    else
                      match peer.localDescription with
                      | none => some ended
                      | some sdp =>
                          some { ended with
                            answers := p.answers ++ [⟨call.offer, sdp, call.session⟩] }

/-- A peer connection is connected (`onconnectionstatechange`). -/
def connected (p : Page S N) (i : Nat) (room : Bool) : Option (Page S N) :=
  match p.peers[i]? with
  | none => none
  | some peer =>
      if peer.closed then none
      else if p.pc ≠ some i then some p
      else
        match peer.hostFingerprint with
        | some fp =>
            if !Viewer.truthy p.savedHostFingerprint && Viewer.truthy (some fp) then
              some { p with
                storage := p.storage.saveHostFingerprint fp room
                hostChanged := false }
            else some { p with hostChanged := false }
        | none => some { p with hostChanged := false }

inductive Event (S N : Type) where
  | onmessage (message : Received S N) (created : Bool)
  | resume (call : Nat) (result : Option Text)
  /-- a candidate is added to a local description -/
  | gathered (peer : Nat) (localDescription : Text)
  | connected (peer : Nat) (room : Bool)
  /-- the user presses the forget button -/
  | forget
  /-- the user loads the page again -/
  | load

/-- One step of the page. -/
def step (p : Page S N) : Event S N → Option (Page S N)
  | .onmessage message created => some (p.onmessage message created)
  | .resume call result => p.resume call result
  | .gathered i localDescription =>
      match p.peers[i]? with
      | none => none
      | some peer =>
          if peer.closed || peer.localDescription.isNone then none
          else
            some { p with
              peers := p.peers.set i { peer with localDescription := some localDescription } }
  | .connected peer room => p.connected peer room
  | .forget => if p.hostChanged then some { p with storage := p.storage.forget }.load else none
  | .load => some p.load

/-- The page as a machine. -/
def machine (S N : Type) [Sdp S] : Machine (Page S N) (Event S N) := ⟨step⟩

end Page

end RemoteBridge
