import RemoteBridge.Sessions

/-!
# HostPage

The script of the host page (`host/admin/index.html`) and the host it talks to.

An `await` of the script ends a step: a request that was sent is a `Call`, and the calls of a
page are served, lost and answered in any order.  The page may be open several times, and
requests may come from elsewhere; those are page steps of the host.
-/

namespace RemoteBridge

open Unicode

/-! ## What the host tells -/

structure DeviceView where
  fingerprint : Text
  name : Text
  pairedAt : UInt64
  lastSeen : UInt64
  connected : Bool
deriving DecidableEq

structure StateView where
  hostFingerprint : Text
  pending : Option Pending
  devices : List DeviceView
deriving DecidableEq

namespace AppState

/-- The device of the session whose connection is up. -/
def connectedFp (s : AppState) (connected : ConnectionId → Bool) : Option Text :=
  (s.shared.active.filter fun active => connected active.2).map (·.1)

/-- `get_state`, `none` for 401.  Which connections are up is not the host's to say. -/
def getState (s : AppState) (header : Option Text) (connected : ConnectionId → Bool) :
    Option StateView :=
  if ¬ s.authorized header then none
  else
    some {
      hostFingerprint := s.shared.hostFingerprint
      pending := s.shared.pending
      devices := s.shared.paired.devices.map fun d =>
        ⟨d.fingerprint, d.name, d.pairedAt, d.lastSeen,
          s.connectedFp connected == some d.fingerprint⟩ }

end AppState

def StatusCode.toNat : StatusCode → Nat
  | .noContent => 204
  | .unauthorized => 401
  | .notFound => 404
  | .internalServerError => 500

namespace HostPage

/-! ## Requests and answers -/

/-- What the page asks for.  A fingerprint the page has none for is `null`. -/
inductive Request where
  | state
  | approve (fingerprint : Option Text) (name : Text)
  | reject (fingerprint : Option Text)
  | rename (fingerprint name : Text)
  | remove (fingerprint : Text)
deriving DecidableEq

/-- The handler's step, `none` where the body has no fingerprint and is refused before the
handler sees it. -/
def Request.pageStep (header : Option Text) (io : Io) : Request → Option PageStep
  | .state => none
  | .approve fp name => fp.map fun fp => .approve header fp name
  | .reject fp => fp.map fun fp => .reject header fp
  | .rename fp name => some (.rename header fp name io)
  | .remove fp => some (.remove header fp io)

inductive Answer where
  | state (view : StateView)
  | status (code : Nat)
  /-- `fetch` failed, with this message -/
  | failed (message : Text)
deriving DecidableEq

/-- What `api` throws. -/
def Answer.error : Answer → Option Text
  | .state _ => none
  | .status code =>
      if code = 401 then
        some (text ("This link is out of date. " ++
          "Open the host page link the host printed when it started."))
      else if 200 ≤ code ∧ code < 300 then none
      else some (text s!"Request failed: {code}")
  | .failed message => some message

/-- How far a call is; `removed` is a `remove` that has yet to send its command. -/
inductive Progress where
  | sent
  | removed
  | answered (a : Answer)
deriving DecidableEq

structure Call where
  request : Request
  progress : Progress
deriving DecidableEq

end HostPage

/-! ## The page -/

structure HostPage where
  key : Option Text
  shownPending : Option Text
  /-- `pending-wrap`'s `hidden` -/
  pendingHidden : Bool
  pendingCode : Text
  /-- what stands in the field -/
  pendingName : Text
  hostFp : Text
  devices : List DeviceView
  error : Option Text
  calls : List HostPage.Call
deriving DecidableEq

namespace HostPage

/-- The page as it loads, with the key of its link; without one it says so. -/
def load (key : Option Text) : HostPage :=
  { key
    shownPending := none
    pendingHidden := true
    pendingCode := []
    pendingName := []
    hostFp := []
    devices := []
    error :=
      if key.getD [] = [] then
        some (text "This page needs the link the host printed when it started (it ends in #key=...).")
      else none
    calls := [] }

/-- `x-admin-key`: `key || ""`. -/
def header (p : HostPage) : Option Text := some (p.key.getD [])

def send (p : HostPage) (request : Request) : HostPage :=
  { p with calls := p.calls ++ [⟨request, .sent⟩] }

def renderPending (p : HostPage) (pending : Option Pending) : HostPage :=
  let fp := pending.map (·.fingerprint)
  let p := { p with pendingHidden := pending.isNone }
  if fp = p.shownPending then p
  else
    match pending with
    | none => { p with shownPending := fp }
    | some pending =>
        { p with shownPending := fp, pendingCode := pending.code, pendingName := [] }

/-- The rest of `refresh`, after its answer. -/
def refreshed (p : HostPage) : Answer → HostPage
  | .state view =>
      { p.renderPending view.pending with
        hostFp := view.hostFingerprint
        devices := view.devices
        error := none }
  | a => { p with error := a.error }

/-- The rest of `act`, after its answer. -/
def acted (p : HostPage) (a : Answer) : HostPage :=
  { p with error := a.error.or p.error }.send .state

/-- An answer that arrives. -/
def deliver (p : HostPage) (i : Nat) : Option HostPage :=
  match p.calls[i]? with
  | some ⟨request, .answered a⟩ =>
      let p := { p with calls := p.calls.eraseIdx i }
      some (if request = .state then p.refreshed a else p.acted a)
  | _ => none

/-- What the user or the timer does on the page. -/
inductive Action where
  /-- once a second, if there is a key -/
  | refresh
  /-- the field's new value -/
  | type (name : Text)
  | approve
  | reject
  /-- a row's Rename, with the answer to its prompt -/
  | rename (row : Nat) (name : Text)
  /-- a row's Remove, confirmed -/
  | remove (row : Nat)

def act (p : HostPage) : Action → Option HostPage
  | .refresh => if p.key.getD [] = [] then none else some (p.send .state)
  | .type name => some { p with pendingName := name }
  | .approve => some (p.send (.approve p.shownPending p.pendingName))
  | .reject => some (p.send (.reject p.shownPending))
  | .rename row name => p.devices[row]?.map fun d => p.send (.rename d.fingerprint name)
  | .remove row => p.devices[row]?.map fun d => p.send (.remove d.fingerprint)

/-- The call's progress changes. -/
def setProgress (p : HostPage) (i : Nat) (progress : Progress) : HostPage :=
  { p with calls := p.calls.modify i fun c => { c with progress } }

end HostPage

/-! ## The host and its pages -/

structure HostPages (S : Type) where
  host : Host S
  pages : List HostPage

namespace HostPages

variable {S : Type} [Sdp S]

def init (key hostFingerprint : Text) (paired : PairedDevices) : HostPages S :=
  ⟨.init key hostFingerprint paired, []⟩

/-- A request served by its handler: the host after it and how far the call is. -/
def serve (h : Host S) (header : Option Text) (io : Io) (connected : ConnectionId → Bool)
    (request : HostPage.Request) : Option (Host S × HostPage.Progress) :=
  if request = .state then
    match h.getState header connected with
    | some view => some (h, .answered (.state view))
    | none => some (h, .answered (.status StatusCode.unauthorized.toNat))
  else
    match request.pageStep header io with
    | none => some (h, .answered (.status 422))
    | some step =>
        (h.toAppState.page step).map fun r =>
          ({ h with toAppState := r.2 },
            match r.1 with
            | some status => .answered (.status status.toNat)
            | none => .removed)

inductive Event (S : Type) where
  /-- a step of the host for which no page asked -/
  | host (e : Host.Event S)
  /-- the page is opened -/
  | load (key : Option Text)
  | act (page : Nat) (action : HostPage.Action)
  /-- the host serves a request -/
  | serve (page call : Nat) (io : Io) (connected : ConnectionId → Bool)
  /-- the second half of a `remove`, the `i`-th under way -/
  | finishRemove (page call i : Nat)
  /-- the request or its answer is lost -/
  | fail (page call : Nat) (message : Text)
  | deliver (page call : Nat)

def setPage (s : HostPages S) (i : Nat) (p : HostPage) : HostPages S :=
  { s with pages := s.pages.set i p }

/-- A call of a page. -/
def call (s : HostPages S) (i c : Nat) : Option (HostPage × HostPage.Call) :=
  s.pages[i]?.bind fun p => p.calls[c]?.map fun call => (p, call)

def step (s : HostPages S) : Event S → Option (HostPages S)
  | .host e => (s.host.step e).map fun host => { s with host }
  | .load key => some { s with pages := s.pages ++ [.load key] }
  | .act i action => s.pages[i]?.bind fun p => (p.act action).map (s.setPage i)
  | .serve i c io connected =>
      match s.call i c with
      | some (p, ⟨request, .sent⟩) =>
          (serve s.host p.header io connected request).map fun r =>
            { s with host := r.1 }.setPage i (p.setProgress c r.2)
      | _ => none
  | .finishRemove i c k =>
      match s.call i c with
      | some (p, ⟨_, .removed⟩) =>
          (s.host.step (.page (.finishRemove k))).map fun host =>
            { s with host }.setPage i
              (p.setProgress c (.answered (.status StatusCode.noContent.toNat)))
      | _ => none
  | .fail i c message =>
      (s.call i c).map fun r => s.setPage i (r.1.setProgress c (.answered (.failed message)))
  | .deliver i c => s.pages[i]?.bind fun p => (p.deliver c).map (s.setPage i)

/-- The host and its pages as a machine. -/
def machine (S : Type) [Sdp S] : Machine (HostPages S) (Event S) := ⟨step⟩

end HostPages

end RemoteBridge
