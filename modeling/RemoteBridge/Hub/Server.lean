import RemoteBridge.Hub

/-!
# Hub.Server

The signaling server as a machine: requests, the connections accepted from them
and their handlers (`handleWS`), which run beside each other and take the hub's
lock for each operation.

A write to a connection succeeds or fails; after one that failed nothing more is
delivered on it.  Times are in nanoseconds since 1970.
-/

namespace RemoteBridge

open Unicode

/-! ## The config message -/

/-- The base64 HMAC-SHA1 of a username under the secret shared with coturn. -/
class TurnMac where
  credential : (secret username : Text) → Text

/-- How long a minted TURN credential stays valid. -/
def turnCredentialTTL : Nat := 24 * 3600 * 10 ^ 9

/-- Seconds since 1970. -/
def unix (t : Nat) : Nat := t / 10 ^ 9

/-- The username coturn reads the expiry from. -/
def turnUsername (expiry : Nat) : Text := text (toString expiry) ++ text ":remotebridge"

/-- The relay servers of a config message sent at the time `now`. -/
def configMessage [TurnMac] (turnHost turnSecret : Text) (now : Nat) : List IceServerConfig :=
  if turnHost ≠ [] ∧ turnSecret ≠ [] then
    let username := turnUsername (unix (now + turnCredentialTTL))
    [{ urls := [text "stun:" ++ turnHost, text "turn:" ++ turnHost ++ text "?transport=udp",
        text "turn:" ++ turnHost ++ text "?transport=tcp"]
       username := some username
       credential := some (TurnMac.credential turnSecret username) }]
  else []

/-! ## Connections -/

/-- An accepted connection: what was delivered on it, and when its config was
minted, which no code reads. -/
structure Connection (S : Type) where
  role : Role
  handler : Handler
  broken : Bool
  delivered : List (SignalMessage S)
  registered : Option Nat
deriving DecidableEq

/-- `WriteMessage`, that succeeds or fails. -/
def Connection.write {S : Type} (c : Connection S) (message : SignalMessage S) (ok : Bool) :
    Connection S :=
  if c.broken then c
  else if ok then { c with delivered := c.delivered ++ [message] }
  else { c with broken := true }

/-- A write of an operation: to which connection and what. -/
abbrev Write (S : Type) := Conn × SignalMessage S

structure Server (S : Type) where
  token : Text
  turnHost : Text
  turnSecret : Text
  hub : Hub
  conns : List (Connection S)
deriving DecidableEq

/-- What a `role` parameter says. -/
def Role.parse (role : Text) : Option Role :=
  if role = text "host" then some .host
  else if role = text "viewer" then some .viewer
  else none

inductive Reply where
  | badRequest
  | unauthorized
  | upgradeFailed
  | switchingProtocols
deriving DecidableEq

namespace Server

variable {S : Type}

def init (token turnHost turnSecret : Text) : Server S :=
  ⟨token, turnHost, turnSecret, ⟨none, none⟩, []⟩

/-- The `token` parameter against the configured secret; with none configured
the server is open. -/
def authorized (s : Server S) (token : Text) : Bool := s.token = [] || token = s.token

/-- A request, up to `register`. -/
def handleWS (s : Server S) (role token : Text) (upgraded : Bool) : Reply × Server S :=
  match Role.parse role with
  | none => (.badRequest, s)
  | some role =>
      if ¬ s.authorized token then (.unauthorized, s)
      else if ¬ upgraded then (.upgradeFailed, s)
      else (.switchingProtocols, { s with conns := s.conns ++ [⟨role, .opening, false, [], none⟩] })

/-- The writes of an operation, which of them succeed. -/
def deliver (conns : List (Connection S)) (writes : List (Write S)) (ok : Write S → Bool) :
    List (Connection S) :=
  writes.foldl (fun conns w => conns.modify w.1 (·.write w.2 (ok w))) conns

/-- A connection with this role whose handler is at this place. -/
def handled (s : Server S) (conn : Conn) (role : Role) (handler : Handler) :
    Option (Connection S) :=
  s.conns[conn]?.filter fun c => c.role = role ∧ c.handler = handler

inductive Event (S : Type) where
  | request (role token : Text) (upgraded : Bool)
  /-- `register(role, conn)`, at the time `now` -/
  | register (role : Role) (conn : Conn) (now : Nat) (ok : Write S → Bool)
  /-- the handler read a message: `relay(role, message)` -/
  | relay (role : Role) (conn : Conn) (message : SignalMessage S) (ok : Write S → Bool)
  /-- reading failed: `unregister(role, conn)` -/
  | unregister (role : Role) (conn : Conn)

variable [TurnMac]

/-- What a step writes, whether that succeeds or not. -/
def writes (s : Server S) : Event S → List (Write S)
  | .register role conn now _ =>
      (s.hub.register role conn (configMessage s.turnHost s.turnSecret now)).2
  | .relay role _ message _ => s.hub.relay role message
  | .request _ _ _ | .unregister _ _ => []

/-- One step of the server. -/
def step (s : Server S) (e : Event S) : Option (Server S) :=
  match e with
  | .request role token upgraded => some (s.handleWS role token upgraded).2
  | .register role conn now ok =>
      (s.handled conn role .opening).map fun c =>
        { s with
          hub := s.hub.fill role conn
          conns := deliver (s.conns.set conn { c with handler := .serving, registered := some now })
            (s.writes e) ok }
  | .relay role conn _ ok =>
      (s.handled conn role .serving).map fun _ =>
        { s with conns := deliver s.conns (s.writes e) ok }
  | .unregister role conn =>
      (s.handled conn role .serving).map fun c =>
        { s with
          hub := s.hub.unregister role conn
          conns := s.conns.set conn { c with handler := .done } }

/-- The server as a machine. -/
def machine (S : Type) : Machine (Server S) (Event S) := ⟨step⟩

end Server

end RemoteBridge
