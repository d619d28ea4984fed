import RemoteBridge.Hub.Slots
import RemoteBridge.Sessions.Steps

/-!
# Signaling

The signaling server with one host process and any number of viewers, over time.
What the host reads of its connection is what the server delivered on it, in
order; what the server reads of it are the host's offers.  Viewers send what
they like.
-/

namespace RemoteBridge

open Unicode

/-- The server and the host: the time, the host's connection once it is accepted,
how many of the messages delivered on it the host has received, and how many of
the host's offers the server has read. -/
structure Signaling (S : Type) where
  clock : Nat
  server : Server S
  host : Host S
  conn : Option Conn
  read : Nat
  taken : Nat

namespace Signaling

variable {S : Type}

def init (token turnHost turnSecret key hostFingerprint : Text) (paired : PairedDevices) :
    Signaling S where
  clock := 0
  server := .init token turnHost turnSecret
  host := .init key hostFingerprint paired
  conn := none
  read := 0
  taken := 0

inductive Event (S : Type) where
  /-- time passes -/
  | wait (d : Nat)
  /-- the host's request -/
  | dial (token : Text) (upgraded : Bool)
  /-- any other step of the server, but for reading from the host -/
  | server (e : Server.Event S)
  /-- the server reads the host's next offer and relays it -/
  | relayOffer (ok : Write S → Bool)
  /-- the session loop receives the next message -/
  | hostRecv
  /-- any other step of the host -/
  | host (e : Host.Event S)

/-- The steps of the server that no host takes part in, but for the end of its
connection; connections are registered at the time it is. -/
def viewersOnly (now : Nat) : Server.Event S → Bool
  | .request role _ _ => Role.parse role ≠ some .host
  | .register _ _ t _ => t = now
  | .relay role _ _ _ => role = .viewer
  | .unregister _ _ => true

/-- The messages the host has yet to receive. -/
def unread (n : Signaling S) : List (SignalMessage S) :=
  match n.conn.bind (n.server.conns[·]?) with
  | some c => c.delivered.drop n.read
  | none => []

variable [TurnMac] [Sdp S]

/-- One step. -/
def step (n : Signaling S) : Event S → Option (Signaling S)
  | .wait d => some { n with clock := n.clock + d }
  | .dial token upgraded =>
      if n.conn.isSome then none
      else
        let (reply, server) := n.server.handleWS (text "host") token upgraded
        some { n with
          server
          conn := if reply = .switchingProtocols then some n.server.conns.length else none }
  | .server e =>
      if viewersOnly n.clock e then (n.server.step e).map fun server => { n with server } else none
  | .relayOffer ok => do
      let conn ← n.conn
      let (offer, session) ← n.host.offers[n.taken]?
      let server ← n.server.step (.relay .host conn (.offer offer session) ok)
      some { n with server, taken := n.taken + 1 }
  | .hostRecv =>
      match n.unread with
      | [] => none
      | message :: _ =>
          (n.host.step (.recv message)).map fun host => { n with host, read := n.read + 1 }
  | .host (.recv _) => none
  | .host e => (n.host.step e).map fun host => { n with host }

/-- The server and the host as a machine. -/
def machine (S : Type) [Sdp S] : Machine (Signaling S) (Event S) := ⟨step⟩

end Signaling

end RemoteBridge
