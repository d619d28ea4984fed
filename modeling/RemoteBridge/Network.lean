import RemoteBridge.Viewer

/-!
# Network

The host processes, the viewer pages and the hub between them.  Each process or
page is a client with one connection, which carries messages in order both ways;
the hub may read what a client sent after the client is gone, and stop reading at
any time.  There is one host at a time: it may be started again when it exited.
-/

namespace RemoteBridge

open Unicode

inductive Party where
  | host (h : Host Desc)
  | viewer (v : Viewer)

def Party.role : Party → Role
  | .host _ => .host
  | .viewer _ => .viewer

/-- A process or page, and its connection with what was sent and not yet read on
either side. -/
structure Client where
  party : Party
  alive : Bool
  handler : Handler
  sent : List Message
  inbox : List Message

structure Network where
  hub : Hub
  clients : List Client

namespace Network

def init : Network := ⟨⟨none, none⟩, []⟩

/-- Messages written to connections arrive there in order. -/
def deliver (clients : List Client) (writes : List (Conn × Message)) : List Client :=
  writes.foldl (fun clients write =>
    clients.modify write.1 fun c => { c with inbox := c.inbox ++ [write.2] }) clients

/-- A step of a host process, but for receiving: the loop, the page or the loss
of the connection. -/
inductive HostMove where
  | recvFailed
  | command
  | resume (io : Io) (started : Option Text) (wellFormed : Bool)
  | page (step : PageStep)

/-- The move as a step of the host in connection `i`: an offer it makes is for
the next of its peer connections. -/
def HostMove.event (i : Conn) (h : Host Desc) : HostMove → Host.Event Desc
  | .recvFailed => .recvFailed
  | .command => .command
  | .resume io started wellFormed =>
      .resume ⟨io, started.map fun text => .offer text i h.pcs.length, wellFormed⟩
  | .page step => .page step

/-- The offers a host sent in a step. -/
def sentOffers (h h' : Host Desc) : List Message :=
  (h'.offers.drop h.offers.length).map fun (offer, session) => .offer offer session

inductive Event where
  /-- a host process is started -/
  | startHost (key hostFingerprint : Text) (paired : PairedDevices)
  /-- a viewer opens the page -/
  | openPage
  /-- a process exits, or a page is closed or reloaded -/
  | exit (i : Conn)
  | register (i : Conn) (iceServers : List IceServerConfig)
  /-- the hub reads the next message of a connection -/
  | relay (i : Conn)
  | unregister (i : Conn)
  /-- the session loop receives the next message -/
  | hostRecv (i : Conn)
  | hostMove (i : Conn) (move : HostMove)
  /-- a page receives the next message -/
  | onmessage (i : Conn) (savedFp : Option Text) (created : Bool)
  | goOn (i : Conn) (call : Nat) (description : Option Text)

variable [FinalSigma]

/-- A running host. -/
def hostAt (n : Network) (i : Conn) : Option (Client × Host Desc) :=
  match n.clients[i]? with
  | some ⟨.host h, true, handler, sent, inbox⟩ => some (⟨.host h, true, handler, sent, inbox⟩, h)
  | _ => none

/-- An open page. -/
def viewerAt (n : Network) (i : Conn) : Option (Client × Viewer) :=
  match n.clients[i]? with
  | some ⟨.viewer v, true, handler, sent, inbox⟩ =>
      some (⟨.viewer v, true, handler, sent, inbox⟩, v)
  | _ => none

/-- A client, where the server's handler is at this place. -/
def handled (n : Network) (i : Conn) (handler : Handler) : Option Client :=
  n.clients[i]?.filter (·.handler = handler)

def set (n : Network) (i : Conn) (c : Client) : Network := { n with clients := n.clients.set i c }

def step (n : Network) : Event → Option Network
  | .startHost key hostFp paired =>
      if n.clients.any fun c => c.alive && c.party.role = .host then none
      else
        let host := Party.host (Host.init key hostFp paired)
        some { n with clients := n.clients ++ [⟨host, true, .opening, [], []⟩] }
  | .openPage =>
      some { n with clients := n.clients ++ [⟨.viewer .init, true, .opening, [], []⟩] }
  | .exit i => n.clients[i]?.map fun c => n.set i { c with alive := false }
  | .register i iceServers => do
      let c ← n.handled i .opening
      let (hub, writes) := n.hub.register c.party.role i iceServers
      some ⟨hub, deliver (n.clients.set i { c with handler := .serving }) writes⟩
  | .relay i => do
      let c ← n.handled i .serving
      match c.sent with
      | [] => none
      | message :: sent =>
          some { n with
            clients := deliver (n.clients.set i { c with sent })
              (n.hub.relay c.party.role message) }
  | .unregister i => do
      let c ← n.handled i .serving
      some ⟨n.hub.unregister c.party.role i, n.clients.set i { c with handler := .done }⟩
  | .hostRecv i => do
      let (c, h) ← n.hostAt i
      match c.inbox with
      | [] => none
      | message :: inbox =>
          (h.step (.recv message)).map fun h' => n.set i { c with party := .host h', inbox }
  | .hostMove i move => do
      let (c, h) ← n.hostAt i
      (h.step (move.event i h)).map fun h' =>
        n.set i { c with party := .host h', sent := c.sent ++ sentOffers h h' }
  | .onmessage i savedFp created => do
      let (c, v) ← n.viewerAt i
      match c.inbox with
      | [] => none
      | message :: inbox =>
          some (n.set i { c with party := .viewer (v.onmessage message savedFp created), inbox })
  | .goOn i call description => do
      let (c, v) ← n.viewerAt i
      (v.goOn call description).map fun (v', sent) =>
        n.set i { c with party := .viewer v', sent := c.sent ++ sent }

/-- The network as a machine. -/
def machine : Machine Network Event := ⟨step⟩

end Network

end RemoteBridge
