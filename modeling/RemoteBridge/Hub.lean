import RemoteBridge.Sessions

/-!
# Hub

The signaling server's hub (`signaling/main.go`): a slot for the host's
connection and one for the viewer's.  Each operation runs under the hub's lock,
so it is one step; what it writes is a list of connections and messages.
-/

namespace RemoteBridge

/-- A websocket connection, by its place among those the server accepted. -/
abbrev Conn := Nat

/-- What a connection's `role` parameter says. -/
inductive Role where
  | host
  | viewer
deriving DecidableEq

/-- The server's handler of a connection (`handleWS`): not at `register` yet, at
its read loop, or done. -/
inductive Handler where
  | opening
  | serving
  | done
deriving DecidableEq

structure Hub where
  host : Option Conn
  viewer : Option Conn
deriving DecidableEq

namespace Hub

variable {S : Type}

/-- The role's slot, filled with this connection. -/
def fill (h : Hub) (role : Role) (conn : Conn) : Hub :=
  match role with
  | .host => { h with host := some conn }
  | .viewer => { h with viewer := some conn }

/-- Fills the role's slot and, if both sides are now present, tells the host a
viewer is waiting.  The config message goes out first. -/
def register (h : Hub) (role : Role) (conn : Conn) (iceServers : List IceServerConfig) :
    Hub × List (Conn × SignalMessage S) :=
  let h := h.fill role conn
  (h, (conn, .config iceServers) ::
    match h.host, h.viewer with
    | some host, some _ => [(host, .viewerJoined)]
    | _, _ => [])

/-- Clears the role's slot if this connection is the one in it. -/
def unregister (h : Hub) (role : Role) (conn : Conn) : Hub :=
  match role with
  | .host => if h.host = some conn then { h with host := none } else h
  | .viewer => if h.viewer = some conn then { h with viewer := none } else h

/-- Forwards a message to the other role, or drops it if there is none. -/
def relay (h : Hub) (role : Role) (message : SignalMessage S) : List (Conn × SignalMessage S) :=
  match (match role with | .host => h.viewer | .viewer => h.host) with
  | some peer => [(peer, message)]
  | none => []

/-- `register` writes messages of the hub's own. -/
theorem mem_register {h : Hub} {role : Role} {conn : Conn} {iceServers : List IceServerConfig}
    {write : Conn × SignalMessage S} (hwrite : write ∈ (h.register role conn iceServers).2) :
    write.2 = .config iceServers ∨ write.2 = .viewerJoined := by
  rcases List.mem_cons.mp hwrite with rfl | hjoined
  · exact .inl rfl
  · split at hjoined
    · rw [List.mem_singleton.mp hjoined]
      exact .inr rfl
    · exact absurd hjoined List.not_mem_nil

/-- `relay` writes the message. -/
theorem mem_relay {h : Hub} {role : Role} {message : SignalMessage S}
    {write : Conn × SignalMessage S} (hwrite : write ∈ h.relay role message) :
    write.2 = message := by
  unfold relay at hwrite
  split at hwrite
  · rw [List.mem_singleton.mp hwrite]
  · exact absurd hwrite List.not_mem_nil

end Hub

end RemoteBridge
