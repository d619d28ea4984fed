import RemoteBridge.Machine
import RemoteBridge.Fields
import RemoteBridge.Readings
import RemoteBridge.Unicode
import RemoteBridge.Bytes
import RemoteBridge.Wire
import RemoteBridge.Query
import RemoteBridge.Sha256
import RemoteBridge.JsInteger
import RemoteBridge.Double
import RemoteBridge.Double.Exact
import RemoteBridge.Binary64
import RemoteBridge.Json
import RemoteBridge.Fit
import RemoteBridge.Pairing
import RemoteBridge.Pairing.Page
import RemoteBridge.Pairing.Hash
import RemoteBridge.Pairing.Code
import RemoteBridge.Pairing.Agreement
import RemoteBridge.Pairing.Accepted
import RemoteBridge.Pairing.Certificate
import RemoteBridge.Devices
import RemoteBridge.Devices.Operations
import RemoteBridge.Devices.Map
import RemoteBridge.Devices.Names
import RemoteBridge.Admin
import RemoteBridge.Sessions
import RemoteBridge.Sessions.Steps
import RemoteBridge.Sessions.Connections
import RemoteBridge.Sessions.Approval
import RemoteBridge.Sessions.Active
import RemoteBridge.Sessions.Commands
import RemoteBridge.Sessions.Removal
import RemoteBridge.Sessions.Shown
import RemoteBridge.Sessions.Ending
import RemoteBridge.Sessions.Offers
import RemoteBridge.HostPage
import RemoteBridge.HostPage.Approval
import RemoteBridge.Hub
import RemoteBridge.Hub.Server
import RemoteBridge.Hub.Requests
import RemoteBridge.Hub.Deliveries
import RemoteBridge.Hub.Slots
import RemoteBridge.Signaling
import RemoteBridge.Signaling.Steps
import RemoteBridge.Signaling.Offers
import RemoteBridge.Signaling.Credentials
import RemoteBridge.Signaling.Messages
import RemoteBridge.Viewer
import RemoteBridge.Viewer.Page
import RemoteBridge.Viewer.Certificate
import RemoteBridge.Viewer.Answers
import RemoteBridge.Viewer.Refines
import RemoteBridge.Network
import RemoteBridge.Network.Steps
import RemoteBridge.Network.Answers
import RemoteBridge.Injector
import RemoteBridge.Injector.Buttons
import RemoteBridge.Injector.Calls
import RemoteBridge.Injector.Modifiers
import RemoteBridge.Injector.Drift
import RemoteBridge.Injector.Overflow
import RemoteBridge.Injector.Positions
import RemoteBridge.Injector.Parse
import RemoteBridge.Injector.Channels
import RemoteBridge.Mouse
import RemoteBridge.Mouse.Positions
import RemoteBridge.Mouse.Presses
import RemoteBridge.Keyboard
import RemoteBridge.Trackpad
import RemoteBridge.Trackpad.Invariant
import RemoteBridge.Trackpad.Buttons
import RemoteBridge.Trackpad.Watch
import RemoteBridge.Trackpad.Taps
import RemoteBridge.Trackpad.Centre
import RemoteBridge.Trackpad.Cancel
import RemoteBridge.Messages
import RemoteBridge.Keyboard.Layouts
import RemoteBridge.RtpVideo
import RemoteBridge.RtpVideo.Stream
import RemoteBridge.Slices
import RemoteBridge.Reassembly
import RemoteBridge.Frames
import RemoteBridge.Streaming
import RemoteBridge.Streaming.Accounting
import RemoteBridge.Dtls
import RemoteBridge.Dtls.Datagrams
import RemoteBridge.Dtls.Handshake
import RemoteBridge.Dtls.Records
import RemoteBridge.Dtls.Cache
import RemoteBridge.Dtls.ClientHello
import RemoteBridge.Dtls.Flight0
import RemoteBridge.Dtls.Gcm
import RemoteBridge.Dtls.Sender
import RemoteBridge.Dtls.Sender.Numbers
import RemoteBridge.Dtls.Fragments
import RemoteBridge.Dtls.Reader
import RemoteBridge.Dtls.Hello
import RemoteBridge.Dtls.Reader.Steps
import RemoteBridge.Dtls.Reader.Deliveries
import RemoteBridge.Dtls.Link
import RemoteBridge.Dtls.Link.Data
import RemoteBridge.Dtls.Fragments.Bounds
import RemoteBridge.Dtls.Reader.Forged
import RemoteBridge.Dtls.Fragments.Delivery
import RemoteBridge.Dtls.Link.Records
import RemoteBridge.Dtls.Link.Handshakes
