import RemoteBridge.Dtls.Fragments
import RemoteBridge.Dtls.Sender

/-!
# Dtls.Reader

The receiving half of a connection, `conn/mod.rs`: what becomes of the records of a datagram.

The detector of replays is a parameter, one for each epoch.  What the reader sends on its
channels is kept as lists.
-/

namespace RemoteBridge.Dtls

open Wire Bytes

variable {D M : Type}

/-- A sliding window over the numbers of one epoch, `SlidingWindowDetector`. -/
structure ReplayDetector (D : Type) where
  new : D
  check : D → Nat → Bool × D
  accept : D → D

/-- What a connection fixes for its reader. -/
structure Reader.Setup (D M : Type) where
  isClient : Bool
  detector : ReplayDetector D
  codec : MessageCodec M

/-- What the reader finds of the other half when it looks. -/
structure Reader.Env where
  cipherSuite : Option CipherSuite
  localEpoch : UInt16
  handshakeCompletedSuccessfully : Bool

/-- Application data on their way to `read`, with the record they came in. -/
structure Delivery where
  epoch : UInt16
  sequenceNumber : Nat
  data : List UInt8
deriving DecidableEq, Repr

structure ReaderContext (D M : Type) where
  replayDetector : List D
  decryptedTx : List Delivery
  encryptedPackets : List (List UInt8)
  fragmentBuffer : FragmentBuffer
  cache : HandshakeCache
  remoteEpoch : UInt16
  packetTx : List (Packet M)

/-- What `handle_incoming_packet` gives back: whether it was a handshake record, an alert to
send, and an error. -/
structure Handled where
  hs : Bool
  alert : Option Alert
  err : Option (Stop Error)

/-- Nothing to report. -/
def Handled.nothing : Handled := ⟨false, none, none⟩

/-- No cipher suite is chosen, or it has no keys yet. -/
def invalidCipherSuite : Option CipherSuite → Bool
  | none => true
  | some suite => !suite.isInitialized

namespace ReaderContext

def new : ReaderContext D M := ⟨[], [], [], .new, [], 0, []⟩

/-- `ctx.encrypted_packets.push(pkt)`. -/
def queue (ctx : ReaderContext D M) (pkt : List UInt8) : ReaderContext D M :=
  { ctx with encryptedPackets := ctx.encryptedPackets ++ [pkt] }

/-- The detector of an epoch, when there is one. -/
def detectorAt (detector : ReplayDetector D) (ctx : ReaderContext D M) (epoch : UInt16) : D :=
  ctx.replayDetector.getD epoch.toNat detector.new

/-- New detectors up to an epoch. -/
def growDetectors (detector : ReplayDetector D) (ctx : ReaderContext D M) (epoch : UInt16) :
    ReaderContext D M :=
  { ctx with replayDetector := ctx.replayDetector ++
      List.replicate (epoch.toNat + 1 - ctx.replayDetector.length) detector.new }

def setDetector (ctx : ReaderContext D M) (epoch : UInt16) (d : D) : ReaderContext D M :=
  { ctx with replayDetector := ctx.replayDetector.set epoch.toNat d }

/-- Anti-replay protection: the number is checked by the detector of its epoch. -/
def check (detector : ReplayDetector D) (ctx : ReaderContext D M) (h : RecordLayerHeader) :
    Bool × ReaderContext D M :=
  let ctx := ctx.growDetectors detector h.epoch
  let (ok, d) := detector.check (ctx.detectorAt detector h.epoch) h.sequenceNumber
  (ok, ctx.setDetector h.epoch d)

/-- `ctx.replay_detector[h.epoch as usize].accept()`. -/
def accept (detector : ReplayDetector D) (ctx : ReaderContext D M) (h : RecordLayerHeader) :
    ReaderContext D M :=
  ctx.setDetector h.epoch (detector.accept (ctx.detectorAt detector h.epoch))

end ReaderContext

namespace Reader

variable (setup : Setup D M)

/-- A message that was put together goes into the cache if it can be parsed; its parser may
panic. -/
def cacheMessage (cache : HandshakeCache) (out : List UInt8 × UInt16) : Result HandshakeCache :=
  match Handshake.unmarshal setup.codec out.1 with
  | .ok (rawHandshake, _) =>
      .ok (cache.push ⟨rawHandshake.handshakeHeader.handshakeType, !setup.isClient, out.2,
        rawHandshake.handshakeHeader.messageSequence, out.1⟩)
  | .error .panicked => .error .panicked
  | .error _ => .ok cache

/-- All messages that come out at once, up to a panic. -/
def cacheMessages (cache : HandshakeCache) :
    List (List UInt8 × UInt16) → HandshakeCache × Option (Stop Error)
  | [] => (cache, none)
  | out :: outs =>
      match cacheMessage setup cache out with
      | .error e => (cache, some e)
      | .ok cache => cacheMessages cache outs

/-- The content of a record that is no handshake record.  `epoch` is the epoch of the other
side when the packet came. -/
def handleContent (cipherSuite : Option CipherSuite) (ctx : ReaderContext D M)
    (h : RecordLayerHeader) (epoch : UInt16) (pkt : List UInt8) (enqueue : Bool) :
    ReaderContext D M × Handled :=
  match RecordLayer.unmarshal setup.codec pkt with
  | .error e => (ctx, ⟨false, some ⟨.fatal, .decodeError⟩, some e⟩)
  | .ok (r, _) =>
      match r.content with
      | .alert a =>
          let a := if a.alertDescription = .closeNotify then ⟨.warning, .closeNotify⟩ else a
          (ctx.accept setup.detector h,
            ⟨false, some a, some (.err (.other ("Error of Alert " ++ a.toString)))⟩)
      | .changeCipherSpec =>
          if invalidCipherSuite cipherSuite then
            (if enqueue then ctx.queue pkt else ctx, .nothing)
          else
            let newRemoteEpoch := h.epoch + 1
            if epoch + 1 = newRemoteEpoch then
              (({ ctx with remoteEpoch := newRemoteEpoch }).accept setup.detector h, .nothing)
            else (ctx, .nothing)
      | .applicationData data =>
          if h.epoch = 0 then
            (ctx, ⟨false, some ⟨.fatal, .unexpectedMessage⟩, some (.err .applicationDataEpochZero)⟩)
          else
            let ctx := ctx.accept setup.detector h
            ({ ctx with decryptedTx := ctx.decryptedTx ++ [⟨h.epoch, h.sequenceNumber, data⟩] },
              .nothing)
      | .handshake _ =>
          (ctx, ⟨false, some ⟨.fatal, .unexpectedMessage⟩, some (.err .unhandledContextType)⟩)

/-- A packet after its decryption: the fragments of handshake messages are stored, and what
they complete goes into the cache.  After a panic there is no reader, and the fragments it had
make no difference. -/
def handlePlain (cipherSuite : Option CipherSuite) (ctx : ReaderContext D M)
    (h : RecordLayerHeader) (epoch : UInt16) (pkt : List UInt8) (enqueue : Bool) :
    ReaderContext D M × Handled :=
  match ctx.fragmentBuffer.push pkt with
  | (fragmentBuffer, .error _) => ({ ctx with fragmentBuffer }, .nothing)
  | (fragmentBuffer, .ok true) =>
      let ctx := ctx.accept setup.detector h
      let (fragmentBuffer, outs) := fragmentBuffer.popAll
      let (cache, err) := cacheMessages setup ctx.cache outs
      ({ ctx with fragmentBuffer, cache }, ⟨true, none, err⟩)
  | (fragmentBuffer, .ok false) =>
      handleContent setup cipherSuite { ctx with fragmentBuffer } h epoch pkt enqueue

def handleIncomingPacket (cipherSuite : Option CipherSuite) (ctx : ReaderContext D M)
    (pkt : List UInt8) (enqueue : Bool) : ReaderContext D M × Handled :=
  match RecordLayerHeader.unmarshal pkt with
  | .error _ => (ctx, .nothing)
  | .ok (h, _) =>
      let epoch := ctx.remoteEpoch
      if h.epoch > epoch then
        if h.epoch > epoch + 1 then (ctx, .nothing)
        else (if enqueue then ctx.queue pkt else ctx, .nothing)
      else
        let (ok, ctx) := ctx.check setup.detector h
        if !ok then (ctx, .nothing)
        else if h.epoch ≠ 0 then
          if invalidCipherSuite cipherSuite then
            (if enqueue then ctx.queue pkt else ctx, .nothing)
          else
            match cipherSuite with
            | none => handlePlain setup cipherSuite ctx h epoch pkt enqueue
            | some suite =>
                match suite.decrypt pkt with
                | .error _ =>
                    if suite.isPsk then
                      (ctx, ⟨false, some ⟨.fatal, .unknownPskIdentity⟩, none⟩)
                    else (ctx, .nothing)
                | .ok pkt => handlePlain setup cipherSuite ctx h epoch pkt enqueue
        else handlePlain setup cipherSuite ctx h epoch pkt enqueue

/-- The alert as a packet for the other half to send. -/
def alertPacket (env : Env) (a : Alert) : Packet M :=
  ⟨⟨⟨.alert, protocolVersion12, env.localEpoch, 0, 2⟩, .alert a⟩,
    env.handshakeCompletedSuccessfully⟩

/-- The loop over packets of `read_and_buffer` and `handle_queued_packets`: whether one of them
was a handshake record.  The first error ends it. -/
def handlePackets (env : Env) (enqueue : Bool) (ctx : ReaderContext D M) :
    List (List UInt8) → ReaderContext D M × Result Bool
  | [] => (ctx, .ok false)
  | pkt :: pkts =>
      let (ctx, handled) := handleIncomingPacket setup env.cipherSuite ctx pkt enqueue
      let ctx := { ctx with packetTx := ctx.packetTx ++ handled.alert.toList.map (alertPacket env) }
      if handled.alert.any fun a => a.alertLevel = .fatal ∨ a.alertDescription = .closeNotify then
        (ctx, .error (.err .alertFatalOrClose))
      else
        match handled.err with
        | some e => (ctx, .error e)
        | none =>
            let (ctx, result) := handlePackets env enqueue ctx pkts
            (ctx, result.map (handled.hs || ·))

/-- The requests of the handshake that come while the reader waits for it: each time what was
queued is handled again. -/
def handleRequests (ctx : ReaderContext D M) : List Env → ReaderContext D M × Result Unit
  | [] => (ctx, .ok ())
  | env :: envs =>
      match handlePackets setup env false { ctx with encryptedPackets := [] }
          ctx.encryptedPackets with
      | (ctx, .error e) => (ctx, .error e)
      | (ctx, .ok _) => handleRequests ctx envs

/-- `read_and_buffer` for a datagram; the handshake asks for the queued packets with
`requests`, when the datagram had something for it. -/
def readAndBuffer (env : Env) (requests : List Env) (ctx : ReaderContext D M)
    (buf : List UInt8) : ReaderContext D M × Result Unit :=
  match unpackDatagram buf with
  | .error e => (ctx, .error e)
  | .ok pkts =>
      match handlePackets setup env true ctx pkts with
      | (ctx, .error e) => (ctx, .error e)
      | (ctx, .ok true) => handleRequests setup ctx requests
      | (ctx, .ok false) => (ctx, .ok ())

end Reader

end RemoteBridge.Dtls
