import RemoteBridge.Dtls.Cache
import RemoteBridge.Dtls.Gcm
import RemoteBridge.Reassembly

/-!
# Dtls.Sender

The sending half of a connection, `conn/mod.rs`: packets become numbered records, handshake
messages are split, and records share datagrams.

The 64-bit counters of the records are natural numbers.  The two agree for the first 2⁶⁴
records that are tried in an epoch, of which only the first 2⁴⁸ can be sent.
-/

namespace RemoteBridge.Dtls

open Wire Bytes Reassembly

variable {M : Type}

structure Packet (M : Type) where
  record : RecordLayer M
  shouldEncrypt : Bool

/-! ## Record numbers -/

/-- `while lsn.len() <= epoch { lsn.push(0) }`. -/
def grow (lsn : List Nat) (epoch : Nat) : List Nat :=
  lsn ++ List.replicate (epoch + 1 - lsn.length) 0

/-- `lsn[epoch]`. -/
def numberAt (lsn : List Nat) (epoch : Nat) : Nat := lsn.getD epoch 0

/-- `lsn[epoch] += 1`. -/
def bump (lsn : List Nat) (epoch : Nat) : List Nat := lsn.set epoch (numberAt lsn epoch + 1)

/-- What a step of the sender leaves behind: the numbers it has used, also when it failed, what
it gave to the cipher suite, and its result. -/
structure Sent (α : Type) where
  lsn : List Nat
  handed : List (RecordLayerHeader × List UInt8)
  result : Result α

/-- A record under the number that is next in its epoch, its content after the header, and
encrypted if it is to be and there is a cipher suite. -/
def sendRecord (cipherSuite : Option CipherSuite) (shouldEncrypt : Bool) (lsn : List Nat)
    (h : RecordLayerHeader) (content : Result (List UInt8)) : Sent (List UInt8) :=
  let seq := numberAt lsn h.epoch.toNat
  let lsn := bump lsn h.epoch.toNat
  if seq > maxSequenceNumber then ⟨lsn, [], .error (.err .sequenceNumberOverflow)⟩
  else
    let header := { h with sequenceNumber := seq }
    match header.marshal, content with
    | .error e, _ => ⟨lsn, [], .error e⟩
    | .ok _, .error e => ⟨lsn, [], .error e⟩
    | .ok bytes, .ok content =>
        match shouldEncrypt, cipherSuite with
        | true, some suite =>
            ⟨lsn, [(header, bytes ++ content)], suite.encrypt header (bytes ++ content)⟩
        | _, _ => ⟨lsn, [], .ok (bytes ++ content)⟩

def processPacket (codec : MessageCodec M) (cipherSuite : Option CipherSuite) (lsn : List Nat)
    (p : Packet M) : Sent (List UInt8) :=
  sendRecord cipherSuite p.shouldEncrypt (grow lsn p.record.recordLayerHeader.epoch.toNat)
    p.record.recordLayerHeader (p.record.content.marshal codec)

/-! ## Handshake packets -/

/-- `split_bytes`: stepping by no bytes panics. -/
def splitBytes (bytes : List UInt8) (splitLen : Nat) : Result (List (List UInt8)) :=
  if splitLen = 0 then .error .panicked else .ok (cut splitLen bytes)

/-- The loop of `fragment_handshake` from `offset` on. -/
def fragmentsFrom (h : HandshakeHeader) (offset : Nat) :
    List (List UInt8) → Result (List (List UInt8))
  | [] => .ok []
  | content :: contents => do
      let header ← HandshakeHeader.marshal
        { h with fragmentOffset := offset, fragmentLength := content.length }
      let rest ← fragmentsFrom h (offset + content.length) contents
      pure ((header ++ content) :: rest)

def fragmentHandshake (codec : MessageCodec M) (maximumTransmissionUnit : Nat) (h : Handshake M) :
    Result (List (List UInt8)) := do
  let content ← codec.marshal h.handshakeMessage
  let contentFragments ← splitBytes content maximumTransmissionUnit
  fragmentsFrom h.handshakeHeader 0 (if contentFragments = [] then [[]] else contentFragments)

/-- The loop of `process_handshake_packet`. -/
def sendFragments (cipherSuite : Option CipherSuite) (shouldEncrypt : Bool)
    (h : RecordLayerHeader) (lsn : List Nat) : List (List UInt8) → Sent (List (List UInt8))
  | [] => ⟨lsn, [], .ok []⟩
  | fragment :: fragments =>
      let first := sendRecord cipherSuite shouldEncrypt lsn
        { h with contentLen := UInt16.ofNat fragment.length } (.ok fragment)
      match first.result with
      | .error e => ⟨first.lsn, first.handed, .error e⟩
      | .ok rawPacket =>
          let rest := sendFragments cipherSuite shouldEncrypt h first.lsn fragments
          ⟨rest.lsn, first.handed ++ rest.handed, rest.result.map (rawPacket :: ·)⟩

def processHandshakePacket (codec : MessageCodec M) (cipherSuite : Option CipherSuite)
    (maximumTransmissionUnit : Nat) (lsn : List Nat) (p : Packet M) (h : Handshake M) :
    Sent (List (List UInt8)) :=
  match fragmentHandshake codec maximumTransmissionUnit h with
  | .error e => ⟨lsn, [], .error e⟩
  | .ok handshakeFragments =>
      sendFragments cipherSuite p.shouldEncrypt p.record.recordLayerHeader
        (grow lsn p.record.recordLayerHeader.epoch.toNat) handshakeFragments

/-! ## Outgoing packets -/

/-- One packet of `handle_outgoing_packets`: its records, and a handshake message goes into
the cache. -/
def sendPacket (codec : MessageCodec M) (cipherSuite : Option CipherSuite) (isClient : Bool)
    (maximumTransmissionUnit : Nat) (lsn : List Nat) (cache : HandshakeCache) (p : Packet M) :
    HandshakeCache × Sent (List (List UInt8)) :=
  match p.record.content with
  | .handshake h =>
      match p.record.marshal codec with
      | .error e => (cache, ⟨lsn, [], .error e⟩)
      | .ok handshakeRaw =>
          (cache.push ⟨h.handshakeHeader.handshakeType, isClient,
              p.record.recordLayerHeader.epoch, h.handshakeHeader.messageSequence,
              handshakeRaw.drop recordLayerHeaderSize⟩,
            processHandshakePacket codec cipherSuite maximumTransmissionUnit lsn p h)
  | _ =>
      let sent := processPacket codec cipherSuite lsn p
      (cache, ⟨sent.lsn, sent.handed, sent.result.map fun rawPacket => [rawPacket]⟩)

/-- The loop over the packets: the first error ends it, and the records made so far are not
sent. -/
def sendPackets (codec : MessageCodec M) (cipherSuite : Option CipherSuite) (isClient : Bool)
    (maximumTransmissionUnit : Nat) (lsn : List Nat) (cache : HandshakeCache) :
    List (Packet M) → HandshakeCache × Sent (List (List UInt8))
  | [] => (cache, ⟨lsn, [], .ok []⟩)
  | p :: pkts =>
      let first := sendPacket codec cipherSuite isClient maximumTransmissionUnit lsn cache p
      match first.2.result with
      | .error e => (first.1, ⟨first.2.lsn, first.2.handed, .error e⟩)
      | .ok rawPackets =>
          let rest := sendPackets codec cipherSuite isClient maximumTransmissionUnit first.2.lsn
            first.1 pkts
          (rest.1, ⟨rest.2.lsn, first.2.handed ++ rest.2.handed,
            rest.2.result.map (rawPackets ++ ·)⟩)

/-- `handle_outgoing_packets`: the datagrams for the connection below. -/
def handleOutgoingPackets (codec : MessageCodec M) (cipherSuite : Option CipherSuite)
    (isClient : Bool) (maximumTransmissionUnit : Nat) (lsn : List Nat) (cache : HandshakeCache)
    (pkts : List (Packet M)) : HandshakeCache × Sent (List (List UInt8)) :=
  let (cache, sent) := sendPackets codec cipherSuite isClient maximumTransmissionUnit lsn cache pkts
  (cache, ⟨sent.lsn, sent.handed, sent.result.map fun rawPackets =>
    if rawPackets = [] then [] else compactRawPackets rawPackets maximumTransmissionUnit⟩)

end RemoteBridge.Dtls
