import Mathlib.Data.Nat.Bitwise
import RemoteBridge.Wire

/-!
# Dtls

The record layer of the vendored `webrtc-dtls`: the header every record starts with, and
how records share datagrams.

Numbers that are `uint48` and `uint24` on the wire are natural numbers here; a writer says
what becomes of the ones that do not fit.
-/

namespace RemoteBridge.Dtls

open Wire Bytes

/-- The errors of `error.rs` the model reaches. -/
inductive Error
  | alertFatalOrClose
  | applicationDataEpochZero
  | cipherSuiteNoIntersection
  | cookieMismatch
  | cookieTooLong
  | emptyFragment
  | fragmentBufferOverflow (newSize maxSize : Nat)
  | invalidCipherSpec
  | invalidExtensionType
  | invalidNamedCurve
  | invalidPacketLength
  | invalidSniFormat
  | noSupportedEllipticCurves
  | notEnoughRoomForNonce
  | notImplemented
  | sequenceNumberOverflow
  | serverNoMatchingSrtpProfile
  | serverRequiredButNoClientEms
  | unhandledContextType
  | unsupportedProtocolVersion
  | other (text : String)
deriving DecidableEq, Repr

/-- What a fallible function of the crate gives. -/
abbrev Result (α : Type) := Except (Stop Error) α

/-! ## Record headers -/

inductive ContentType
  | changeCipherSpec
  | alert
  | handshake
  | applicationData
  | invalid
deriving DecidableEq, Repr

namespace ContentType

/-- `as u8`. -/
def toU8 : ContentType → UInt8
  | changeCipherSpec => 20
  | alert => 21
  | handshake => 22
  | applicationData => 23
  | invalid => 24

def ofU8 (val : UInt8) : ContentType :=
  if val = 20 then changeCipherSpec
  else if val = 21 then alert
  else if val = 22 then handshake
  else if val = 23 then applicationData
  else invalid

@[simp] theorem ofU8_toU8 (t : ContentType) : ofU8 t.toU8 = t := by
  cases t <;> rfl

end ContentType

structure ProtocolVersion where
  major : UInt8
  minor : UInt8
deriving DecidableEq, Repr

def protocolVersion10 : ProtocolVersion := ⟨0xfe, 0xff⟩

def protocolVersion12 : ProtocolVersion := ⟨0xfe, 0xfd⟩

def recordLayerHeaderSize : Nat := 13

def maxSequenceNumber : Nat := 0x0000FFFFFFFFFFFF

structure RecordLayerHeader where
  contentType : ContentType
  protocolVersion : ProtocolVersion
  epoch : UInt16
  sequenceNumber : Nat
  contentLen : UInt16
deriving DecidableEq, Repr

namespace RecordLayerHeader

/-- The bytes of a header, its sequence number in six of them. -/
def bytes (h : RecordLayerHeader) : List UInt8 :=
  h.contentType.toU8 :: h.protocolVersion.major :: h.protocolVersion.minor ::
    (toBigEndian 2 h.epoch.toNat ++ (toBigEndian 6 h.sequenceNumber ++
      toBigEndian 2 h.contentLen.toNat))

def marshal (h : RecordLayerHeader) : Result (List UInt8) :=
  if h.sequenceNumber > maxSequenceNumber then .error (.err .sequenceNumberOverflow)
  else .ok h.bytes

def unmarshal : Reader Error RecordLayerHeader := do
  let contentType ← byte
  let major ← byte
  let minor ← byte
  let epoch ← u16
  let sequenceNumber ← uint 6
  if (⟨major, minor⟩ : ProtocolVersion) ≠ protocolVersion10 ∧
      (⟨major, minor⟩ : ProtocolVersion) ≠ protocolVersion12 then
    fail .unsupportedProtocolVersion
  else do
    let contentLen ← u16
    pure ⟨.ofU8 contentType, ⟨major, minor⟩, epoch, sequenceNumber, contentLen⟩

/-- The versions the crate speaks. -/
def Supported (h : RecordLayerHeader) : Prop :=
  h.protocolVersion = protocolVersion10 ∨ h.protocolVersion = protocolVersion12

@[simp] theorem length_bytes (h : RecordLayerHeader) : h.bytes.length = recordLayerHeaderSize := by
  simp [bytes, recordLayerHeaderSize]

theorem marshal_eq_ok {h : RecordLayerHeader} {w : List UInt8} :
    h.marshal = .ok w ↔ h.sequenceNumber ≤ maxSequenceNumber ∧ w = h.bytes := by
  rw [marshal]
  split
  · simp; omega
  · simp [eq_comm]; omega

/-- **A header reads back**, whatever follows it. -/
theorem reads_bytes {h : RecordLayerHeader} (hv : h.Supported)
    (hs : h.sequenceNumber ≤ maxSequenceNumber) : Reads unmarshal h.bytes h := by
  have hsize : h.sequenceNumber < 256 ^ 6 := Nat.lt_succ_of_le hs
  refine Reads.byte_bind (Reads.byte_bind (Reads.byte_bind ?_))
  refine (reads_u16 h.epoch).bind ((reads_uint hsize).bind ?_)
  have hversion : ¬ (h.protocolVersion ≠ protocolVersion10 ∧
      h.protocolVersion ≠ protocolVersion12) := by
    rw [Supported] at hv
    tauto
  show Reads (if h.protocolVersion ≠ protocolVersion10 ∧ h.protocolVersion ≠ protocolVersion12
    then _ else _) _ _
  rw [if_neg hversion, ContentType.ofU8_toU8]
  exact (reads_u16 h.contentLen).bind_pure (g := fun contentLen =>
    (⟨h.contentType, h.protocolVersion, h.epoch, h.sequenceNumber, contentLen⟩ :
      RecordLayerHeader))

theorem takes_unmarshal : Takes unmarshal recordLayerHeaderSize :=
  takes_byte.bind fun _ => takes_byte.bind fun _ => takes_byte.bind fun _ => takes_u16.bind fun _ =>
    (takes_uint 6).bind fun _ => (takes_fail _ 2).ite (takes_u16.bind fun _ => takes_pure _)

/-- A header that was accepted could be written. -/
theorem gives_unmarshal :
    Gives unmarshal fun h => h.Supported ∧ h.sequenceNumber ≤ maxSequenceNumber := by
  refine (gives_trivial _).bind fun t _ => (gives_trivial _).bind fun major _ =>
    (gives_trivial _).bind fun minor _ => (gives_trivial _).bind fun epoch _ =>
    (gives_uint 6).bind fun seq hseq => ?_
  split
  · exact gives_fail _ _
  · next hv =>
      refine (gives_trivial _).bind fun len _ => gives_pure ⟨?_, Nat.le_of_lt_succ hseq⟩
      rw [Supported]
      tauto

end RecordLayerHeader

/-! ## Records in datagrams -/

/-- `unpack_datagram`: the records of a datagram.  The loop's `offset` is how much of the
buffer is gone. -/
def unpackDatagram (buf : List UInt8) : Result (List (List UInt8)) :=
  if buf = [] then .ok []
  else if buf.length ≤ recordLayerHeaderSize then .error (.err .invalidPacketLength)
  else
    let pktLen := recordLayerHeaderSize + bigEndian ((buf.drop (recordLayerHeaderSize - 2)).take 2)
    if pktLen > buf.length then .error (.err .invalidPacketLength)
    else do
      let out ← unpackDatagram (buf.drop pktLen)
      pure (buf.take pktLen :: out)
termination_by buf.length
decreasing_by
  simp only [recordLayerHeaderSize] at *
  rw [List.length_drop]
  omega

/-- `compact_raw_packets`, one packet: the datagrams so far and the one being filled. -/
def compactRawPacket (maximumTransmissionUnit : Nat)
    (acc : List (List UInt8) × List UInt8) (rawPacket : List UInt8) :
    List (List UInt8) × List UInt8 :=
  if acc.2 ≠ [] ∧ acc.2.length + rawPacket.length ≥ maximumTransmissionUnit then
    (acc.1 ++ [acc.2], rawPacket)
  else (acc.1, acc.2 ++ rawPacket)

def compactRawPackets (rawPackets : List (List UInt8)) (maximumTransmissionUnit : Nat) :
    List (List UInt8) :=
  let acc := rawPackets.foldl (compactRawPacket maximumTransmissionUnit) ([], [])
  acc.1 ++ [acc.2]

end RemoteBridge.Dtls
