import RemoteBridge.Dtls.Handshake

/-!
# Dtls.Records

What records carry: alerts, the change of the cipher, handshake messages and application
data, `content.rs` and the files beside it.

The handshake messages themselves are a parameter: their bytes are what `marshal` gives, and
of `unmarshal` only whether it succeeds is ever asked.
-/

namespace RemoteBridge.Dtls

open Wire Bytes

/-! ## Alerts -/

inductive AlertLevel
  | warning
  | fatal
  | invalid
deriving DecidableEq, Repr

namespace AlertLevel

/-- `as u8`. -/
def toU8 : AlertLevel → UInt8
  | warning => 1
  | fatal => 2
  | invalid => 3

def ofU8 (val : UInt8) : AlertLevel :=
  if val = 1 then warning else if val = 2 then fatal else invalid

/-- `to_string`. -/
def toString : AlertLevel → String
  | warning => "LevelWarning"
  | fatal => "LevelFatal"
  | invalid => "Invalid alert level"

end AlertLevel

inductive AlertDescription
  | closeNotify
  | unexpectedMessage
  | badRecordMac
  | decryptionFailed
  | recordOverflow
  | decompressionFailure
  | handshakeFailure
  | noCertificate
  | badCertificate
  | unsupportedCertificate
  | certificateRevoked
  | certificateExpired
  | certificateUnknown
  | illegalParameter
  | unknownCa
  | accessDenied
  | decodeError
  | decryptError
  | exportRestriction
  | protocolVersion
  | insufficientSecurity
  | internalError
  | userCanceled
  | noRenegotiation
  | unsupportedExtension
  | unknownPskIdentity
  | invalid
deriving DecidableEq, Repr

namespace AlertDescription

/-- The descriptions with their numbers and names. -/
def table : List (AlertDescription × UInt8 × String) :=
  [(closeNotify, 0, "CloseNotify"),
   (unexpectedMessage, 10, "UnexpectedMessage"),
   (badRecordMac, 20, "BadRecordMac"),
   (decryptionFailed, 21, "DecryptionFailed"),
   (recordOverflow, 22, "RecordOverflow"),
   (decompressionFailure, 30, "DecompressionFailure"),
   (handshakeFailure, 40, "HandshakeFailure"),
   (noCertificate, 41, "NoCertificate"),
   (badCertificate, 42, "BadCertificate"),
   (unsupportedCertificate, 43, "UnsupportedCertificate"),
   (certificateRevoked, 44, "CertificateRevoked"),
   (certificateExpired, 45, "CertificateExpired"),
   (certificateUnknown, 46, "CertificateUnknown"),
   (illegalParameter, 47, "IllegalParameter"),
   (unknownCa, 48, "UnknownCA"),
   (accessDenied, 49, "AccessDenied"),
   (decodeError, 50, "DecodeError"),
   (decryptError, 51, "DecryptError"),
   (exportRestriction, 60, "ExportRestriction"),
   (protocolVersion, 70, "ProtocolVersion"),
   (insufficientSecurity, 71, "InsufficientSecurity"),
   (internalError, 80, "InternalError"),
   (userCanceled, 90, "UserCanceled"),
   (noRenegotiation, 100, "NoRenegotiation"),
   (unsupportedExtension, 110, "UnsupportedExtension"),
   (unknownPskIdentity, 115, "UnknownPskIdentity")]

/-- `as u8`: the number after the last one for `invalid`. -/
def toU8 (d : AlertDescription) : UInt8 :=
  ((table.find? fun row => row.1 == d).map fun row => row.2.1).getD 116

def ofU8 (val : UInt8) : AlertDescription :=
  ((table.find? fun row => row.2.1 == val).map fun row => row.1).getD invalid

/-- `to_string`. -/
def toString (d : AlertDescription) : String :=
  ((table.find? fun row => row.1 == d).map fun row => row.2.2).getD "Invalid alert description"

end AlertDescription

structure Alert where
  alertLevel : AlertLevel
  alertDescription : AlertDescription
deriving DecidableEq, Repr

namespace Alert

/-- `to_string`. -/
def toString (a : Alert) : String :=
  "Alert " ++ a.alertLevel.toString ++ ": " ++ a.alertDescription.toString

def marshal (a : Alert) : List UInt8 := [a.alertLevel.toU8, a.alertDescription.toU8]

def unmarshal : Reader Error Alert := do
  let alertLevel ← byte
  let alertDescription ← byte
  pure ⟨.ofU8 alertLevel, .ofU8 alertDescription⟩

/-- An alert reads back, whatever follows it. -/
theorem reads_marshal (a : Alert) : Reads unmarshal a.marshal a := by
  obtain ⟨level, description⟩ := a
  refine Reads.byte_bind (Reads.byte_bind ?_)
  have hlevel : AlertLevel.ofU8 level.toU8 = level := by cases level <;> rfl
  have hdescription : AlertDescription.ofU8 description.toU8 = description := by
    cases description <;> decide
  rw [hlevel, hdescription]
  exact reads_pure _

end Alert

/-! ## Handshake messages -/

/-- What is used of the handshake messages. -/
structure MessageCodec (M : Type) where
  marshal : M → Result (List UInt8)
  unmarshal : HandshakeType → Reader Error M

/-- The codec of `HandshakeMessageFinished`: the verify data as they are. -/
def handshakeMessageFinished : MessageCodec (List UInt8) where
  marshal verifyData := .ok verifyData
  unmarshal _ := toEnd

variable {M : Type}

structure Handshake (M : Type) where
  handshakeHeader : HandshakeHeader
  handshakeMessage : M

namespace Handshake

def marshal (codec : MessageCodec M) (h : Handshake M) : Result (List UInt8) := do
  let header ← h.handshakeHeader.marshal
  let message ← codec.marshal h.handshakeMessage
  pure (header ++ message)

/-- The types that no message has are refused. -/
def unmarshal (codec : MessageCodec M) : Reader Error (Handshake M) := do
  let handshakeHeader ← HandshakeHeader.unmarshal
  if handshakeHeader.handshakeType = .helloRequest ∨ handshakeHeader.handshakeType = .invalid then
    fail .notImplemented
  else do
    let handshakeMessage ← codec.unmarshal handshakeHeader.handshakeType
    pure ⟨handshakeHeader, handshakeMessage⟩

end Handshake

/-! ## Contents -/

def ChangeCipherSpec.unmarshal : Reader Error Unit := do
  let data ← byte
  if data ≠ 1 then fail .invalidCipherSpec else pure ()

inductive Content (M : Type)
  | changeCipherSpec
  | alert (a : Alert)
  | handshake (h : Handshake M)
  | applicationData (data : List UInt8)

namespace Content

def contentType : Content M → ContentType
  | changeCipherSpec => .changeCipherSpec
  | alert _ => .alert
  | handshake _ => .handshake
  | applicationData _ => .applicationData

def marshal (codec : MessageCodec M) : Content M → Result (List UInt8)
  | changeCipherSpec => .ok [1]
  | alert a => .ok a.marshal
  | handshake h => h.marshal codec
  | applicationData data => .ok data

end Content

structure RecordLayer (M : Type) where
  recordLayerHeader : RecordLayerHeader
  content : Content M

namespace RecordLayer

def marshal (codec : MessageCodec M) (r : RecordLayer M) : Result (List UInt8) := do
  let header ← r.recordLayerHeader.marshal
  let content ← r.content.marshal codec
  pure (header ++ content)

def unmarshal (codec : MessageCodec M) : Reader Error (RecordLayer M) := do
  let recordLayerHeader ← RecordLayerHeader.unmarshal
  match recordLayerHeader.contentType with
  | .alert => do
      let a ← Alert.unmarshal
      pure ⟨recordLayerHeader, .alert a⟩
  | .applicationData => do
      let data ← toEnd
      pure ⟨recordLayerHeader, .applicationData data⟩
  | .changeCipherSpec => do
      ChangeCipherSpec.unmarshal
      pure ⟨recordLayerHeader, .changeCipherSpec⟩
  | .handshake => do
      let h ← Handshake.unmarshal codec
      pure ⟨recordLayerHeader, .handshake h⟩
  | .invalid => fail (.other "Invalid Content Type")

/-- A record has the content its header says. -/
theorem contentType_of_unmarshal {codec : MessageCodec M} {bs tail : List UInt8}
    {r : RecordLayer M} (h : unmarshal codec bs = .ok (r, tail)) :
    (∃ rest, RecordLayerHeader.unmarshal bs = .ok (r.recordLayerHeader, rest)) ∧
      r.content.contentType = r.recordLayerHeader.contentType := by
  obtain ⟨rh, rest, hread, hcontent⟩ := bind_eq_ok.mp h
  cases htype : rh.contentType <;> simp only [htype] at hcontent
  case invalid => cases hcontent
  all_goals
    obtain ⟨x, rest', _, hpure⟩ := bind_eq_ok.mp hcontent
    obtain ⟨rfl, -⟩ := Prod.mk.inj (pure_eq_ok.mp hpure)
    exact ⟨⟨rest, hread⟩, htype.symm⟩

/-- Application data are all that follows the header. -/
theorem applicationData_of_unmarshal {codec : MessageCodec M} {bs tail data : List UInt8}
    {rh : RecordLayerHeader} (h : unmarshal codec bs = .ok (⟨rh, .applicationData data⟩, tail)) :
    RecordLayerHeader.unmarshal bs = .ok (rh, data) := by
  obtain ⟨rh', rest, hread, hcontent⟩ := bind_eq_ok.mp h
  cases htype : rh'.contentType <;> simp only [htype] at hcontent
  case invalid => cases hcontent
  all_goals
    obtain ⟨x, rest', hcont, hpure⟩ := bind_eq_ok.mp hcontent
    obtain ⟨heq, -⟩ := Prod.mk.inj (pure_eq_ok.mp hpure)
    cases heq
  obtain ⟨rfl, -⟩ := Prod.mk.inj (Except.ok.inj hcont)
  exact hread

end RecordLayer

end RemoteBridge.Dtls
