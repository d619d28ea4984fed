import RemoteBridge.Dtls

/-!
# Dtls.Handshake

The header of a handshake message, `handshake_header.rs`.
-/

namespace RemoteBridge.Dtls

open Wire Bytes

inductive HandshakeType
  | helloRequest
  | clientHello
  | serverHello
  | helloVerifyRequest
  | certificate
  | serverKeyExchange
  | certificateRequest
  | serverHelloDone
  | certificateVerify
  | clientKeyExchange
  | finished
  | invalid
deriving DecidableEq, Repr

namespace HandshakeType

/-- `as u8`. -/
def toU8 : HandshakeType → UInt8
  | helloRequest => 0
  | clientHello => 1
  | serverHello => 2
  | helloVerifyRequest => 3
  | certificate => 11
  | serverKeyExchange => 12
  | certificateRequest => 13
  | serverHelloDone => 14
  | certificateVerify => 15
  | clientKeyExchange => 16
  | finished => 20
  | invalid => 21

def ofU8 (val : UInt8) : HandshakeType :=
  if val = 0 then helloRequest
  else if val = 1 then clientHello
  else if val = 2 then serverHello
  else if val = 3 then helloVerifyRequest
  else if val = 11 then certificate
  else if val = 12 then serverKeyExchange
  else if val = 13 then certificateRequest
  else if val = 14 then serverHelloDone
  else if val = 15 then certificateVerify
  else if val = 16 then clientKeyExchange
  else if val = 20 then finished
  else invalid

@[simp] theorem ofU8_toU8 (t : HandshakeType) : ofU8 t.toU8 = t := by
  cases t <;> rfl

end HandshakeType

def handshakeHeaderLength : Nat := 12

structure HandshakeHeader where
  handshakeType : HandshakeType
  length : Nat
  messageSequence : UInt16
  fragmentOffset : Nat
  fragmentLength : Nat
deriving DecidableEq, Repr

/-- `write_u24`, which asserts that the number fits. -/
def writeU24 (v : Nat) : Result (List UInt8) :=
  if v < 256 ^ 3 then .ok (toBigEndian 3 v) else .error .panicked

namespace HandshakeHeader

def size (_ : HandshakeHeader) : Nat := 1 + 3 + 2 + 3 + 3

def marshal (h : HandshakeHeader) : Result (List UInt8) := do
  let length ← writeU24 h.length
  let fragmentOffset ← writeU24 h.fragmentOffset
  let fragmentLength ← writeU24 h.fragmentLength
  pure (h.handshakeType.toU8 :: (length ++ (toBigEndian 2 h.messageSequence.toNat ++
    (fragmentOffset ++ fragmentLength))))

def unmarshal : Reader Error HandshakeHeader := do
  let handshakeType ← byte
  let length ← uint 3
  let messageSequence ← u16
  let fragmentOffset ← uint 3
  let fragmentLength ← uint 3
  pure ⟨.ofU8 handshakeType, length, messageSequence, fragmentOffset, fragmentLength⟩

/-- The bytes of a header whose numbers fit. -/
def bytes (h : HandshakeHeader) : List UInt8 :=
  h.handshakeType.toU8 :: (toBigEndian 3 h.length ++ (toBigEndian 2 h.messageSequence.toNat ++
    (toBigEndian 3 h.fragmentOffset ++ toBigEndian 3 h.fragmentLength)))

/-- The numbers fit the three bytes they have on the wire. -/
structure Fits (h : HandshakeHeader) : Prop where
  length : h.length < 256 ^ 3
  fragmentOffset : h.fragmentOffset < 256 ^ 3
  fragmentLength : h.fragmentLength < 256 ^ 3

@[simp] theorem length_bytes (h : HandshakeHeader) : h.bytes.length = handshakeHeaderLength := by
  simp [bytes, handshakeHeaderLength]

theorem marshal_of_fits {h : HandshakeHeader} (hfits : h.Fits) : h.marshal = .ok h.bytes := by
  rw [marshal, writeU24, if_pos hfits.length, writeU24, if_pos hfits.fragmentOffset, writeU24,
    if_pos hfits.fragmentLength]
  rfl

theorem fits_of_marshal {h : HandshakeHeader} {w : List UInt8} (hw : h.marshal = .ok w) :
    h.Fits := by
  rw [marshal] at hw
  by_cases hl : h.length < 256 ^ 3
  · by_cases ho : h.fragmentOffset < 256 ^ 3
    · by_cases hf : h.fragmentLength < 256 ^ 3
      · exact ⟨hl, ho, hf⟩
      · rw [writeU24, if_pos hl, writeU24, if_pos ho, writeU24, if_neg hf] at hw
        cases hw
    · rw [writeU24, if_pos hl, writeU24, if_neg ho] at hw
      cases hw
  · rw [writeU24, if_neg hl] at hw
    cases hw

theorem marshal_eq_ok {h : HandshakeHeader} {w : List UInt8} :
    h.marshal = .ok w ↔ h.Fits ∧ w = h.bytes := by
  constructor
  · intro hw
    have hfits := fits_of_marshal hw
    rw [marshal_of_fits hfits] at hw
    exact ⟨hfits, (Except.ok.inj hw).symm⟩
  · rintro ⟨hfits, rfl⟩
    exact marshal_of_fits hfits

/-- **A header reads back**, whatever follows it. -/
theorem reads_bytes {h : HandshakeHeader} (hfits : h.Fits) : Reads unmarshal h.bytes h := by
  refine Reads.byte_bind ?_
  refine (reads_uint hfits.length).bind ((reads_u16 h.messageSequence).bind ?_)
  refine (reads_uint hfits.fragmentOffset).bind ?_
  rw [HandshakeType.ofU8_toU8]
  exact (reads_uint hfits.fragmentLength).bind_pure (g := fun fragmentLength =>
    (⟨h.handshakeType, h.length, h.messageSequence, h.fragmentOffset, fragmentLength⟩ :
      HandshakeHeader))

theorem takes_unmarshal : Takes unmarshal handshakeHeaderLength :=
  takes_byte.bind fun _ => (takes_uint 3).bind fun _ => takes_u16.bind fun _ =>
    (takes_uint 3).bind fun _ => (takes_uint 3).bind fun _ => takes_pure _

/-- A header that was accepted could be written. -/
theorem gives_unmarshal : Gives unmarshal Fits := by
  refine (gives_trivial _).bind fun t _ => (gives_uint 3).bind fun length hlength =>
    (gives_trivial _).bind fun seq _ => (gives_uint 3).bind fun offset hoffset =>
    (gives_uint 3).bind fun flength hflength => gives_pure ?_
  exact ⟨hlength, hoffset, hflength⟩

end HandshakeHeader

end RemoteBridge.Dtls
