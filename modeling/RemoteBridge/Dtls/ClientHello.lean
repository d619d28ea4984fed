import RemoteBridge.Dtls

/-!
# Dtls.ClientHello

The hello of a client, `handshake_message_client_hello.rs`, and its extensions, `extension/`:
the first bytes that anyone can have the server read.

The lengths that are written are those of 16-bit arithmetic, which wraps.
-/

namespace RemoteBridge.Dtls

open Wire Bytes

/-! ## Numbers with names -/

/-- `From` of an enumeration: the value with this number, if there is one. -/
def named {α β : Type} [DecidableEq β] (number : α → β) (values : List α) (unsupported : α)
    (val : β) : α :=
  (values.find? fun v => number v = val).getD unsupported

inductive NamedCurve
  | unsupported
  | p256
  | p384
  | x25519
deriving DecidableEq, Repr

namespace NamedCurve

def toU16 : NamedCurve → UInt16
  | unsupported => 0x0000
  | p256 => 0x0017
  | p384 => 0x0018
  | x25519 => 0x001d

def ofU16 : UInt16 → NamedCurve := named toU16 [p256, p384, x25519] unsupported

end NamedCurve

inductive SrtpProtectionProfile
  | srtpAes128CmHmacSha1_80
  | srtpAes128CmHmacSha1_32
  | srtpAeadAes128Gcm
  | srtpAeadAes256Gcm
  | unsupported
deriving DecidableEq, Repr

namespace SrtpProtectionProfile

def toU16 : SrtpProtectionProfile → UInt16
  | srtpAes128CmHmacSha1_80 => 0x0001
  | srtpAes128CmHmacSha1_32 => 0x0002
  | srtpAeadAes128Gcm => 0x0007
  | srtpAeadAes256Gcm => 0x0008
  | unsupported => 0x0009

def ofU16 : UInt16 → SrtpProtectionProfile :=
  named toU16 [srtpAes128CmHmacSha1_80, srtpAes128CmHmacSha1_32, srtpAeadAes128Gcm,
    srtpAeadAes256Gcm] unsupported

end SrtpProtectionProfile

inductive CipherSuiteId
  | tlsEcdheEcdsaWithAes128Ccm
  | tlsEcdheEcdsaWithAes128Ccm8
  | tlsEcdheEcdsaWithAes128GcmSha256
  | tlsEcdheRsaWithAes128GcmSha256
  | tlsEcdheEcdsaWithAes256CbcSha
  | tlsEcdheRsaWithAes256CbcSha
  | tlsPskWithAes128Ccm
  | tlsPskWithAes128Ccm8
  | tlsPskWithAes128GcmSha256
  | unsupported
deriving DecidableEq, Repr

namespace CipherSuiteId

def toU16 : CipherSuiteId → UInt16
  | tlsEcdheEcdsaWithAes128Ccm => 0xc0ac
  | tlsEcdheEcdsaWithAes128Ccm8 => 0xc0ae
  | tlsEcdheEcdsaWithAes128GcmSha256 => 0xc02b
  | tlsEcdheRsaWithAes128GcmSha256 => 0xc02f
  | tlsEcdheEcdsaWithAes256CbcSha => 0xc00a
  | tlsEcdheRsaWithAes256CbcSha => 0xc014
  | tlsPskWithAes128Ccm => 0xc0a4
  | tlsPskWithAes128Ccm8 => 0xc0a8
  | tlsPskWithAes128GcmSha256 => 0x00a8
  | unsupported => 0x00a9

def ofU16 : UInt16 → CipherSuiteId :=
  named toU16 [tlsEcdheEcdsaWithAes128Ccm, tlsEcdheEcdsaWithAes128Ccm8,
    tlsEcdheEcdsaWithAes128GcmSha256, tlsEcdheRsaWithAes128GcmSha256,
    tlsEcdheEcdsaWithAes256CbcSha, tlsEcdheRsaWithAes256CbcSha, tlsPskWithAes128Ccm,
    tlsPskWithAes128Ccm8, tlsPskWithAes128GcmSha256] unsupported

end CipherSuiteId

inductive HashAlgorithm
  | md2
  | md5
  | sha1
  | sha224
  | sha256
  | sha384
  | sha512
  | ed25519
  | unsupported
deriving DecidableEq, Repr

namespace HashAlgorithm

def toU8 : HashAlgorithm → UInt8
  | md2 => 0
  | md5 => 1
  | sha1 => 2
  | sha224 => 3
  | sha256 => 4
  | sha384 => 5
  | sha512 => 6
  | ed25519 => 8
  | unsupported => 9

def ofU8 : UInt8 → HashAlgorithm :=
  named toU8 [md2, md5, sha1, sha224, sha256, sha384, sha512, ed25519] unsupported

end HashAlgorithm

inductive SignatureAlgorithm
  | rsa
  | ecdsa
  | ed25519
  | unsupported
deriving DecidableEq, Repr

namespace SignatureAlgorithm

def toU8 : SignatureAlgorithm → UInt8
  | rsa => 1
  | ecdsa => 3
  | ed25519 => 7
  | unsupported => 8

def ofU8 : UInt8 → SignatureAlgorithm := named toU8 [rsa, ecdsa, ed25519] unsupported

end SignatureAlgorithm

structure SignatureHashAlgorithm where
  hash : HashAlgorithm
  signature : SignatureAlgorithm
deriving DecidableEq, Repr

inductive CompressionMethodId
  | null
  | unsupported
deriving DecidableEq, Repr

namespace CompressionMethodId

def toU8 : CompressionMethodId → UInt8
  | null => 0
  | unsupported => 1

def ofU8 : UInt8 → CompressionMethodId := named toU8 [null] unsupported

end CompressionMethodId

/-! ## Extensions -/

inductive Extension
  | serverName (serverName : String)
  | supportedEllipticCurves (ellipticCurves : List NamedCurve)
  | supportedPointFormats (pointFormats : List UInt8)
  | supportedSignatureAlgorithms (signatureHashAlgorithms : List SignatureHashAlgorithm)
  | useSrtp (protectionProfiles : List SrtpProtectionProfile)
  | useExtendedMasterSecret (supported : Bool)
  | renegotiationInfo (renegotiatedConnection : UInt8)
deriving DecidableEq, Repr

namespace Extension

/-- `extension_value() as u16`. -/
def value : Extension → UInt16
  | serverName _ => 0
  | supportedEllipticCurves _ => 10
  | supportedPointFormats _ => 11
  | supportedSignatureAlgorithms _ => 13
  | useSrtp _ => 14
  | useExtendedMasterSecret _ => 23
  | renegotiationInfo _ => 65281

/-- `write_u16::<BigEndian>`. -/
def writeU16 (v : UInt16) : List UInt8 := toBigEndian 2 v.toNat

/-- What follows the number of an extension: its length, and its content. -/
def content : Extension → UInt16 × List UInt8
  | serverName name =>
      let bytes := name.toUTF8.data.toList
      let len := UInt16.ofNat bytes.length
      (2 + 1 + 2 + len, writeU16 (1 + 2 + len) ++ 0 :: (writeU16 len ++ bytes))
  | supportedEllipticCurves curves =>
      (2 + 2 * .ofNat curves.length,
        writeU16 (2 * .ofNat curves.length) ++ curves.flatMap fun v => writeU16 v.toU16)
  | supportedPointFormats formats =>
      (1 + .ofNat formats.length, UInt8.ofNat formats.length :: formats)
  | supportedSignatureAlgorithms algorithms =>
      (2 + 2 * .ofNat algorithms.length, writeU16 (2 * .ofNat algorithms.length) ++
        algorithms.flatMap fun v => [v.hash.toU8, v.signature.toU8])
  | useSrtp profiles =>
      (2 + 1 + 2 * .ofNat profiles.length, writeU16 (2 * .ofNat profiles.length) ++
        (profiles.flatMap (fun v => writeU16 v.toU16) ++ [0]))
  | useExtendedMasterSecret _ => (0, [])
  | renegotiationInfo connection => (1, [connection])

def marshal (e : Extension) : List UInt8 :=
  writeU16 e.value ++ (writeU16 e.content.1 ++ e.content.2)

/-- The length of the items in bytes, and half as many items. -/
def items {α : Type} (item : Reader Error α) : Reader Error (List α) := do
  let length ← u16
  times item (length.toNat / 2)

/-! The length of an extension is read first, and not looked at but by the last one. -/

def unmarshalServerName : Reader Error Extension := do
  let _ ← u16
  let _ ← u16
  let nameType ← byte
  if nameType ≠ 0 then fail .invalidSniFormat
  else do
    let bufLen ← u16
    let buf ← exactly bufLen.toNat
    match String.fromUTF8? buf.toByteArray with
    | none => fail (.other "Utf8Error")
    | some name => pure (.serverName name)

def unmarshalSupportedEllipticCurves : Reader Error Extension := do
  let _ ← u16
  let curves ← items u16
  pure (.supportedEllipticCurves (curves.map NamedCurve.ofU16))

def unmarshalSupportedPointFormats : Reader Error Extension := do
  let _ ← u16
  let count ← byte
  let formats ← times byte count.toNat
  pure (.supportedPointFormats formats)

def unmarshalSignatureHashAlgorithm : Reader Error SignatureHashAlgorithm := do
  let hash ← byte
  let signature ← byte
  pure ⟨.ofU8 hash, .ofU8 signature⟩

def unmarshalSupportedSignatureAlgorithms : Reader Error Extension := do
  let _ ← u16
  let algorithms ← items unmarshalSignatureHashAlgorithm
  pure (.supportedSignatureAlgorithms algorithms)

def unmarshalUseSrtp : Reader Error Extension := do
  let _ ← u16
  let profiles ← items u16
  let _ ← byte
  pure (.useSrtp (profiles.map SrtpProtectionProfile.ofU16))

def unmarshalUseExtendedMasterSecret : Reader Error Extension := do
  let _ ← u16
  pure (.useExtendedMasterSecret true)

def unmarshalRenegotiationInfo : Reader Error Extension := do
  let length ← u16
  if length ≠ 1 then fail .invalidPacketLength
  else do
    let connection ← byte
    pure (.renegotiationInfo connection)

/-- The content of an extension, by its number. -/
def unmarshalContent (value : UInt16) : Reader Error Extension :=
  if value = 0 then unmarshalServerName
  else if value = 10 then unmarshalSupportedEllipticCurves
  else if value = 11 then unmarshalSupportedPointFormats
  else if value = 13 then unmarshalSupportedSignatureAlgorithms
  else if value = 14 then unmarshalUseSrtp
  else if value = 23 then unmarshalUseExtendedMasterSecret
  else if value = 65281 then unmarshalRenegotiationInfo
  else fail .invalidExtensionType

def unmarshal : Reader Error Extension := do
  let value ← u16
  unmarshalContent value

/-- The loop over the extensions of a hello: one that cannot be read is left out, and each says
where the next one begins.  Its length is looked up at a place that has to be there. -/
def unmarshalAll : List UInt8 → Result (List Extension)
  | [] => .ok []
  | b :: b' :: hi :: lo :: rest => do
      let extensions ← unmarshalAll (rest.drop (bigEndian [hi, lo]))
      match unmarshal (b :: b' :: hi :: lo :: rest) with
      | .ok (extension, _) => pure (extension :: extensions)
      | .error _ => pure extensions
  | _ => .error .panicked
termination_by buffer => buffer.length

/-! ## Extensions read back -/

/-- The lengths fit, and support is there. -/
def Fits : Extension → Prop
  | serverName name => 5 + name.toUTF8.data.toList.length < 65536
  | supportedEllipticCurves curves => 2 + 2 * curves.length < 65536
  | supportedPointFormats formats => formats.length < 256
  | supportedSignatureAlgorithms algorithms => 2 + 2 * algorithms.length < 65536
  | useSrtp profiles => 3 + 2 * profiles.length < 65536
  | useExtendedMasterSecret supported => supported = true
  | renegotiationInfo _ => True

theorem reads_writeU16 (v : UInt16) : Reads (u16 : Reader Error UInt16) (writeU16 v) v := reads_u16 v

@[simp] theorem length_writeU16 (v : UInt16) : (writeU16 v).length = 2 := length_toBigEndian 2 _

theorem toNat_two_mul {n : Nat} (h : 2 * n < 65536) :
    (2 * UInt16.ofNat n : UInt16).toNat = 2 * n := by
  simp only [UInt16.toNat_mul, UInt16.toNat_ofNat', UInt16.reduceToNat]
  omega

theorem reads_items {α β : Type} {item : Reader Error α} {write : β → List UInt8} {value : β → α}
    {xs : List β} (hlen : 2 * xs.length < 65536) (h : ∀ x ∈ xs, Reads item (write x) (value x)) :
    Reads (items item) (writeU16 (2 * .ofNat xs.length) ++ xs.flatMap write) (xs.map value) := by
  refine (reads_writeU16 _).bind ?_
  rw [toNat_two_mul hlen, Nat.mul_div_cancel_left _ (by omega)]
  exact reads_times h

theorem length_flatMap_two {α : Type} {write : α → List UInt8} (h : ∀ x, (write x).length = 2)
    (xs : List α) : (xs.flatMap write).length = 2 * xs.length := by
  simp [List.length_flatMap, h, List.map_const', Nat.mul_comm]

/-- The bytes of a string are text again. -/
theorem fromUTF8_toUTF8 (name : String) :
    String.fromUTF8? name.toUTF8.data.toList.toByteArray = some name := by
  have hbytes : name.toUTF8.data.toList.toByteArray = name.toUTF8 := by
    refine ByteArray.ext ?_
    rw [List.data_toByteArray, Array.toArray_toList]
  rw [hbytes, String.fromUTF8?, String.toUTF8_eq_toByteArray, dif_pos name.isValidUTF8]
  rfl

theorem reads_serverName {name : String} (h : (serverName name).Fits) :
    Reads unmarshalServerName (writeU16 (serverName name).content.1 ++ (serverName name).content.2)
      (serverName name) := by
  have hlen : name.toUTF8.data.toList.length < 65536 := by
    rw [Fits] at h
    omega
  refine (reads_writeU16 _).bind ((reads_writeU16 _).bind (Reads.byte_bind ?_))
  rw [if_neg (not_not_intro rfl)]
  refine (reads_writeU16 _).bind ?_
  rw [UInt16.toNat_ofNat_of_lt' hlen]
  have hread := reads_exactly (ε := Error) name.toUTF8.data.toList
  rw [← List.append_nil name.toUTF8.data.toList]
  refine Reads.bind (by rwa [List.append_nil]) ?_
  rw [fromUTF8_toUTF8]
  exact reads_pure _

theorem reads_supportedEllipticCurves {curves : List NamedCurve}
    (h : (supportedEllipticCurves curves).Fits) :
    Reads unmarshalSupportedEllipticCurves
      (writeU16 (2 + 2 * .ofNat curves.length) ++ (writeU16 (2 * .ofNat curves.length) ++
        curves.flatMap fun v => writeU16 v.toU16)) (supportedEllipticCurves curves) := by
  have hcurve : NamedCurve.ofU16 ∘ NamedCurve.toU16 = id := by
    funext c
    cases c <;> decide
  have hitems : Reads (items u16) (writeU16 (2 * .ofNat curves.length) ++
      curves.flatMap fun v => writeU16 v.toU16) (curves.map NamedCurve.toU16) :=
    reads_items (by rw [Fits] at h; omega) fun v _ => reads_writeU16 v.toU16
  have hread := hitems.bind_pure (g := fun curves =>
    supportedEllipticCurves (curves.map NamedCurve.ofU16))
  rw [List.map_map, hcurve, List.map_id] at hread
  exact (reads_writeU16 _).bind hread

theorem reads_supportedPointFormats {formats : List UInt8}
    (h : (supportedPointFormats formats).Fits) :
    Reads unmarshalSupportedPointFormats
      (writeU16 (1 + .ofNat formats.length) ++ UInt8.ofNat formats.length :: formats)
      (supportedPointFormats formats) := by
  have htimes : Reads (times byte formats.length : Reader Error _) (formats.flatMap fun b => [b])
      (formats.map id) := reads_times fun b _ _ => rfl
  rw [List.flatMap_singleton', List.map_id] at htimes
  refine (reads_writeU16 _).bind (Reads.byte_bind ?_)
  rw [UInt8.toNat_ofNat_of_lt' h]
  exact htimes.bind_pure (g := supportedPointFormats)

theorem reads_supportedSignatureAlgorithms {algorithms : List SignatureHashAlgorithm}
    (h : (supportedSignatureAlgorithms algorithms).Fits) :
    Reads unmarshalSupportedSignatureAlgorithms
      (writeU16 (2 + 2 * .ofNat algorithms.length) ++ (writeU16 (2 * .ofNat algorithms.length) ++
        algorithms.flatMap fun v => [v.hash.toU8, v.signature.toU8]))
      (supportedSignatureAlgorithms algorithms) := by
  have halgorithm (v : SignatureHashAlgorithm) :
      Reads unmarshalSignatureHashAlgorithm [v.hash.toU8, v.signature.toU8] v := by
    obtain ⟨hash, signature⟩ := v
    refine Reads.byte_bind (Reads.byte_bind ?_)
    have hhash : HashAlgorithm.ofU8 hash.toU8 = hash := by cases hash <;> decide
    have hsignature : SignatureAlgorithm.ofU8 signature.toU8 = signature := by
      cases signature <;> decide
    rw [hhash, hsignature]
    exact reads_pure _
  have hitems : Reads (items unmarshalSignatureHashAlgorithm)
      (writeU16 (2 * .ofNat algorithms.length) ++
        algorithms.flatMap fun v => [v.hash.toU8, v.signature.toU8]) (algorithms.map id) :=
    reads_items (by rw [Fits] at h; omega) fun v _ => halgorithm v
  rw [List.map_id] at hitems
  exact (reads_writeU16 _).bind (hitems.bind_pure (g := supportedSignatureAlgorithms))

theorem reads_useSrtp {profiles : List SrtpProtectionProfile} (h : (useSrtp profiles).Fits) :
    Reads unmarshalUseSrtp
      (writeU16 (2 + 1 + 2 * .ofNat profiles.length) ++ (writeU16 (2 * .ofNat profiles.length) ++
        (profiles.flatMap (fun v => writeU16 v.toU16) ++ [0]))) (useSrtp profiles) := by
  have hprofile : SrtpProtectionProfile.ofU16 ∘ SrtpProtectionProfile.toU16 = id := by
    funext c
    cases c <;> decide
  have hitems : Reads (items u16) (writeU16 (2 * .ofNat profiles.length) ++
      profiles.flatMap fun v => writeU16 v.toU16) (profiles.map SrtpProtectionProfile.toU16) :=
    reads_items (by rw [Fits] at h; omega) fun v _ => reads_writeU16 v.toU16
  refine (reads_writeU16 _).bind ?_
  rw [← List.append_assoc]
  refine hitems.bind (Reads.byte_bind ?_)
  rw [List.map_map, hprofile, List.map_id]
  exact reads_pure _

section

variable {e : Extension} {es : List Extension}

/-- An extension reads back, whatever follows it. -/
theorem reads_marshal (h : e.Fits) : Reads unmarshal e.marshal e := by
  refine (reads_writeU16 e.value).bind ?_
  cases e with
  | serverName => exact reads_serverName h
  | supportedEllipticCurves => exact reads_supportedEllipticCurves h
  | supportedPointFormats => exact reads_supportedPointFormats h
  | supportedSignatureAlgorithms => exact reads_supportedSignatureAlgorithms h
  | useSrtp => exact reads_useSrtp h
  | useExtendedMasterSecret supported =>
      obtain rfl : supported = true := h
      exact (reads_writeU16 0).bind (reads_pure _)
  | renegotiationInfo connection => exact (reads_writeU16 1).bind (Reads.byte_bind (reads_pure _))

-- a curve that is not known, before one that is
example : unmarshal [0, 10, 0, 6, 0, 4, 0x11, 0xec, 0, 0x1d] =
    .ok (supportedEllipticCurves [.unsupported, .x25519], []) := by rfl

/-- The length that is written is that of the content. -/
theorem toNat_content (h : e.Fits) : e.content.1.toNat = e.content.2.length := by
  cases e with
  | serverName name =>
      rw [Fits] at h
      simp only [content, List.length_append, List.length_cons, length_writeU16, UInt16.toNat_add,
        UInt16.toNat_ofNat', UInt16.reduceAdd, UInt16.reduceToNat]
      omega
  | supportedEllipticCurves curves =>
      rw [Fits] at h
      simp only [content, List.length_append, length_writeU16, UInt16.toNat_add,
        length_flatMap_two fun v : NamedCurve => length_writeU16 v.toU16,
        toNat_two_mul (show 2 * curves.length < 65536 by omega), UInt16.reduceToNat]
      omega
  | supportedPointFormats formats =>
      rw [Fits] at h
      simp only [content, List.length_cons, UInt16.toNat_add, UInt16.toNat_ofNat',
        UInt16.reduceToNat]
      omega
  | supportedSignatureAlgorithms algorithms =>
      rw [Fits] at h
      have hitems : (algorithms.flatMap fun v => [v.hash.toU8, v.signature.toU8]).length =
          2 * algorithms.length := length_flatMap_two (fun _ => rfl) algorithms
      simp only [content, List.length_append, length_writeU16, UInt16.toNat_add, hitems,
        toNat_two_mul (show 2 * algorithms.length < 65536 by omega), UInt16.reduceToNat]
      omega
  | useSrtp profiles =>
      rw [Fits] at h
      simp only [content, List.length_append, length_writeU16, UInt16.toNat_add,
        length_flatMap_two fun v : SrtpProtectionProfile => length_writeU16 v.toU16,
        toNat_two_mul (show 2 * profiles.length < 65536 by omega), UInt16.reduceToNat,
        UInt16.reduceAdd, List.length_singleton]
      omega
  | useExtendedMasterSecret supported => rfl
  | renegotiationInfo connection => rfl

/-- What is written of extensions is four bytes each and as much as they announce. -/
theorem unmarshalAll_marshal (h : ∀ e ∈ es, e.Fits) :
    unmarshalAll (es.flatMap marshal) = .ok es := by
  induction es with
  | nil => rw [List.flatMap_nil, unmarshalAll]
  | cons e es ih =>
      have hfits := h e (List.mem_cons_self ..)
      have hrest := ih fun e he => h e (List.mem_cons_of_mem _ he)
      have hread := reads_marshal hfits (es.flatMap marshal)
      obtain ⟨hi, lo, hlo⟩ : ∃ hi lo, writeU16 e.content.1 = [hi, lo] := ⟨_, _, rfl⟩
      obtain ⟨b, b', hb⟩ : ∃ b b', writeU16 e.value = [b, b'] := ⟨_, _, rfl⟩
      have hbytes : e.marshal ++ es.flatMap marshal =
          b :: b' :: hi :: lo :: (e.content.2 ++ es.flatMap marshal) := by
        simp [marshal, hlo, hb]
      have hannounced : bigEndian [hi, lo] = e.content.2.length := by
        rw [← hlo, writeU16, bigEndian_toBigEndian 2 e.content.1.toNat_lt, toNat_content hfits]
      rw [List.flatMap_cons, hbytes, unmarshalAll, hannounced, List.drop_left' rfl, hrest,
        ← hbytes, hread]
      rfl

/-! ## Extensions that end too early -/

/-- An extension as far as its length goes. -/
def IsBlock (block : List UInt8) : Prop :=
  4 ≤ block.length ∧ block.length = 4 + bigEndian ((block.drop 2).take 2)

/-- Behind whole extensions there are bytes, but not enough for another length. -/
def Ragged (buffer : List UInt8) : Prop :=
  ∃ (blocks : List (List UInt8)) (leftover : List UInt8), buffer = blocks.flatten ++ leftover ∧
    (∀ block ∈ blocks, IsBlock block) ∧ 0 < leftover.length ∧ leftover.length < 4

theorem not_ragged_nil : ¬ Ragged [] := by
  rintro ⟨blocks, leftover, heq, -, hpos, -⟩
  rw [(List.append_eq_nil_iff.mp heq.symm).2] at hpos
  exact absurd hpos (by decide)

theorem ragged_of_length_lt {buffer : List UInt8} (hpos : 0 < buffer.length)
    (hlt : buffer.length < 4) : Ragged buffer :=
  ⟨[], buffer, rfl, by simp, hpos, hlt⟩

/-- Behind an extension it goes on as it does without it. -/
theorem ragged_cons_iff {b b' hi lo : UInt8} {rest : List UInt8} :
    Ragged (b :: b' :: hi :: lo :: rest) ↔ Ragged (rest.drop (bigEndian [hi, lo])) := by
  constructor
  · rintro ⟨blocks, leftover, heq, hblocks, hpos, hlt⟩
    cases blocks with
    | nil =>
        rw [List.flatten_nil, List.nil_append] at heq
        rw [← heq] at hlt
        simp only [List.length_cons] at hlt
        omega
    | cons block blocks =>
        obtain ⟨hfour, hlen⟩ := hblocks block (List.mem_cons_self ..)
        -- the first block has these four bytes, so its end is where the loop goes on
        obtain ⟨content, rfl⟩ : ∃ content, block = b :: b' :: hi :: lo :: content := by
          match block, hfour with
          | _ :: _ :: _ :: _ :: content, _ =>
              simp only [List.flatten_cons, List.cons_append, List.cons.injEq] at heq
              obtain ⟨rfl, rfl, rfl, rfl, -⟩ := heq
              exact ⟨content, rfl⟩
        have hcontent : content.length = bigEndian [hi, lo] := by
          simp only [List.length_cons, List.drop_succ_cons, List.drop_zero, List.take_succ_cons,
            List.take_zero] at hlen
          omega
        simp only [List.flatten_cons, List.cons_append, List.append_assoc, List.cons.injEq,
          true_and] at heq
        rw [heq, List.drop_left' hcontent]
        exact ⟨blocks, leftover, rfl, fun block hb => hblocks block (List.mem_cons_of_mem _ hb),
          hpos, hlt⟩
  · rintro ⟨blocks, leftover, heq, hblocks, hpos, hlt⟩
    have hle : bigEndian [hi, lo] ≤ rest.length := by
      have hlen := congrArg List.length heq
      rw [List.length_drop, List.length_append] at hlen
      omega
    refine ⟨(b :: b' :: hi :: lo :: rest.take (bigEndian [hi, lo])) :: blocks, leftover, ?_, ?_,
      hpos, hlt⟩
    · rw [List.flatten_cons, List.append_assoc, ← heq]
      simp
    · intro block hblock
      rcases List.mem_cons.mp hblock with rfl | hblock
      · refine ⟨by simp, ?_⟩
        simp only [List.length_cons, List.length_take, List.drop_succ_cons, List.drop_zero,
          List.take_succ_cons, List.take_zero]
        omega
      · exact hblocks block hblock

/-- The loop over the extensions gives what it could read, or it panics, at a length that is
not there. -/
theorem unmarshalAll_cases (buffer : List UInt8) :
    (Ragged buffer ∧ unmarshalAll buffer = .error .panicked) ∨
      (¬ Ragged buffer ∧ ∃ es, unmarshalAll buffer = .ok es) := by
  induction buffer using unmarshalAll.induct with
  | case1 => exact .inr ⟨not_ragged_nil, [], by rw [unmarshalAll]⟩
  | case2 b b' hi lo rest ih =>
      rw [ragged_cons_iff]
      rcases ih with ⟨hragged, hpanic⟩ | ⟨hnot, es, hes⟩
      · refine .inl ⟨hragged, ?_⟩
        rw [unmarshalAll, hpanic]
        rfl
      · refine .inr ⟨hnot, ?_⟩
        rw [unmarshalAll, hes]
        cases hread : unmarshal (b :: b' :: hi :: lo :: rest) with
        | error e => exact ⟨es, rfl⟩
        | ok x => exact ⟨x.1 :: es, rfl⟩
  | case3 buffer hnil hshort =>
      have hpos : 0 < buffer.length := List.length_pos_iff.mpr fun h => hnil h
      have hlt : buffer.length < 4 := by
        by_contra hge
        match buffer, hge with
        | b :: b' :: hi :: lo :: rest, _ => exact hshort b b' hi lo rest rfl
        | [], hge | [_], hge | [_, _], hge | [_, _, _], hge => simp at hge
      refine .inl ⟨ragged_of_length_lt hpos hlt, ?_⟩
      rw [unmarshalAll.eq_def]
      match buffer, hpos, hlt with
      | [_], _, _ | [_, _], _, _ | [_, _, _], _, _ => rfl

end

end Extension

/-! ## The random -/

def randomBytesLength : Nat := 28

/-- A time, in nanoseconds from 1970 on, and bytes that are drawn. -/
structure HandshakeRandom where
  gmtUnixTime : ℤ
  randomBytes : List.Vector UInt8 randomBytesLength
deriving DecidableEq

namespace HandshakeRandom

def default : HandshakeRandom := ⟨0, .replicate randomBytesLength 0⟩

/-- The seconds in 32 bits, which wrap; a time before 1970 is written as 0. -/
def secs (r : HandshakeRandom) : UInt32 :=
  if r.gmtUnixTime < 0 then 0 else .ofNat (r.gmtUnixTime / 10 ^ 9).toNat

def marshal (r : HandshakeRandom) : List UInt8 :=
  toBigEndian 4 r.secs.toNat ++ r.randomBytes.toList

def unmarshal : Reader Error HandshakeRandom := do
  let secs ← uint 4
  let randomBytes ← array randomBytesLength
  pure ⟨secs * 10 ^ 9, randomBytes⟩

/-- What is left of it on the way. -/
def inSeconds (r : HandshakeRandom) : HandshakeRandom := ⟨r.secs.toNat * 10 ^ 9, r.randomBytes⟩

theorem reads_marshal (r : HandshakeRandom) : Reads unmarshal r.marshal r.inSeconds :=
  (reads_uint r.secs.toNat_lt).bind ((reads_array r.randomBytes).bind_pure)

theorem calm_unmarshal : Calm unmarshal :=
  ((calm_exactly 4).bind fun _ => calm_pure _).bind fun _ => (calm_array _).bind fun _ => calm_pure _

/-- Only whole seconds in 32 bits stay as they are. -/
theorem inSeconds_eq_self_iff {r : HandshakeRandom} :
    r.inSeconds = r ↔ ∃ n < 2 ^ 32, r.gmtUnixTime = (n : Nat) * 10 ^ 9 := by
  obtain ⟨time, bytes⟩ := r
  constructor
  · intro h
    have htime : ((HandshakeRandom.secs ⟨time, bytes⟩).toNat : ℤ) * 10 ^ 9 = time :=
      congrArg gmtUnixTime h
    exact ⟨_, UInt32.toNat_lt _, htime.symm⟩
  · rintro ⟨n, hn, rfl⟩
    have hnonneg : ¬ (n * 10 ^ 9 : ℤ) < 0 := by omega
    have hdiv : (n * 10 ^ 9 : ℤ) / 10 ^ 9 = n := Int.mul_ediv_cancel _ (by decide)
    have hsecs : (HandshakeRandom.secs ⟨n * 10 ^ 9, bytes⟩).toNat = n := by
      rw [secs, if_neg hnonneg, hdiv, Int.toNat_natCast]
      exact UInt32.toNat_ofNat_of_lt' hn
    rw [inSeconds, hsecs]

end HandshakeRandom

/-! ## The hello -/

structure ClientHello where
  version : ProtocolVersion
  random : HandshakeRandom
  cookie : List UInt8
  cipherSuites : List CipherSuiteId
  compressionMethods : List CompressionMethodId
  extensions : List Extension
deriving DecidableEq

namespace ClientHello

open Extension

/-- The bytes before the extensions, and what follows them. -/
def head (h : ClientHello) (rest : List UInt8) : List UInt8 :=
  h.version.major :: h.version.minor :: (h.random.marshal ++ 0 :: UInt8.ofNat h.cookie.length ::
    (h.cookie ++ ((writeU16 (2 * .ofNat h.cipherSuites.length) ++
      h.cipherSuites.flatMap fun v => writeU16 v.toU16) ++
        UInt8.ofNat h.compressionMethods.length ::
          (h.compressionMethods.flatMap (fun id => [id.toU8]) ++ rest))))

def marshal (h : ClientHello) : Result (List UInt8) :=
  if 255 < h.cookie.length then .error (.err .cookieTooLong)
  else
    let extensionBuffer := h.extensions.flatMap Extension.marshal
    .ok (h.head (writeU16 (.ofNat extensionBuffer.length) ++ extensionBuffer))

/-- `unmarshal` up to the extensions, which are left as bytes. -/
def unmarshalHead : Reader Error (ClientHello × List UInt8) := do
  let major ← byte
  let minor ← byte
  let random ← HandshakeRandom.unmarshal
  -- the length of the session id; there is none
  let _ ← byte
  let cookieLen ← byte
  let cookie ← exactly cookieLen.toNat
  let cipherSuites ← items u16
  let compressionMethodsCount ← byte
  let ids ← times byte compressionMethodsCount.toNat
  let extensionBufferLen ← u16
  let extensionBuffer ← exactly extensionBufferLen.toNat
  let compressionMethods := (ids.map CompressionMethodId.ofU8).filter (· ≠ .unsupported)
  pure (⟨⟨major, minor⟩, random, cookie, cipherSuites.map CipherSuiteId.ofU16,
    compressionMethods, []⟩, extensionBuffer)

def unmarshal : Reader Error ClientHello := do
  let (hello, extensionBuffer) ← unmarshalHead
  let extensions ← StateT.lift (unmarshalAll extensionBuffer)
  pure { hello with extensions }

/-! ## Hellos read back -/

/-- The lists fit in their lengths, the methods of compression are known, and the extensions
fit. -/
structure Fits (h : ClientHello) : Prop where
  cookie : h.cookie.length ≤ 255
  cipherSuites : 2 * h.cipherSuites.length < 65536
  compressionMethods : h.compressionMethods.length < 256
  supported : ∀ id ∈ h.compressionMethods, id ≠ .unsupported
  extension : ∀ e ∈ h.extensions, e.Fits
  extensions : (h.extensions.flatMap Extension.marshal).length < 65536

section

variable {h : ClientHello}

/-- The bytes before the extensions read back, and those of the extensions stay bytes. -/
theorem reads_head (hfits : h.Fits) {block : List UInt8} (hblock : block.length < 65536) :
    Reads unmarshalHead (h.head (writeU16 (.ofNat block.length) ++ block))
      ({ h with random := h.random.inSeconds, extensions := [] }, block) := by
  have hsuite : CipherSuiteId.ofU16 ∘ CipherSuiteId.toU16 = id := by
    funext c
    cases c <;> decide
  have hmethod : CompressionMethodId.ofU8 ∘ CompressionMethodId.toU8 = id := by
    funext c
    cases c <;> decide
  have hcookie := reads_exactly (ε := Error) h.cookie
  rw [← UInt8.toNat_ofNat_of_lt' (Nat.lt_succ_of_le hfits.cookie)] at hcookie
  have hsuites : Reads (items u16) (writeU16 (2 * .ofNat h.cipherSuites.length) ++
      h.cipherSuites.flatMap fun v => writeU16 v.toU16)
      (h.cipherSuites.map CipherSuiteId.toU16) :=
    reads_items hfits.cipherSuites fun v _ => reads_writeU16 v.toU16
  have hmethods : Reads (times byte h.compressionMethods.length : Reader Error _)
      (h.compressionMethods.flatMap fun id => [id.toU8])
      (h.compressionMethods.map CompressionMethodId.toU8) :=
    reads_times fun id _ _ => rfl
  rw [← UInt8.toNat_ofNat_of_lt' hfits.compressionMethods] at hmethods
  have hbuffer := reads_exactly (ε := Error) block
  rw [← UInt16.toNat_ofNat_of_lt' hblock] at hbuffer
  have hkept : ((h.compressionMethods.map CompressionMethodId.toU8).map
      CompressionMethodId.ofU8).filter (· ≠ .unsupported) = h.compressionMethods := by
    rw [List.map_map, hmethod, List.map_id, List.filter_eq_self]
    exact fun id hid => by simpa using hfits.supported id hid
  refine Reads.byte_bind (Reads.byte_bind (h.random.reads_marshal.bind (Reads.byte_bind (Reads.byte_bind
    (hcookie.bind (hsuites.bind (Reads.byte_bind (hmethods.bind ((reads_writeU16 _).bind ?_)))))))))
  have hread := hbuffer.bind_pure (g := fun extensionBuffer =>
    (({ h with random := h.random.inSeconds, extensions := [] } : ClientHello), extensionBuffer))
  rw [hkept, List.map_map, hsuite, List.map_id]
  exact hread

/-- **A hello reads back**, whatever follows it, but for its time, of which the seconds are
left: it is the same hello just when its time is a whole number of seconds, in 32 bits. -/
theorem reads_hello (hfits : h.Fits) : ∃ w, h.marshal = .ok w ∧
    Reads unmarshal w { h with random := h.random.inSeconds } ∧
    ({ h with random := h.random.inSeconds } = h ↔
      ∃ n < 2 ^ 32, h.random.gmtUnixTime = (n : Nat) * 10 ^ 9) := by
  refine ⟨_, by rw [marshal, if_neg (Nat.not_lt.mpr hfits.cookie)], ?_, ?_⟩
  swap
  · rw [← HandshakeRandom.inSeconds_eq_self_iff]
    exact ⟨congrArg random, fun heq => by rw [heq]⟩
  rw [← List.append_nil (h.head _)]
  refine (reads_head hfits hfits.extensions).bind ?_
  have hlift := reads_lift (unmarshalAll_marshal hfits.extension)
  exact hlift.bind_pure (g := fun extensions =>
    { h with random := h.random.inSeconds, extensions })

/-- A hello that lists a curve that is not known before one that is. -/
def sample (cookie : List UInt8) : ClientHello where
  version := protocolVersion12
  random := ⟨1500000000, .replicate randomBytesLength 7⟩
  cookie := cookie
  cipherSuites := [.tlsEcdheEcdsaWithAes128GcmSha256]
  compressionMethods := [.null]
  extensions := [.supportedEllipticCurves [.unsupported, .p256], .useExtendedMasterSecret true]

theorem reads_hello_sample :
    ∃ w, (sample [1, 2]).marshal = .ok w ∧
      Reads unmarshal w { sample [1, 2] with random := (sample [1, 2]).random.inSeconds } ∧
      ({ sample [1, 2] with random := (sample [1, 2]).random.inSeconds } = sample [1, 2] ↔
        ∃ n < 2 ^ 32, (sample [1, 2]).random.gmtUnixTime = (n : Nat) * 10 ^ 9) :=
  reads_hello {
    cookie := by decide
    cipherSuites := by decide
    compressionMethods := by decide
    supported := by decide
    extension := by simp [sample, Extension.Fits]
    extensions := by decide }

/-! ## Hellos that end too early -/

theorem calm_items {α : Type} {item : Reader Error α} (hitem : Calm item) : Calm (items item) :=
  calm_u16.bind fun _ => calm_times hitem _

theorem calm_head : Calm unmarshalHead :=
  calm_byte.bind fun _ => calm_byte.bind fun _ => HandshakeRandom.calm_unmarshal.bind fun _ =>
    calm_byte.bind fun _ => calm_byte.bind fun _ => (calm_exactly _).bind fun _ =>
    (calm_items calm_u16).bind fun _ => calm_byte.bind fun _ => (calm_times calm_byte _).bind
    fun _ => calm_u16.bind fun _ => (calm_exactly _).bind fun _ => calm_pure _

/-- Once the head is read, it is up to the extensions. -/
theorem unmarshal_of_head {bs buffer rest : List UInt8}
    (hhead : unmarshalHead bs = .ok ((h, buffer), rest)) :
    unmarshal bs = (unmarshalAll buffer).map fun extensions => ({ h with extensions }, rest) := by
  rw [unmarshal, bind_apply, hhead]
  simp only [Except.bind]
  cases hall : unmarshalAll buffer with
  | error e => rw [bind_apply]; rfl
  | ok es => rw [bind_apply]; rfl

/-- **A hello makes the server panic** exactly when all of it can be read up to its extensions,
and behind these there are bytes left, fewer than four. -/
theorem unmarshal_eq_panicked_iff {bs : List UInt8} :
    unmarshal bs = .error .panicked ↔
      ∃ hello buffer rest, unmarshalHead bs = .ok ((hello, buffer), rest) ∧ Ragged buffer := by
  cases hhead : unmarshalHead bs with
  | error e =>
      have hstop : unmarshal bs = .error e := by
        rw [unmarshal, bind_apply, hhead]
        rfl
      rw [hstop]
      refine iff_of_false (fun hpanic => calm_head bs ?_) nofun
      obtain rfl := Except.error.inj hpanic
      exact hhead
  | ok p =>
      obtain ⟨⟨hello, buffer⟩, rest⟩ := p
      rw [unmarshal_of_head hhead]
      rcases unmarshalAll_cases buffer with ⟨hragged, hpanic⟩ | ⟨hnot, es, hes⟩
      · rw [hpanic]
        exact iff_of_true rfl ⟨hello, buffer, rest, rfl, hragged⟩
      · rw [hes]
        refine iff_of_false nofun ?_
        rintro ⟨_, _, _, heq, hragged⟩
        obtain ⟨heq, -⟩ := Prod.mk.inj (Except.ok.inj heq)
        obtain ⟨-, rfl⟩ := Prod.mk.inj heq
        exact hnot hragged

end

end ClientHello

end RemoteBridge.Dtls
