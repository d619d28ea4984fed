import RemoteBridge.Dtls.Datagrams

/-!
# Dtls.Gcm

The protection of records by AES-GCM, `crypto_gcm.rs`, and what the connection sees of a
cipher suite.

The block cipher is a parameter: sealing and opening of byte strings under a nonce and with
additional data.
-/

namespace RemoteBridge.Dtls

open Wire Bytes

/-! ## Additional data -/

/-- `generate_aead_additional_data`: the epoch overwrites the upper two of the eight bytes of
the sequence number. -/
def generateAeadAdditionalData (h : RecordLayerHeader) (payloadLen : Nat) : List UInt8 :=
  toBigEndian 2 h.epoch.toNat ++ (toBigEndian 6 h.sequenceNumber ++
    (h.contentType.toU8 :: h.protocolVersion.major :: h.protocolVersion.minor ::
      toBigEndian 2 payloadLen))

theorem ContentType.toU8_inj {t t' : ContentType} (h : t.toU8 = t'.toU8) : t = t' := by
  rw [← ContentType.ofU8_toU8 t, h, ContentType.ofU8_toU8]

theorem toBigEndian_inj {n v v' : Nat} (hv : v < 256 ^ n) (hv' : v' < 256 ^ n)
    (h : toBigEndian n v = toBigEndian n v') : v = v' := by
  rw [← bigEndian_toBigEndian n hv, h, bigEndian_toBigEndian n hv']

/-- The additional data tell records apart by epoch, number and type. -/
theorem additionalData_inj {h h' : RecordLayerHeader} {n n' : Nat}
    (hs : h.sequenceNumber ≤ maxSequenceNumber) (hs' : h'.sequenceNumber ≤ maxSequenceNumber)
    (heq : generateAeadAdditionalData h n = generateAeadAdditionalData h' n') :
    h.epoch = h'.epoch ∧ h.sequenceNumber = h'.sequenceNumber ∧ h.contentType = h'.contentType := by
  obtain ⟨hepoch, hrest⟩ := List.append_inj heq (by simp)
  obtain ⟨hseq, hrest⟩ := List.append_inj hrest (by simp)
  refine ⟨?_, ?_, ContentType.toU8_inj (List.cons.inj hrest).1⟩
  · exact UInt16.toNat_inj.mp (toBigEndian_inj h.epoch.toNat_lt h'.epoch.toNat_lt hepoch)
  · exact toBigEndian_inj (Nat.lt_succ_of_le hs) (Nat.lt_succ_of_le hs') hseq

/-! ## Encryption -/

/-- `Aes128Gcm` with a key: `none` for its error. -/
structure Aes128Gcm where
  encryptInPlace : List UInt8 → List UInt8 → List UInt8 → Option (List UInt8)
  decryptInPlace : List UInt8 → List UInt8 → List UInt8 → Option (List UInt8)

/-- The text of the cipher's error. -/
def aeadError : Stop Error := .err (.other "aead::Error")

def cryptoGcmTagLength : Nat := 16

structure CryptoGcm where
  localGcm : Aes128Gcm
  remoteGcm : Aes128Gcm
  localWriteIv : List UInt8
  remoteWriteIv : List UInt8

namespace CryptoGcm

/-- `encrypt`, with the eight bytes of the nonce that are drawn at random. -/
def encrypt (g : CryptoGcm) (drawn : List UInt8) (pktRlh : RecordLayerHeader) (raw : List UInt8) :
    Result (List UInt8) :=
  if raw.length < recordLayerHeaderSize then .error .panicked
  else
    let payload := raw.drop recordLayerHeaderSize
    let additionalData := generateAeadAdditionalData pktRlh payload.length
    match g.localGcm.encryptInPlace (g.localWriteIv.take 4 ++ drawn) additionalData payload with
    | none => .error aeadError
    | some buffer =>
        let r := raw.take recordLayerHeaderSize ++ (drawn ++ buffer)
        let rLen := r.length - recordLayerHeaderSize
        .ok (r.take (recordLayerHeaderSize - 2) ++
          (toBigEndian 2 rLen ++ r.drop recordLayerHeaderSize))

/-- The additional data of a received record.  The length is that of 64-bit arithmetic: what
is shorter than a tag makes it wrap. -/
def recordAdditionalData (h : RecordLayerHeader) (r : List UInt8) : List UInt8 :=
  generateAeadAdditionalData h
    ((2 ^ 64 + (r.drop (recordLayerHeaderSize + 8)).length - cryptoGcmTagLength) % 2 ^ 64)

/-- The part of a record after its header, opened under the nonce at its front. -/
def openRecord (g : CryptoGcm) (h : RecordLayerHeader) (r : List UInt8) : Option (List UInt8) :=
  g.remoteGcm.decryptInPlace (g.remoteWriteIv.take 4 ++ (r.drop recordLayerHeaderSize).take 8)
    (recordAdditionalData h r) (r.drop (recordLayerHeaderSize + 8))

def decrypt (g : CryptoGcm) (r : List UInt8) : Result (List UInt8) :=
  match RecordLayerHeader.unmarshal r with
  | .error e => .error e
  | .ok (h, _) =>
      -- nothing is encrypted of a change of the cipher
      if h.contentType = .changeCipherSpec then .ok r
      else if r.length ≤ recordLayerHeaderSize + 8 then .error (.err .notEnoughRoomForNonce)
      else
        match g.openRecord h r with
        | none => .error aeadError
        | some buffer => .ok (r.take recordLayerHeaderSize ++ buffer)

/-- What an encrypted record is: the header up to its length, the length of what follows, the
nonce and what was sealed under it. -/
theorem encrypt_eq_ok {g : CryptoGcm} {drawn raw r : List UInt8} {pktRlh : RecordLayerHeader}
    (h : g.encrypt drawn pktRlh raw = .ok r) :
    recordLayerHeaderSize ≤ raw.length ∧ ∃ buffer,
      g.localGcm.encryptInPlace (g.localWriteIv.take 4 ++ drawn)
        (generateAeadAdditionalData pktRlh (raw.drop recordLayerHeaderSize).length)
        (raw.drop recordLayerHeaderSize) = some buffer ∧
      r = raw.take (recordLayerHeaderSize - 2) ++
        (toBigEndian 2 (drawn.length + buffer.length) ++ (drawn ++ buffer)) := by
  rw [encrypt] at h
  split at h
  · cases h
  · next hlen =>
      simp only at h
      split at h
      · cases h
      · next buffer hseal =>
          have htake : (raw.take recordLayerHeaderSize).length = recordLayerHeaderSize := by
            rw [List.length_take]
            omega
          refine ⟨Nat.le_of_not_lt hlen, buffer, hseal, ?_⟩
          rw [← Except.ok.inj h, List.take_append_of_le_length (by rw [htake]; decide),
            List.take_take, List.drop_left' htake, List.length_append, htake,
            Nat.add_sub_cancel_left, List.length_append]
          rfl

/-- What a record that decrypts is: a change of the cipher, as it is, or a header and what
opened under it. -/
theorem decrypt_eq_ok {g : CryptoGcm} {r plain : List UInt8} (h : g.decrypt r = .ok plain) :
    ∃ rh, (∃ tail, RecordLayerHeader.unmarshal r = .ok (rh, tail)) ∧
      ((rh.contentType = .changeCipherSpec ∧ plain = r) ∨
        ∃ buffer, rh.contentType ≠ .changeCipherSpec ∧ g.openRecord rh r = some buffer ∧
          plain = r.take recordLayerHeaderSize ++ buffer) := by
  rw [decrypt] at h
  split at h
  · cases h
  · next rh tail hread =>
      refine ⟨rh, ⟨tail, hread⟩, ?_⟩
      split at h
      · next hccs => exact .inl ⟨hccs, (Except.ok.inj h).symm⟩
      · next hccs =>
          split at h
          · cases h
          · split at h
            · cases h
            · next buffer hopen => exact .inr ⟨buffer, hccs, hopen, (Except.ok.inj h).symm⟩

/-- The receiver opens what the sender seals: the keys of one direction. -/
structure SameKeys (sender receiver : CryptoGcm) : Prop where
  opens : ∀ {nonce additionalData payload buffer},
    sender.localGcm.encryptInPlace nonce additionalData payload = some buffer →
    receiver.remoteGcm.decryptInPlace nonce additionalData buffer = some payload ∧
      buffer.length = payload.length + cryptoGcmTagLength
  iv : sender.localWriteIv.take 4 = receiver.remoteWriteIv.take 4

/-- The header of a record after its encryption. -/
def encryptedHeader (h : RecordLayerHeader) (payload : List UInt8) : RecordLayerHeader :=
  { h with contentLen := UInt16.ofNat (8 + (payload.length + cryptoGcmTagLength)) }

/-- The bytes of a header up to the length of the content, and that length. -/
theorem bytes_eq_take (h : RecordLayerHeader) : h.bytes =
    h.bytes.take (recordLayerHeaderSize - 2) ++ toBigEndian 2 h.contentLen.toNat := by
  have htake : h.bytes.take (recordLayerHeaderSize - 2) = h.contentType.toU8 ::
      h.protocolVersion.major :: h.protocolVersion.minor ::
        (toBigEndian 2 h.epoch.toNat ++ toBigEndian 6 h.sequenceNumber) := by
    simp [RecordLayerHeader.bytes, recordLayerHeaderSize, List.take_append,
      List.take_of_length_le]
  rw [htake, RecordLayerHeader.bytes]
  simp

/-- An encrypted record is a header that announces what follows, the nonce and what was
sealed. -/
theorem encrypt_record {sender receiver : CryptoGcm} (hkeys : SameKeys sender receiver)
    {h : RecordLayerHeader} {drawn payload r : List UInt8} (hdrawn : drawn.length = 8)
    (hlen : payload.length + 24 < 65536) (hr : sender.encrypt drawn h (h.bytes ++ payload) = .ok r) :
    ∃ buffer, receiver.remoteGcm.decryptInPlace (receiver.remoteWriteIv.take 4 ++ drawn)
        (generateAeadAdditionalData h payload.length) buffer = some payload ∧
      buffer.length = payload.length + cryptoGcmTagLength ∧
      (encryptedHeader h payload).contentLen.toNat = drawn.length + buffer.length ∧
      r = (encryptedHeader h payload).bytes ++ (drawn ++ buffer) := by
  obtain ⟨-, buffer, hseal, heq⟩ := encrypt_eq_ok hr
  rw [List.drop_left' h.length_bytes] at hseal
  obtain ⟨hopen, hbuffer⟩ := hkeys.opens hseal
  have hcontentLen : (encryptedHeader h payload).contentLen.toNat =
      drawn.length + buffer.length := by
    rw [encryptedHeader, hdrawn, hbuffer]
    refine UInt16.toNat_ofNat_of_lt' ?_
    simp only [cryptoGcmTagLength, UInt16.size]
    omega
  have htake : (encryptedHeader h payload).bytes.take (recordLayerHeaderSize - 2) =
      (h.bytes ++ payload).take (recordLayerHeaderSize - 2) := by
    rw [List.take_append_of_le_length (by rw [h.length_bytes]; decide)]
    simp [encryptedHeader, RecordLayerHeader.bytes, recordLayerHeaderSize, List.take_append]
  refine ⟨buffer, hkeys.iv ▸ hopen, hbuffer, hcontentLen, ?_⟩
  rw [heq, bytes_eq_take (encryptedHeader h payload), hcontentLen, htake, List.append_assoc]

/-- **A record decrypts**: what the sender encrypts gives the receiver its content, under the
header with the new length. -/
theorem decrypt_encrypt {sender receiver : CryptoGcm} (hkeys : SameKeys sender receiver)
    {h : RecordLayerHeader} {drawn payload r : List UInt8} (hdrawn : drawn.length = 8)
    (hversion : h.Supported) (hseq : h.sequenceNumber ≤ maxSequenceNumber)
    (hccs : h.contentType ≠ .changeCipherSpec) (hlen : payload.length + 24 < 65536)
    (hr : sender.encrypt drawn h (h.bytes ++ payload) = .ok r) :
    receiver.decrypt r = .ok ((encryptedHeader h payload).bytes ++ payload) := by
  obtain ⟨buffer, hopen, hbuffer, -, hrecord⟩ := encrypt_record hkeys hdrawn hlen hr
  have hread := RecordLayerHeader.reads_bytes (h := encryptedHeader h payload) hversion hseq
    (drawn ++ buffer)
  have hdrop8 : r.drop (recordLayerHeaderSize + 8) = buffer := by
    rw [hrecord, ← List.drop_drop, List.drop_left' (RecordLayerHeader.length_bytes _),
      List.drop_left' hdrawn]
  have hnonce : (r.drop recordLayerHeaderSize).take 8 = drawn := by
    rw [hrecord, List.drop_left' (RecordLayerHeader.length_bytes _), List.take_left' hdrawn]
  -- the length in the additional data is that of the content again
  have hadditional : recordAdditionalData (encryptedHeader h payload) r =
      generateAeadAdditionalData h payload.length := by
    have hmod : (2 ^ 64 + buffer.length - cryptoGcmTagLength) % 2 ^ 64 = payload.length := by
      rw [hbuffer]
      simp only [cryptoGcmTagLength]
      omega
    rw [recordAdditionalData, hdrop8, hmod]
    rfl
  have hopened : receiver.openRecord (encryptedHeader h payload) r = some payload := by
    rw [openRecord, hadditional, hnonce, hdrop8]
    exact hopen
  have htake : r.take recordLayerHeaderSize = (encryptedHeader h payload).bytes := by
    rw [hrecord, List.take_left' (RecordLayerHeader.length_bytes _)]
  have hlong : ¬ r.length ≤ recordLayerHeaderSize + 8 := by
    rw [hrecord, List.length_append, RecordLayerHeader.length_bytes, List.length_append, hdrawn,
      hbuffer]
    simp only [cryptoGcmTagLength]
    omega
  rw [decrypt, hrecord, hread, ← hrecord]
  simp only
  rw [if_neg (show (encryptedHeader h payload).contentType ≠ .changeCipherSpec from hccs),
    if_neg hlong, hopened, htake]

/-! ## Two records -/

/-- What the cipher gives under one key: a nonce, additional data and a payload with what they
are sealed to. -/
structure Answer where
  nonce : List UInt8
  additionalData : List UInt8
  payload : List UInt8
  buffer : List UInt8

/-- The key of sixteen zeros: `hi` as the first application data, and a `Finished` of one byte
as the second handshake message, each as the first record of the second epoch. -/
def answers : List Answer :=
  [⟨[1, 2, 3, 4, 0, 0, 0, 0, 0, 0, 0, 23], [0, 1, 0, 0, 0, 0, 0, 0, 23, 254, 253, 0, 2], [104, 105],
      [215, 88, 102, 56, 3, 147, 226, 46, 172, 100, 219, 48, 224, 10, 216, 102, 245, 155]⟩,
    ⟨[1, 2, 3, 4, 0, 0, 0, 0, 0, 0, 0, 22], [0, 1, 0, 0, 0, 0, 0, 0, 22, 254, 253, 0, 13],
      [20, 0, 0, 1, 0, 1, 0, 0, 0, 0, 0, 1, 9],
      [62, 236, 56, 191, 202, 108, 44, 5, 177, 45, 251, 80, 41, 45, 24, 198, 66, 123, 114, 184, 231,
        40, 214, 229, 245, 96, 218, 17, 23]⟩]

/-- The cipher under this key, as far as its answers go. -/
def zeroKey : Aes128Gcm where
  encryptInPlace nonce additionalData payload :=
    (answers.find? fun a => a.nonce = nonce ∧ a.additionalData = additionalData ∧
      a.payload = payload).map Answer.buffer
  decryptInPlace nonce additionalData buffer :=
    (answers.find? fun a => a.nonce = nonce ∧ a.additionalData = additionalData ∧
      a.buffer = buffer).map Answer.payload

def zeroKeys : CryptoGcm := ⟨zeroKey, zeroKey, [1, 2, 3, 4], [1, 2, 3, 4]⟩

/-- The drawn part of the nonces of the two records. -/
def zeroDrawn (h : RecordLayerHeader) (_ : List UInt8) : List UInt8 :=
  [0, 0, 0, 0, 0, 0, 0, h.contentType.toU8]

theorem sameKeys_zeroKeys : SameKeys zeroKeys zeroKeys where
  opens := by
    intro nonce additionalData payload buffer h
    obtain ⟨a, hfind, rfl⟩ := Option.map_eq_some_iff.mp h
    have hall : ∀ a ∈ answers, zeroKey.decryptInPlace a.nonce a.additionalData a.buffer =
        some a.payload ∧ a.buffer.length = a.payload.length + cryptoGcmTagLength := by decide
    have hasked := List.find?_some hfind
    obtain ⟨rfl, rfl, rfl⟩ := of_decide_eq_true hasked
    exact hall a (List.mem_of_find?_eq_some hfind)
  iv := rfl

end CryptoGcm

/-! ## Cipher suites -/

/-- What the connection uses of a cipher suite.  Encryption draws a nonce; as no two records
of a connection have the same header, the nonces of all its records are given by a function
of these. -/
structure CipherSuite where
  isPsk : Bool
  isInitialized : Bool
  encrypt : RecordLayerHeader → List UInt8 → Result (List UInt8)
  decrypt : List UInt8 → Result (List UInt8)

/-- `CipherSuiteAes128GcmSha256`, before and after `init`. -/
def cipherSuiteAes128GcmSha256 (gcm : Option CryptoGcm)
    (drawn : RecordLayerHeader → List UInt8 → List UInt8) : CipherSuite where
  isPsk := false
  isInitialized := gcm.isSome
  encrypt pktRlh raw :=
    match gcm with
    | some cg => cg.encrypt (drawn pktRlh raw) pktRlh raw
    | none => .error (.err
        (.other "CipherSuite has not been initialized, unable to encrypt"))
  decrypt input :=
    match gcm with
    | some cg => cg.decrypt input
    | none => .error (.err
        (.other "CipherSuite has not been initialized, unable to decrypt"))

/-- Encryption leaves the header as it is, up to the length. -/
def CipherSuite.KeepsHeader (suite : CipherSuite) : Prop :=
  ∀ h raw r, suite.encrypt h raw = .ok r →
    r.take (recordLayerHeaderSize - 2) = raw.take (recordLayerHeaderSize - 2)

theorem keepsHeader_aes128GcmSha256 (gcm : Option CryptoGcm)
    (drawn : RecordLayerHeader → List UInt8 → List UInt8) :
    (cipherSuiteAes128GcmSha256 gcm drawn).KeepsHeader := by
  intro h raw r hr
  cases gcm with
  | none => cases hr
  | some g =>
      obtain ⟨hlen, buffer, -, rfl⟩ := CryptoGcm.encrypt_eq_ok hr
      rw [List.take_left']
      rw [List.length_take]
      omega

/-- A suite with the keys of the two answers. -/
def zeroSuite : CipherSuite :=
  cipherSuiteAes128GcmSha256 (some CryptoGcm.zeroKeys) CryptoGcm.zeroDrawn

end RemoteBridge.Dtls
