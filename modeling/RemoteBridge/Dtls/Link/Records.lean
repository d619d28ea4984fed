import RemoteBridge.Dtls.Fragments.Delivery
import RemoteBridge.Dtls.Link.Data

/-!
# Dtls.Link.Records

What the records of a sender are that sends a list of handshake messages, as often as it
likes and with other packets between them.
-/

namespace RemoteBridge.Dtls

open Wire Bytes Reassembly

variable {D M : Type}

/-! ## Where records come from -/

/-- A record of a packet. -/
inductive MadeBy (codec : MessageCodec M) (cipherSuite : Option CipherSuite) (mtu : Nat)
    (p : Packet M) (r : List UInt8) : Prop
  | packet {lsn : List Nat} : (∀ h, p.record.content ≠ .handshake h) →
      (sendRecord cipherSuite p.shouldEncrypt lsn p.record.recordLayerHeader
        (p.record.content.marshal codec)).result = .ok r → MadeBy codec cipherSuite mtu p r
  | fragment {lsn : List Nat} {h : Handshake M} {fragments : List (List UInt8)}
      {fragment : List UInt8} : p.record.content = .handshake h →
      fragmentHandshake codec mtu h = .ok fragments → fragment ∈ fragments →
      (sendRecord cipherSuite p.shouldEncrypt lsn { p.record.recordLayerHeader with
        contentLen := UInt16.ofNat fragment.length } (.ok fragment)).result = .ok r →
      MadeBy codec cipherSuite mtu p r

section

variable {codec : MessageCodec M} {cipherSuite : Option CipherSuite} {mtu : Nat} {p : Packet M}
  {r : List UInt8} {raws : List (List UInt8)} {isClient shouldEncrypt : Bool} {lsn : List Nat}
  {cache : HandshakeCache} {h : RecordLayerHeader}

/-- A result that was put together from two. -/
theorem map_eq_ok {α β : Type} {x : Result α} {f : α → β} {b : β} :
    x.map f = .ok b ↔ ∃ a, x = .ok a ∧ f a = b := by
  cases x <;> simp [Except.map]

theorem mem_sendFragments {fragments : List (List UInt8)}
    (hraws : (sendFragments cipherSuite shouldEncrypt h lsn fragments).result = .ok raws)
    (hr : r ∈ raws) : ∃ fragment ∈ fragments, ∃ lsn', (sendRecord cipherSuite shouldEncrypt lsn'
      { h with contentLen := UInt16.ofNat fragment.length } (.ok fragment)).result = .ok r := by
  induction fragments generalizing lsn raws with
  | nil =>
      obtain rfl := Except.ok.inj hraws
      cases hr
  | cons fragment fragments ih =>
      rw [sendFragments] at hraws
      simp only at hraws
      split at hraws
      · cases hraws
      · next raw hraw =>
          obtain ⟨rest, hrest, rfl⟩ := map_eq_ok.mp hraws
          rcases List.mem_cons.mp hr with rfl | hr
          · exact ⟨fragment, List.mem_cons_self .., lsn, hraw⟩
          · obtain ⟨fragment', hmem, hmade⟩ := ih hrest hr
            exact ⟨fragment', List.mem_cons_of_mem _ hmem, hmade⟩

theorem mem_sendPacket
    (hraws : (sendPacket codec cipherSuite isClient mtu lsn cache p).2.result = .ok raws)
    (hr : r ∈ raws) : MadeBy codec cipherSuite mtu p r := by
  have hplain (hcontent : ∀ h, p.record.content ≠ .handshake h)
      (hmap : (processPacket codec cipherSuite lsn p).result.map (fun rawPacket => [rawPacket]) =
        .ok raws) : MadeBy codec cipherSuite mtu p r := by
    obtain ⟨raw, hraw, rfl⟩ := map_eq_ok.mp hmap
    obtain rfl := List.mem_singleton.mp hr
    exact .packet hcontent hraw
  rw [sendPacket] at hraws
  cases hcontent : p.record.content with
  | handshake hs =>
      simp only [hcontent] at hraws
      split at hraws
      · cases hraws
      · simp only [processHandshakePacket] at hraws
        split at hraws
        · cases hraws
        · next fragments hfragments =>
            obtain ⟨fragment, hmem, lsn', hmade⟩ := mem_sendFragments hraws hr
            exact .fragment hcontent hfragments hmem hmade
  | applicationData data =>
      simp only [hcontent] at hraws
      exact hplain (by simp [hcontent]) hraws
  | alert a =>
      simp only [hcontent] at hraws
      exact hplain (by simp [hcontent]) hraws
  | changeCipherSpec =>
      simp only [hcontent] at hraws
      exact hplain (by simp [hcontent]) hraws

theorem mem_sendPackets {pkts : List (Packet M)}
    (hraws : (sendPackets codec cipherSuite isClient mtu lsn cache pkts).2.result = .ok raws)
    (hr : r ∈ raws) : ∃ p ∈ pkts, MadeBy codec cipherSuite mtu p r := by
  induction pkts generalizing lsn cache raws with
  | nil =>
      obtain rfl := Except.ok.inj hraws
      cases hr
  | cons p pkts ih =>
      rw [sendPackets] at hraws
      simp only at hraws
      split at hraws
      · cases hraws
      · next first hfirst =>
          obtain ⟨rest, hrest, rfl⟩ := map_eq_ok.mp hraws
          rcases List.mem_append.mp hr with hr | hr
          · exact ⟨p, List.mem_cons_self .., mem_sendPacket hfirst hr⟩
          · obtain ⟨p', hmem, hmade⟩ := ih hrest hr
            exact ⟨p', List.mem_cons_of_mem p hmem, hmade⟩

/-- A record that was made is its header and its content, or the encryption of these. -/
theorem sendRecord_eq_ok {content : Result (List UInt8)}
    (hr : (sendRecord cipherSuite shouldEncrypt lsn h content).result = .ok r) :
    ∃ seq c, seq ≤ maxSequenceNumber ∧ content = .ok c ∧
      ((r = { h with sequenceNumber := seq }.bytes ++ c ∧
          ¬ (shouldEncrypt = true ∧ cipherSuite.isSome)) ∨
        ∃ suite, cipherSuite = some suite ∧ shouldEncrypt = true ∧
          suite.encrypt { h with sequenceNumber := seq }
            ({ h with sequenceNumber := seq }.bytes ++ c) = .ok r) := by
  rw [sendRecord] at hr
  simp only at hr
  split at hr
  · cases hr
  · next hmax =>
      split at hr
      · cases hr
      · cases hr
      · next bytes c hbytes =>
          obtain ⟨-, rfl⟩ := RecordLayerHeader.marshal_eq_ok.mp hbytes
          refine ⟨_, c, Nat.le_of_not_lt hmax, rfl, ?_⟩
          split at hr
          · next suite => exact .inr ⟨suite, rfl, rfl, hr⟩
          · next hnone =>
              refine .inl ⟨(Except.ok.inj hr).symm, ?_⟩
              rintro ⟨rfl, hsome⟩
              obtain ⟨suite, rfl⟩ := Option.isSome_iff_exists.mp hsome
              exact hnone suite rfl rfl

/-! ## Fragments of messages -/

/-- The header that all fragments of a message share. -/
def Msg.Heads (m : Msg) (seq : UInt16) (h : HandshakeHeader) : Prop :=
  h.handshakeType = m.handshakeType ∧ h.length = m.body.length ∧ h.messageSequence = seq

theorem fragmentsFrom_eq_ok {m : Msg} {seq : UInt16} {h : HandshakeHeader} (hh : m.Heads seq h)
    {parts fragments : List (List UInt8)} {offset : Nat}
    (hok : fragmentsFrom h offset parts = .ok fragments) :
    fragments = (numbered offset parts).map fun q => (m.header seq q).bytes ++ q.data := by
  induction parts generalizing offset fragments with
  | nil =>
      obtain rfl := Except.ok.inj hok
      rfl
  | cons part parts ih =>
      rw [fragmentsFrom] at hok
      cases hheader : HandshakeHeader.marshal
          { h with fragmentOffset := offset, fragmentLength := part.length } with
      | error e => rw [hheader] at hok; cases hok
      | ok header =>
          cases hrest : fragmentsFrom h (offset + part.length) parts with
          | error e => rw [hheader, hrest] at hok; cases hok
          | ok rest =>
              rw [hheader, hrest] at hok
              obtain rfl := Except.ok.inj hok
              obtain ⟨htype, hlength, hseq⟩ := hh
              rw [(HandshakeHeader.marshal_eq_ok.mp hheader).2, ih hrest, numbered, List.map_cons,
                Msg.header, ← htype, ← hlength, ← hseq]

/-- What follows the record header of a fragment: a piece of a message with its header. -/
def PieceOf (mtu : Nat) (m : Msg) (seq : UInt16) (c : List UInt8) : Prop :=
  ∃ q, IsPiece mtu m.body q ∧ c = (m.header seq q).bytes ++ q.data

theorem pieceOf_of_fragmentHandshake {m : Msg} {seq : UInt16} {hs : Handshake M}
    (hmtu : 0 < mtu) (hh : m.Heads seq hs.handshakeHeader)
    (hbody : codec.marshal hs.handshakeMessage = .ok m.body) {fragments : List (List UInt8)}
    (hok : fragmentHandshake codec mtu hs = .ok fragments) {c : List UInt8} (hc : c ∈ fragments) :
    PieceOf mtu m seq c := by
  have hsplit : splitBytes m.body mtu = .ok (cut mtu m.body) := if_neg (by omega)
  rw [fragmentHandshake, hbody] at hok
  change (splitBytes m.body mtu >>= fun parts =>
    fragmentsFrom hs.handshakeHeader 0 (if parts = [] then [[]] else parts)) = _ at hok
  rw [hsplit] at hok
  have hfragments := fragmentsFrom_eq_ok hh hok
  rw [hfragments] at hc
  obtain ⟨q, hq, rfl⟩ := List.mem_map.mp hc
  exact ⟨q, (mem_numbered_iff hmtu).mp hq, rfl⟩

end

/-! ## Records on the way -/

/-- A suite that encrypts with these keys, under whatever nonces, or not at all. -/
def Encrypts (gcm : CryptoGcm) (suite : CipherSuite) : Prop :=
  ∀ h raw r, suite.encrypt h raw = .ok r →
    ∃ drawn, drawn.length = 8 ∧ gcm.encrypt drawn h raw = .ok r

/-- What opens a packet at the receiver. -/
def Opens (receiver : CryptoGcm) (h : RecordLayerHeader) (pkt plain : List UInt8) : Prop :=
  (h.epoch = 0 ∧ plain = pkt) ∨ (h.epoch ≠ 0 ∧ receiver.decrypt pkt = .ok plain)

/-- A record of the sender: what it opens to carries a piece of a message, or it is no
handshake record. -/
structure FromSender (mtu : Nat) (msgs : List Msg) (receiver : CryptoGcm) (pkt : List UInt8) :
    Prop where
  whole : Whole pkt
  carries : Carries pkt
  opens : ∃ h tail, RecordLayerHeader.unmarshal pkt = .ok (h, tail) ∧
    (h.contentType = .handshake → ∀ plain, Opens receiver h pkt plain →
      ∃ i q, Carried mtu msgs i q plain)

/-- A packet of the sender: message number `i` of the list, under its number and epoch and
encrypted from the second epoch on, or a short packet of another kind. -/
inductive Packet.Proper (codec : MessageCodec M) (msgs : List Msg)
    (cipherSuite : Option CipherSuite) (p : Packet M) : Prop
  | message {hs : Handshake M} {i : Nat} {m : Msg} : p.record.content = .handshake hs →
      msgs[i]? = some m → codec.marshal hs.handshakeMessage = .ok m.body →
      m.Heads (UInt16.ofNat i) hs.handshakeHeader → p.record.recordLayerHeader.epoch = m.epoch →
      (p.shouldEncrypt = true ↔ m.epoch ≠ 0) →
      (p.shouldEncrypt = true → cipherSuite.isSome = true) →
      Packet.Proper codec msgs cipherSuite p
  | other {c : List UInt8} : (∀ h, p.record.content ≠ .handshake h) →
      p.record.content.marshal codec = .ok c →
      p.record.recordLayerHeader.contentLen.toNat = c.length → 0 < c.length →
      c.length + 24 < 65536 → Packet.Proper codec msgs cipherSuite p

section

variable {codec : MessageCodec M} {cipherSuite : Option CipherSuite} {mtu : Nat} {msgs : List Msg}
  {sender receiver : CryptoGcm} {p : Packet M} {r c : List UInt8} {h : RecordLayerHeader}

theorem whole_bytes {rest : List UInt8} (hlen : h.contentLen.toNat = rest.length) :
    Whole (h.bytes ++ rest) := by
  have hfield : ((h.bytes ++ rest).drop (recordLayerHeaderSize - 2)).take 2 =
      toBigEndian 2 h.contentLen.toNat := by
    have htake : (h.bytes.take (recordLayerHeaderSize - 2)).length = recordLayerHeaderSize - 2 := by
      rw [List.length_take, h.length_bytes]
      decide
    rw [CryptoGcm.bytes_eq_take, List.append_assoc, List.drop_left' htake,
      List.take_left' (length_toBigEndian ..)]
  refine ⟨?_, ?_⟩
  · rw [List.length_append, h.length_bytes]
    exact Nat.le_add_right ..
  · rw [hfield, List.length_append, h.length_bytes,
      bigEndian_toBigEndian 2 h.contentLen.toNat_lt, hlen]

theorem carries_bytes {rest : List UInt8} (hlen : 0 < rest.length) : Carries (h.bytes ++ rest) := by
  rw [Carries, List.length_append, h.length_bytes]
  omega

/-- A record as it is made, with its content: in a handshake record this is a piece of a
message of the record's epoch, which is encrypted from the second epoch on. -/
theorem fromSender_of_record (hkeys : CryptoGcm.SameKeys sender receiver)
    (hsuite : ∀ suite ∈ cipherSuite, Encrypts sender suite) {shouldEncrypt : Bool}
    (hversion : h.Supported) (hseq : h.sequenceNumber ≤ maxSequenceNumber)
    (hlen : h.contentLen.toNat = c.length) (hpos : 0 < c.length) (hshort : c.length + 24 < 65536)
    (hpiece : h.contentType = .handshake → ∃ i m, msgs[i]? = some m ∧ h.epoch = m.epoch ∧
      PieceOf mtu m (UInt16.ofNat i) c)
    (hencrypt : h.contentType = .handshake →
      ((shouldEncrypt = true ∧ cipherSuite.isSome) ↔ h.epoch ≠ 0))
    (hr : (r = h.bytes ++ c ∧ ¬ (shouldEncrypt = true ∧ cipherSuite.isSome)) ∨
      ∃ suite, cipherSuite = some suite ∧ shouldEncrypt = true ∧
        suite.encrypt h (h.bytes ++ c) = .ok r) :
    FromSender mtu msgs receiver r := by
  have hcarried {h' : RecordLayerHeader} (htype : h'.contentType = h.contentType)
      (hepoch : h'.epoch = h.epoch) (hseq' : h'.sequenceNumber = h.sequenceNumber)
      (hversion' : h'.Supported) (hhs : h.contentType = .handshake) :
      ∃ i q, Carried mtu msgs i q (h'.bytes ++ c) := by
    obtain ⟨i, m, hm, hepoch', q, hq, rfl⟩ := hpiece hhs
    exact ⟨i, q, ⟨m, h', hm, hq, hversion', hseq' ▸ hseq, htype.trans hhs,
      hepoch.trans hepoch', rfl⟩⟩
  rcases hr with ⟨rfl, hplain⟩ | ⟨suite, hsome, henc, hcipher⟩
  · refine ⟨whole_bytes hlen, carries_bytes hpos, h, c,
      RecordLayerHeader.reads_bytes hversion hseq c, fun hhs plain hopens => ?_⟩
    rcases hopens with ⟨-, rfl⟩ | ⟨hne, -⟩
    · exact hcarried rfl rfl rfl hversion hhs
    · exact absurd ((hencrypt hhs).mpr hne) hplain
  · obtain ⟨drawn, hdrawn, hcipher⟩ := hsuite suite hsome h (h.bytes ++ c) r hcipher
    obtain ⟨buffer, -, -, hcontentLen, hrecord⟩ :=
      CryptoGcm.encrypt_record hkeys hdrawn hshort hcipher
    have hread := RecordLayerHeader.reads_bytes (h := CryptoGcm.encryptedHeader h c) hversion hseq
      (drawn ++ buffer)
    refine ⟨?_, ?_, CryptoGcm.encryptedHeader h c, drawn ++ buffer, hrecord ▸ hread,
      fun hhs plain hopens => ?_⟩
    · rw [hrecord]
      exact whole_bytes (by rw [hcontentLen, List.length_append])
    · rw [hrecord]
      exact carries_bytes (by rw [List.length_append]; omega)
    · have hhs : h.contentType = .handshake := hhs
      have hne : h.epoch ≠ 0 := (hencrypt hhs).mp ⟨henc, by rw [hsome]; rfl⟩
      have hdecrypt := CryptoGcm.decrypt_encrypt hkeys hdrawn hversion hseq
        (by rw [hhs]; nofun) hshort hcipher
      rcases hopens with ⟨hzero, -⟩ | ⟨-, hplain⟩
      · exact absurd hzero hne
      · obtain rfl := Except.ok.inj (hdecrypt.symm.trans hplain)
        exact hcarried rfl rfl rfl hversion hhs

/-- Every record of a proper packet is one of these. -/
theorem MadeBy.fromSender (hkeys : CryptoGcm.SameKeys sender receiver)
    (hs : Sendable mtu msgs) (hmtu : mtu + 36 < 65536)
    (hsuite : ∀ suite ∈ cipherSuite, Encrypts sender suite)
    (htyped : p.Typed) (hversion : p.record.recordLayerHeader.Supported)
    (hproper : p.Proper codec msgs cipherSuite) (hmade : MadeBy codec cipherSuite mtu p r) :
    FromSender mtu msgs receiver r := by
  cases hmade with
  | packet hcontent hr =>
      obtain ⟨seq, c, hseq, hc, hcase⟩ := sendRecord_eq_ok hr
      have htype : p.record.recordLayerHeader.contentType ≠ .handshake := by
        rw [htyped]
        cases hkind : p.record.content with
        | handshake hs => exact absurd hkind (hcontent hs)
        | _ => nofun
      cases hproper with
      | message hmessage => exact absurd hmessage (hcontent _)
      | other _ hc' hlen hpos hshort =>
          obtain rfl := Except.ok.inj (hc.symm.trans hc')
          exact fromSender_of_record
            (h := { p.record.recordLayerHeader with sequenceNumber := seq }) hkeys hsuite hversion
            hseq hlen hpos hshort (fun hhs => absurd hhs htype) (fun hhs => absurd hhs htype) hcase
  | @fragment _ hs' fragments fragment hcontent hfragments hmem hr =>
      obtain ⟨seq, c, hseq, hc, hcase⟩ := sendRecord_eq_ok hr
      obtain rfl := Except.ok.inj hc
      cases hproper with
      | other hnone => exact absurd hcontent (hnone _)
      | @message hs'' i m hcontent' hm hbody hheads hepoch hencrypt hsome =>
          obtain rfl : hs' = hs'' := by
            have := hcontent.symm.trans hcontent'
            cases this
            rfl
          have hpiece := pieceOf_of_fragmentHandshake hs.mtu_pos hheads hbody hfragments hmem
          have hlength : fragment.length ≤ 12 + mtu ∧ 0 < fragment.length := by
            obtain ⟨q, hq, rfl⟩ := hpiece
            have hdata : q.data.length ≤ mtu := by
              rw [hq.2.2, List.length_take]
              omega
            rw [List.length_append, HandshakeHeader.length_bytes]
            simp only [handshakeHeaderLength]
            omega
          have hlen : (UInt16.ofNat fragment.length).toNat = fragment.length :=
            UInt16.toNat_ofNat_of_lt' (by simp only [UInt16.size]; omega)
          refine fromSender_of_record (h := { p.record.recordLayerHeader with
            contentLen := UInt16.ofNat fragment.length, sequenceNumber := seq }) hkeys hsuite
            hversion hseq hlen hlength.2 (by omega) (fun _ => ⟨i, m, hm, hepoch, hpiece⟩) (fun _ => ?_) hcase
          show (p.shouldEncrypt = true ∧ _) ↔ p.record.recordLayerHeader.epoch ≠ 0
          rw [hepoch, ← hencrypt]
          exact ⟨And.left, fun h => ⟨h, hsome h⟩⟩

end

end RemoteBridge.Dtls
