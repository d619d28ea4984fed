import RemoteBridge.Dtls.Reader.Deliveries
import RemoteBridge.Dtls.Sender.Numbers

/-!
# Dtls.Link

One direction of a connection: the sending half of one end, the receiving half of the other,
and between them a network that may do anything.
-/

namespace RemoteBridge.Dtls

open Wire Bytes

variable {D M : Type}

structure Link (D M : Type) where
  sender : Sender
  reader : Reader.State D M

namespace Link

inductive Event (M : Type)
  /-- The sender is given packets. -/
  | call (c : Call M)
  /-- Something comes to the reader. -/
  | datagram (d : Reader.Datagram)
  /-- A message of the reader's own side goes into the cache it shares with it. -/
  | own (item : HandshakeCacheItem)

def new : Link D M := ⟨.new, .new⟩

def machine (setup : Reader.Setup D M) (mtu : Nat) : Machine (Link D M) (Event M) where
  step s
    | .call c => some { s with sender := s.sender.call setup.codec (!setup.isClient) mtu c }
    | .datagram d => ((Reader.machine setup).step s.reader d).map fun reader => { s with reader }
    | .own item =>
        if item.isClient = setup.isClient then
          some { s with reader := { s.reader with
            ctx := { s.reader.ctx with cache := s.reader.ctx.cache.push item } } }
        else none

/-- What a step does. -/
inductive Step (setup : Reader.Setup D M) (mtu : Nat) (s : Link D M) : Event M → Link D M → Prop
  | call (c : Call M) : Step setup mtu s (.call c)
      { s with sender := s.sender.call setup.codec (!setup.isClient) mtu c }
  | datagram {d : Reader.Datagram} {reader : Reader.State D M} :
      (Reader.machine setup).step s.reader d = some reader →
      Step setup mtu s (.datagram d) { s with reader }
  | own {item : HandshakeCacheItem} : item.isClient = setup.isClient →
      Step setup mtu s (.own item) { s with reader := { s.reader with
        ctx := { s.reader.ctx with cache := s.reader.ctx.cache.push item } } }

theorem Step.of_step {setup : Reader.Setup D M} {mtu : Nat} {s s' : Link D M} {e : Event M}
    (h : (machine setup mtu).step s e = some s') : Step setup mtu s e s' := by
  cases e with
  | call c =>
      obtain rfl := Option.some.inj h
      exact .call c
  | datagram d =>
      obtain ⟨reader, hreader, rfl⟩ := Option.map_eq_some_iff.mp h
      exact .datagram hreader
  | own item =>
      simp only [machine] at h
      split at h
      · next hitem =>
          obtain rfl := Option.some.inj h
          exact .own hitem
      · cases h

end Link

/-! ## What is encrypted -/

/-- The application data of a packet. -/
def Packet.data (p : Packet M) : Option (List UInt8) :=
  match p.record.content with
  | .applicationData data => some data
  | _ => none

/-- The header is the one `RecordLayer::new` makes for the content. -/
def Packet.Typed (p : Packet M) : Prop :=
  p.record.recordLayerHeader.contentType = p.record.content.contentType

/-- The application data among what was given to the cipher suite. -/
def sealedData (handed : List (RecordLayerHeader × List UInt8)) : List (List UInt8) :=
  (handed.filter fun x => x.1.contentType = .applicationData).map fun x =>
    x.2.drop recordLayerHeaderSize

/-- What was given to the cipher suite is numbered, and has only these data, in this order. -/
structure Seals (handed : List (RecordLayerHeader × List UInt8)) (data : List (List UInt8)) :
    Prop where
  sublist : (sealedData handed).Sublist data
  small : ∀ x ∈ handed, x.1.sequenceNumber ≤ maxSequenceNumber

section

variable {handed handed' : List (RecordLayerHeader × List UInt8)} {data data' : List (List UInt8)}
  {cipherSuite : Option CipherSuite} {shouldEncrypt isClient : Bool} {lsn : List Nat} {mtu : Nat}
  {h : RecordLayerHeader} {content : Result (List UInt8)} {codec : MessageCodec M}
  {cache : HandshakeCache}

theorem seals_nil : Seals [] data := ⟨List.nil_sublist _, by simp⟩

theorem Seals.append (hl : Seals handed data) (hr : Seals handed' data') :
    Seals (handed ++ handed') (data ++ data') where
  sublist := by
    rw [sealedData, List.filter_append, List.map_append]
    exact hl.sublist.append hr.sublist
  small x hx := (List.mem_append.mp hx).elim (hl.small x) (hr.small x)

/-- One record gives the cipher suite itself or nothing. -/
theorem handed_sendRecord (cipherSuite : Option CipherSuite) (shouldEncrypt : Bool)
    (lsn : List Nat) (h : RecordLayerHeader) (content : Result (List UInt8)) :
    (sendRecord cipherSuite shouldEncrypt lsn h content).handed = [] ∨
      ∃ c, content = .ok c ∧ numberAt lsn h.epoch.toNat ≤ maxSequenceNumber ∧
        (sendRecord cipherSuite shouldEncrypt lsn h content).handed =
          [({ h with sequenceNumber := numberAt lsn h.epoch.toNat },
            { h with sequenceNumber := numberAt lsn h.epoch.toNat }.bytes ++ c)] := by
  rw [sendRecord]
  simp only
  split
  · exact .inl rfl
  · next hmax =>
      split
      · exact .inl rfl
      · exact .inl rfl
      · next bytes c hbytes =>
          obtain ⟨-, rfl⟩ := RecordLayerHeader.marshal_eq_ok.mp hbytes
          split
          · exact .inr ⟨c, rfl, Nat.le_of_not_lt hmax, rfl⟩
          · exact .inl rfl

theorem seals_sendRecord_of_ne (htype : h.contentType ≠ .applicationData) :
    Seals (sendRecord cipherSuite shouldEncrypt lsn h content).handed data := by
  rcases handed_sendRecord cipherSuite shouldEncrypt lsn h content with hnil | ⟨c, -, hmax, heq⟩
  · rw [hnil]
    exact seals_nil
  · rw [heq]
    exact ⟨by simp [sealedData, htype], by simpa using hmax⟩

theorem seals_sendRecord {c : List UInt8} (hcontent : content = .ok c) :
    Seals (sendRecord cipherSuite shouldEncrypt lsn h content).handed [c] := by
  rcases handed_sendRecord cipherSuite shouldEncrypt lsn h content with
    hnil | ⟨c', hc', hmax, heq⟩
  · rw [hnil]
    exact seals_nil
  · obtain rfl := Except.ok.inj (hcontent.symm.trans hc')
    rw [heq]
    refine ⟨?_, by simpa using hmax⟩
    have hdrop : ({ h with sequenceNumber := numberAt lsn h.epoch.toNat }.bytes ++ c).drop
        recordLayerHeaderSize = c := List.drop_left' (RecordLayerHeader.length_bytes _)
    refine (List.filter_sublist.map _).trans ?_
    rw [List.map_singleton, hdrop]

theorem seals_sendFragments (htype : h.contentType ≠ .applicationData)
    (fragments : List (List UInt8)) :
    Seals (sendFragments cipherSuite shouldEncrypt h lsn fragments).handed [] := by
  induction fragments generalizing lsn with
  | nil => exact seals_nil
  | cons fragment fragments ih =>
      have hfirst : Seals (sendRecord cipherSuite shouldEncrypt lsn
          { h with contentLen := UInt16.ofNat fragment.length } (.ok fragment)).handed [] :=
        seals_sendRecord_of_ne htype
      rw [sendFragments]
      simp only
      split
      · exact hfirst
      · exact hfirst.append ih

theorem seals_sendPacket {p : Packet M} (hp : p.Typed) :
    Seals (sendPacket codec cipherSuite isClient mtu lsn cache p).2.handed p.data.toList := by
  rw [Packet.Typed] at hp
  rw [sendPacket]
  cases hcontent : p.record.content with
  | handshake hs =>
      have htype : p.record.recordLayerHeader.contentType ≠ .applicationData := by
        rw [hp, hcontent]
        simp [Content.contentType]
      simp only
      split
      · exact seals_nil
      · simp only [processHandshakePacket]
        split
        · exact seals_nil
        · simp only [Packet.data, hcontent, Option.toList_none]
          exact seals_sendFragments htype _
  | applicationData data =>
      simp only [processPacket, Packet.data, hcontent, Option.toList_some]
      exact seals_sendRecord rfl
  | alert a =>
      simp only [processPacket]
      refine seals_sendRecord_of_ne ?_
      rw [hp, hcontent]
      simp [Content.contentType]
  | changeCipherSpec =>
      simp only [processPacket]
      refine seals_sendRecord_of_ne ?_
      rw [hp, hcontent]
      simp [Content.contentType]

theorem seals_sendPackets {pkts : List (Packet M)} (hpkts : ∀ p ∈ pkts, p.Typed) :
    Seals (sendPackets codec cipherSuite isClient mtu lsn cache pkts).2.handed
      (pkts.filterMap Packet.data) := by
  induction pkts generalizing lsn cache with
  | nil => exact seals_nil
  | cons p pkts ih =>
      have hfirst : Seals (sendPacket codec cipherSuite isClient mtu lsn cache p).2.handed
          p.data.toList := seals_sendPacket (hpkts p (List.mem_cons_self ..))
      have hdata : (p :: pkts).filterMap Packet.data =
          p.data.toList ++ pkts.filterMap Packet.data := by
        rw [List.filterMap_cons]
        cases p.data <;> rfl
      rw [sendPackets, hdata]
      simp only
      split
      · rw [← List.append_nil (sendPacket codec cipherSuite isClient mtu lsn cache p).2.handed]
        exact hfirst.append seals_nil
      · exact hfirst.append (ih fun p' hp' => hpkts p' (List.mem_cons_of_mem p hp'))

end

end RemoteBridge.Dtls
