import RemoteBridge.Dtls.Sender
import RemoteBridge.Machine

/-!
# Dtls.Sender.Numbers

No two records of a connection have the same epoch and sequence number.
-/

namespace RemoteBridge.Dtls

open Wire Bytes

variable {M : Type}

/-! ## Drawing numbers -/

/-- The numbers `ks`, each with its epoch, were drawn in this order. -/
structure Drawn (lsn : List Nat) (ks : List (Nat × Nat)) (lsn' : List Nat) : Prop where
  le : ∀ e, numberAt lsn e ≤ numberAt lsn' e
  mem : ∀ k ∈ ks, numberAt lsn k.1 ≤ k.2 ∧ k.2 < numberAt lsn' k.1
  increasing : ks.Pairwise fun k k' => k.1 = k'.1 → k.2 < k'.2

section

variable {lsn lsn' lsn'' : List Nat} {ks ks' : List (Nat × Nat)} {e : Nat}

theorem drawn_nil (h : ∀ e, numberAt lsn e ≤ numberAt lsn' e) : Drawn lsn [] lsn' :=
  ⟨h, by simp, .nil⟩

theorem Drawn.append (h : Drawn lsn ks lsn') (h' : Drawn lsn' ks' lsn'') :
    Drawn lsn (ks ++ ks') lsn'' := by
  refine ⟨fun e => (h.le e).trans (h'.le e), ?_, ?_⟩
  · intro k hk
    rcases List.mem_append.mp hk with hk | hk
    · exact ⟨(h.mem k hk).1, (h.mem k hk).2.trans_le (h'.le k.1)⟩
    · exact ⟨(h.le k.1).trans (h'.mem k hk).1, (h'.mem k hk).2⟩
  · refine List.pairwise_append.mpr ⟨h.increasing, h'.increasing, fun k hk k' hk' heq => ?_⟩
    have hlt := (h.mem k hk).2
    have hle := (h'.mem k' hk').1
    rw [heq] at hlt
    exact hlt.trans_le hle

theorem numberAt_grow (lsn : List Nat) (epoch e : Nat) :
    numberAt (grow lsn epoch) e = numberAt lsn e := by
  rw [grow, numberAt, numberAt, List.getD_eq_getElem?_getD, List.getD_eq_getElem?_getD,
    List.getElem?_append]
  split
  · rfl
  · next hle =>
      rw [List.getElem?_eq_none (Nat.le_of_not_lt hle), List.getElem?_replicate]
      split <;> rfl

theorem lt_length_grow (lsn : List Nat) (epoch : Nat) : epoch < (grow lsn epoch).length := by
  rw [grow, List.length_append, List.length_replicate]
  omega

theorem length_bump : (bump lsn e).length = lsn.length := by
  rw [bump, List.length_set]

theorem numberAt_bump {epoch : Nat} (h : epoch < lsn.length) :
    numberAt (bump lsn epoch) e = if e = epoch then numberAt lsn e + 1 else numberAt lsn e := by
  rw [bump, numberAt, List.getD_eq_getElem?_getD, List.getElem?_set]
  by_cases heq : epoch = e
  · subst heq
    rw [if_pos rfl, if_pos h, if_pos rfl, Option.getD_some]
  · rw [if_neg heq, if_neg (Ne.symm heq), numberAt, List.getD_eq_getElem?_getD]

theorem drawn_bump (h : e < lsn.length) : Drawn lsn [(e, numberAt lsn e)] (bump lsn e) where
  le e' := by
    rw [numberAt_bump h]
    split <;> omega
  mem k hk := by
    obtain rfl := List.mem_singleton.mp hk
    show numberAt lsn e ≤ numberAt lsn e ∧ numberAt lsn e < numberAt (bump lsn e) e
    rw [numberAt_bump h, if_pos rfl]
    omega
  increasing := List.pairwise_singleton _ _

theorem Drawn.of_grow {epoch : Nat} (h : Drawn (grow lsn epoch) ks lsn') : Drawn lsn ks lsn' where
  le e := numberAt_grow lsn epoch e ▸ h.le e
  mem k hk := numberAt_grow lsn epoch k.1 ▸ h.mem k hk
  increasing := h.increasing

end

/-! ## The numbers of records -/

/-- The epoch and the sequence number of a header. -/
def RecordLayerHeader.number (h : RecordLayerHeader) : Nat × Nat :=
  (h.epoch.toNat, h.sequenceNumber)

/-- The epoch and the sequence number a record is sent under. -/
def recordNumber (r : List UInt8) : Nat × Nat :=
  (bigEndian ((r.drop 3).take 2), bigEndian ((r.drop 5).take 6))

theorem recordNumber_congr {r r' : List UInt8}
    (h : r.take (recordLayerHeaderSize - 2) = r'.take (recordLayerHeaderSize - 2)) :
    recordNumber r = recordNumber r' := by
  have hslice (n m : Nat) (hle : n + m ≤ recordLayerHeaderSize - 2) :
      (r.drop n).take m = (r'.drop n).take m := by
    have htake (l : List UInt8) : (l.drop n).take m =
        ((l.take (recordLayerHeaderSize - 2)).drop n).take m := by
      rw [List.drop_take, List.take_take, Nat.min_eq_left (by omega)]
    rw [htake r, htake r', h]
  rw [recordNumber, recordNumber, hslice 3 2 (by decide), hslice 5 6 (by decide)]

theorem recordNumber_bytes {h : RecordLayerHeader} (content : List UInt8)
    (hs : h.sequenceNumber ≤ maxSequenceNumber) : recordNumber (h.bytes ++ content) = h.number := by
  have hseq : bigEndian (toBigEndian 6 h.sequenceNumber) = h.sequenceNumber :=
    bigEndian_toBigEndian 6 (Nat.lt_succ_of_le hs)
  have hepoch : bigEndian (toBigEndian 2 h.epoch.toNat) = h.epoch.toNat :=
    bigEndian_toBigEndian 2 h.epoch.toNat_lt
  have hbytes : h.bytes ++ content = [h.contentType.toU8, h.protocolVersion.major,
      h.protocolVersion.minor] ++ (toBigEndian 2 h.epoch.toNat ++ (toBigEndian 6 h.sequenceNumber ++
        (toBigEndian 2 h.contentLen.toNat ++ content))) := by
    simp [RecordLayerHeader.bytes]
  have hdrop3 : (h.bytes ++ content).drop 3 = toBigEndian 2 h.epoch.toNat ++
      (toBigEndian 6 h.sequenceNumber ++ (toBigEndian 2 h.contentLen.toNat ++ content)) := by
    rw [hbytes]
    rfl
  have hdrop5 : (h.bytes ++ content).drop 5 =
      toBigEndian 6 h.sequenceNumber ++ (toBigEndian 2 h.contentLen.toNat ++ content) := by
    rw [show 5 = 3 + 2 from rfl, ← List.drop_drop, hdrop3, List.drop_left' (by simp)]
  rw [recordNumber, hdrop3, hdrop5, List.take_left' (by simp), List.take_left' (by simp), hseq,
    hepoch]
  rfl

/-- The records of an outcome, and what it gave to the cipher suite, have numbers that were
drawn for them. -/
structure Numbered {α : Type} (records : α → List (List UInt8)) (lsn : List Nat) (sent : Sent α) :
    Prop where
  exists_drawn : ∃ ks, Drawn lsn ks sent.lsn ∧
    (sent.handed.map fun x => x.1.number).Sublist ks ∧
    ∀ a, sent.result = .ok a → ((records a).map recordNumber).Sublist ks

section

variable {cipherSuite : Option CipherSuite} {shouldEncrypt : Bool} {lsn : List Nat}
  {codec : MessageCodec M} {isClient : Bool} {mtu : Nat} {cache : HandshakeCache}

/-- One record: whether or not it is made, its number is gone. -/
theorem numbered_sendRecord (shouldEncrypt : Bool) (content : Result (List UInt8))
    (hsuite : ∀ suite ∈ cipherSuite, suite.KeepsHeader) {h : RecordLayerHeader}
    (hlen : h.epoch.toNat < lsn.length) :
    Numbered (fun r => [r]) lsn (sendRecord cipherSuite shouldEncrypt lsn h content) := by
  have hdrawn := drawn_bump hlen
  rw [sendRecord]
  simp only
  split
  · exact ⟨_, hdrawn, by simp, by simp⟩
  · next hmax =>
      have hs : ({ h with sequenceNumber := numberAt lsn h.epoch.toNat } :
          RecordLayerHeader).sequenceNumber ≤ maxSequenceNumber := by simpa using hmax
      split
      · exact ⟨_, hdrawn, by simp, by simp⟩
      · exact ⟨_, hdrawn, by simp, by simp⟩
      · next bytes content hbytes =>
          obtain ⟨-, rfl⟩ := RecordLayerHeader.marshal_eq_ok.mp hbytes
          have hnumber := recordNumber_bytes content hs
          split
          · next suite =>
              refine ⟨_, hdrawn, by simp [RecordLayerHeader.number], fun r hr => ?_⟩
              have hkeep := recordNumber_congr (hsuite suite rfl _ _ r hr)
              simp [hkeep, hnumber, RecordLayerHeader.number]
          · refine ⟨_, hdrawn, by simp, fun r hr => ?_⟩
            obtain rfl := Except.ok.inj hr
            simp [hnumber, RecordLayerHeader.number]

theorem lsn_sendRecord {h : RecordLayerHeader} {content : Result (List UInt8)} :
    (sendRecord cipherSuite shouldEncrypt lsn h content).lsn = bump lsn h.epoch.toNat := by
  rw [sendRecord]
  simp only
  repeat' split
  all_goals rfl

theorem numbered_processPacket (lsn : List Nat) (codec : MessageCodec M)
    (hsuite : ∀ suite ∈ cipherSuite, suite.KeepsHeader) (p : Packet M) :
    Numbered (fun r => [r]) lsn (processPacket codec cipherSuite lsn p) := by
  obtain ⟨ks, hdrawn, hrest⟩ := (numbered_sendRecord p.shouldEncrypt (p.record.content.marshal codec)
    hsuite (lt_length_grow lsn p.record.recordLayerHeader.epoch.toNat)).exists_drawn
  exact ⟨ks, hdrawn.of_grow, hrest⟩

theorem numbered_sendFragments (shouldEncrypt : Bool)
    (hsuite : ∀ suite ∈ cipherSuite, suite.KeepsHeader)
    {h : RecordLayerHeader} (fragments : List (List UInt8)) (hlen : h.epoch.toNat < lsn.length) :
    Numbered id lsn (sendFragments cipherSuite shouldEncrypt h lsn fragments) := by
  induction fragments generalizing lsn with
  | nil =>
      refine ⟨[], drawn_nil fun _ => Nat.le_refl _, by simp [sendFragments], fun a ha => ?_⟩
      obtain rfl := Except.ok.inj ha
      exact List.Sublist.refl _
  | cons fragment fragments ih =>
      set header := ({ h with contentLen := UInt16.ofNat fragment.length } : RecordLayerHeader)
      set first := sendRecord cipherSuite shouldEncrypt lsn header (.ok fragment) with hfirst
      obtain ⟨ks, hdrawn, hhanded, hmade⟩ : Numbered (fun r => [r]) lsn first :=
        numbered_sendRecord shouldEncrypt _ (h := header) hsuite hlen
      rw [sendFragments]
      simp only
      split
      · exact ⟨ks, hdrawn, hhanded, by simp⟩
      · next rawPacket hraw =>
          have hlen' : h.epoch.toNat < first.lsn.length := by
            rw [hfirst, lsn_sendRecord, length_bump]
            exact hlen
          obtain ⟨ks', hdrawn', hhanded', hmade'⟩ := ih hlen'
          refine ⟨ks ++ ks', hdrawn.append hdrawn', ?_, ?_⟩
          · rw [List.map_append]
            exact hhanded.append hhanded'
          · intro raws hraws
            obtain ⟨rest, hrest, rfl⟩ : ∃ rest,
                (sendFragments cipherSuite shouldEncrypt h first.lsn fragments).result = .ok rest ∧
                  rawPacket :: rest = raws := by
              cases hres : (sendFragments cipherSuite shouldEncrypt h first.lsn fragments).result with
              | error e => rw [hres] at hraws; cases hraws
              | ok rest => rw [hres] at hraws; exact ⟨rest, rfl, Except.ok.inj hraws⟩
            exact (hmade rawPacket hraw).append (hmade' rest hrest)

theorem numbered_sendPacket (hsuite : ∀ suite ∈ cipherSuite, suite.KeepsHeader) (p : Packet M) :
    Numbered id lsn (sendPacket codec cipherSuite isClient mtu lsn cache p).2 := by
  have hfail (e : Stop Error) : Numbered id lsn (⟨lsn, [], .error e⟩ : Sent (List (List UInt8))) :=
    ⟨[], drawn_nil fun _ => Nat.le_refl _, by simp, by simp⟩
  have hplain : Numbered id lsn (⟨(processPacket codec cipherSuite lsn p).lsn,
      (processPacket codec cipherSuite lsn p).handed,
      (processPacket codec cipherSuite lsn p).result.map fun rawPacket => [rawPacket]⟩ :
      Sent (List (List UInt8))) := by
    obtain ⟨ks, hdrawn, hhanded, hmade⟩ := numbered_processPacket lsn codec hsuite p
    refine ⟨ks, hdrawn, hhanded, fun raws hraws => ?_⟩
    cases hres : (processPacket codec cipherSuite lsn p).result with
    | error e => simp only [hres] at hraws; cases hraws
    | ok r =>
        simp only [hres] at hraws
        obtain rfl := Except.ok.inj hraws
        exact hmade r hres
  rw [sendPacket]
  split
  · next h _ =>
      split
      · exact hfail _
      · simp only [processHandshakePacket]
        split
        · exact hfail _
        · next fragments _ =>
            obtain ⟨ks, hdrawn, hrest⟩ := (numbered_sendFragments p.shouldEncrypt hsuite fragments
              (lt_length_grow lsn
                p.record.recordLayerHeader.epoch.toNat)).exists_drawn
            exact ⟨ks, hdrawn.of_grow, hrest⟩
  all_goals exact hplain

theorem numbered_sendPackets (codec : MessageCodec M) (isClient : Bool) (mtu : Nat)
    (lsn : List Nat) (cache : HandshakeCache)
    (hsuite : ∀ suite ∈ cipherSuite, suite.KeepsHeader) (pkts : List (Packet M)) :
    Numbered id lsn (sendPackets codec cipherSuite isClient mtu lsn cache pkts).2 := by
  induction pkts generalizing lsn cache with
  | nil =>
      refine ⟨[], drawn_nil fun _ => Nat.le_refl _, by simp [sendPackets], fun a ha => ?_⟩
      obtain rfl := Except.ok.inj ha
      exact List.Sublist.refl _
  | cons p pkts ih =>
      set first := sendPacket codec cipherSuite isClient mtu lsn cache p with hfirst
      obtain ⟨ks, hdrawn, hhanded, hmade⟩ : Numbered id lsn first.2 := numbered_sendPacket hsuite p
      rw [sendPackets]
      simp only [← hfirst]
      split
      · exact ⟨ks, hdrawn, hhanded, by simp⟩
      · next raws hraws =>
          obtain ⟨ks', hdrawn', hhanded', hmade'⟩ := ih first.2.lsn first.1
          refine ⟨ks ++ ks', hdrawn.append hdrawn', ?_, ?_⟩
          · rw [List.map_append]
            exact hhanded.append hhanded'
          · intro all hall
            obtain ⟨rest, hrest, rfl⟩ : ∃ rest, (sendPackets codec cipherSuite isClient mtu
                first.2.lsn first.1 pkts).2.result = .ok rest ∧ raws ++ rest = all := by
              cases hres : (sendPackets codec cipherSuite isClient mtu first.2.lsn first.1
                pkts).2.result with
              | error e => rw [hres] at hall; cases hall
              | ok rest => rw [hres] at hall; exact ⟨rest, rfl, Except.ok.inj hall⟩
            show ((raws ++ rest).map recordNumber).Sublist _
            rw [List.map_append]
            exact (hmade raws hraws).append (hmade' rest hrest)

end

/-! ## A connection's life -/

/-- The sending half over the life of a connection: its state, what it gave to the cipher
suite, the records it made and the datagrams it gave to the connection below. -/
structure Sender where
  localSequenceNumber : List Nat
  cache : HandshakeCache
  handed : List (RecordLayerHeader × List UInt8)
  records : List (List UInt8)
  datagrams : List (List UInt8)
deriving DecidableEq, Repr

/-- What an outcome made: nothing when it failed. -/
def Sent.made {α : Type} (sent : Sent (List α)) : List α :=
  match sent.result with
  | .ok as => as
  | .error _ => []

/-- A call of `handle_outgoing_packets`. -/
structure Call (M : Type) where
  cipherSuite : Option CipherSuite
  pkts : List (Packet M)

namespace Sender

def new : Sender := ⟨[], [], [], [], []⟩

def call (codec : MessageCodec M) (isClient : Bool) (mtu : Nat) (s : Sender) (c : Call M) : Sender :=
  let packets := sendPackets codec c.cipherSuite isClient mtu s.localSequenceNumber s.cache c.pkts
  let outgoing := handleOutgoingPackets codec c.cipherSuite isClient mtu s.localSequenceNumber
    s.cache c.pkts
  { localSequenceNumber := outgoing.2.lsn
    cache := outgoing.1
    handed := s.handed ++ outgoing.2.handed
    records := s.records ++ packets.2.made
    datagrams := s.datagrams ++ outgoing.2.made }

def machine (codec : MessageCodec M) (isClient : Bool) (mtu : Nat) : Machine Sender (Call M) where
  step s c := some (s.call codec isClient mtu c)

/-- Numbers drawn in this order cover the records and what was encrypted. -/
def Covered (s : Sender) : Prop :=
  ∃ ks, Drawn [] ks s.localSequenceNumber ∧ (s.handed.map fun x => x.1.number).Sublist ks ∧
    (s.records.map recordNumber).Sublist ks

theorem Covered.call {codec : MessageCodec M} {isClient : Bool} {mtu : Nat} {s : Sender}
    {c : Call M} (h : s.Covered) (hsuite : ∀ suite ∈ c.cipherSuite, suite.KeepsHeader) :
    (s.call codec isClient mtu c).Covered := by
  obtain ⟨ks, hdrawn, hhanded, hrecords⟩ := h
  obtain ⟨ks', hdrawn', hhanded', hmade⟩ := numbered_sendPackets codec isClient mtu
    s.localSequenceNumber s.cache hsuite c.pkts
  refine ⟨ks ++ ks', hdrawn.append hdrawn', ?_, ?_⟩
  · show ((s.handed ++ _).map _).Sublist _
    rw [List.map_append]
    exact hhanded.append hhanded'
  · show ((s.records ++ _).map _).Sublist _
    rw [List.map_append]
    refine hrecords.append ?_
    rw [Sent.made]
    split
    · next raws hraws => exact hmade raws hraws
    · exact List.nil_sublist _

theorem covered_of_run {codec : MessageCodec M} {isClient : Bool} {mtu : Nat}
    {calls : List (Call M)} {s : Sender} (hrun : (machine codec isClient mtu).Run new calls s)
    (hsuite : ∀ c ∈ calls, ∀ suite ∈ c.cipherSuite, suite.KeepsHeader) : s.Covered := by
  refine hrun.rec_snoc (P := fun calls s =>
    (∀ c ∈ calls, ∀ suite ∈ c.cipherSuite, suite.KeepsHeader) → s.Covered) ?_ ?_ hsuite
  · exact fun _ => ⟨[], drawn_nil fun _ => Nat.le_refl _, List.Sublist.refl _, List.Sublist.refl _⟩
  · intro calls c s s' _ ih hstep hsuite
    obtain rfl := Option.some.inj hstep
    exact (ih fun c hc => hsuite c (List.mem_append_left _ hc)).call
      (hsuite c (List.mem_append_right _ (List.mem_singleton.mpr rfl)))

/-- **No number is used twice**: whatever is sent, in whatever calls, and whichever of them
fail, the records of a connection have increasing numbers in each epoch, and so has what is
given to the cipher suite. -/
theorem numbers_increasing {codec : MessageCodec M} {isClient : Bool} {mtu : Nat}
    {calls : List (Call M)} {s : Sender} (hrun : (machine codec isClient mtu).Run new calls s)
    (hsuite : ∀ c ∈ calls, ∀ suite ∈ c.cipherSuite, suite.KeepsHeader) :
    ((s.records.map recordNumber).Pairwise fun k k' => k.1 = k'.1 → k.2 < k'.2) ∧
      (s.handed.map fun x => x.1.number).Pairwise fun k k' => k.1 = k'.1 → k.2 < k'.2 := by
  obtain ⟨ks, hdrawn, hhanded, hrecords⟩ := covered_of_run hrun hsuite
  exact ⟨hdrawn.increasing.sublist hrecords, hdrawn.increasing.sublist hhanded⟩

/-! ## Two flights -/

/-- A `Finished`, as message number `seq`. -/
def finishedPacket (seq : UInt16) (verifyData : List UInt8) (epoch : UInt16) : Packet (List UInt8) :=
  ⟨⟨⟨.handshake, protocolVersion12, epoch, 0, UInt16.ofNat (12 + verifyData.length)⟩,
    .handshake ⟨⟨.finished, verifyData.length, seq, 0, verifyData.length⟩, verifyData⟩⟩, epoch ≠ 0⟩

def changePacket : Packet (List UInt8) :=
  ⟨⟨⟨.changeCipherSpec, protocolVersion12, 0, 0, 1⟩, .changeCipherSpec⟩, false⟩

def dataPacket (data : List UInt8) : Packet (List UInt8) :=
  ⟨⟨⟨.applicationData, protocolVersion12, 1, 0, UInt16.ofNat data.length⟩, .applicationData data⟩,
    true⟩

/-- A message that is split, then a change of the cipher and data under the keys. -/
theorem numbers_increasing_flights : ∃ s : Sender,
    (machine handshakeMessageFinished true 2).Run new
      [⟨none, [finishedPacket 0 [1, 2, 3] 0]⟩, ⟨some zeroSuite, [changePacket, dataPacket [104, 105]]⟩] s ∧
    s.records.map recordNumber = [(0, 0), (0, 1), (0, 2), (1, 0)] ∧
    ((s.records.map recordNumber).Pairwise fun k k' => k.1 = k'.1 → k.2 < k'.2) ∧
      (s.handed.map fun x => x.1.number).Pairwise fun k k' => k.1 = k'.1 → k.2 < k'.2 := by
  obtain ⟨s, hrun, hnumbers⟩ := (machine handshakeMessageFinished true 2).exists_run new
    [⟨none, [finishedPacket 0 [1, 2, 3] 0]⟩, ⟨some zeroSuite, [changePacket, dataPacket [104, 105]]⟩]
    (fun s => s.records.map recordNumber = [(0, 0), (0, 1), (0, 2), (1, 0)]) (by decide +kernel)
  refine ⟨s, hrun, by simpa using hnumbers, numbers_increasing hrun fun c hc suite hsuite => ?_⟩
  obtain rfl : suite = zeroSuite := by
    simp only [List.mem_cons, List.not_mem_nil, or_false] at hc
    rcases hc with rfl | rfl
    · cases hsuite
    · exact (Option.some.inj hsuite).symm
  exact keepsHeader_aes128GcmSha256 _ _

end Sender

end RemoteBridge.Dtls
