import Mathlib.Data.List.Perm.Subperm
import RemoteBridge.Dtls.Link

/-!
# Dtls.Link.Data

What `read` gives at one end was written at the other, each piece at most as often as it was
written, whatever the network does.
-/

namespace RemoteBridge.Dtls

open Wire Bytes

variable {D M : Type}

/-! ## Assumptions -/

/-- A cipher suite that has keys opens records with these. -/
def Keyed (gcm : CryptoGcm) (cipherSuite : Option CipherSuite) : Prop :=
  ∀ suite ∈ cipherSuite, suite.isInitialized = true → suite.decrypt = gcm.decrypt

/-- Nobody but the sender makes what opens: when a packet opens under its additional data, the
sender sealed this under these data. -/
def Genuine (gcm : CryptoGcm) (handed : List (RecordLayerHeader × List UInt8))
    (pkt : List UInt8) : Prop :=
  ∀ h tail buffer, RecordLayerHeader.unmarshal pkt = .ok (h, tail) →
    gcm.openRecord h pkt = some buffer →
    ∃ x ∈ handed, CryptoGcm.recordAdditionalData h pkt =
      generateAeadAdditionalData x.1 (x.2.drop recordLayerHeaderSize).length ∧
      buffer = x.2.drop recordLayerHeaderSize

theorem Genuine.append {gcm : CryptoGcm} {handed handed' : List (RecordLayerHeader × List UInt8)}
    {pkt : List UInt8} (h : Genuine gcm handed pkt) : Genuine gcm (handed ++ handed') pkt := by
  intro rh tail buffer hread hopen
  obtain ⟨x, hx, heq⟩ := h rh tail buffer hread hopen
  exact ⟨x, List.mem_append_left _ hx, heq⟩

instance decidableGenuine (gcm : CryptoGcm) (handed : List (RecordLayerHeader × List UInt8))
    (pkt : List UInt8) : Decidable (Genuine gcm handed pkt) :=
  match hread : RecordLayerHeader.unmarshal pkt with
  | .error _ => isTrue fun h tail _ hok => by rw [hread] at hok; cases hok
  | .ok (h, tail) =>
      match hopen : gcm.openRecord h pkt with
      | none => isTrue fun h' tail' buffer hok hsome => by
          obtain ⟨rfl, -⟩ := Prod.mk.inj (Except.ok.inj (hread.symm.trans hok))
          rw [hopen] at hsome
          cases hsome
      | some buffer =>
          decidable_of_iff (∃ x ∈ handed, CryptoGcm.recordAdditionalData h pkt =
              generateAeadAdditionalData x.1 (x.2.drop recordLayerHeaderSize).length ∧
              buffer = x.2.drop recordLayerHeaderSize) <| by
            constructor
            · intro hsealed h' tail' buffer' hok hsome
              obtain ⟨rfl, -⟩ := Prod.mk.inj (Except.ok.inj (hread.symm.trans hok))
              obtain rfl := Option.some.inj (hopen.symm.trans hsome)
              exact hsealed
            · exact fun hgenuine => hgenuine h tail buffer hread hopen

/-- What is taken for granted of a step: packets come from `RecordLayer::new`, the keys are
those of the connection, and nobody forges. -/
def Link.Assumed (gcm : CryptoGcm) (s : Link D M) : Link.Event M → Prop
  | .call c => ∀ p ∈ c.pkts, p.Typed
  | .datagram d => (∀ env ∈ d.env :: d.requests, Keyed gcm env.cipherSuite) ∧
      ∀ pkts, unpackDatagram d.buf = .ok pkts → ∀ pkt ∈ pkts, Genuine gcm s.sender.handed pkt
  | .own _ => True

/-! ## Deliveries -/

/-- The data came from what the sender gave to its cipher suite. -/
def Sealed (handed : List (RecordLayerHeader × List UInt8)) (d : Delivery) : Prop :=
  ∃ x ∈ handed, x.1.contentType = .applicationData ∧ x.1.epoch = d.epoch ∧
    x.1.sequenceNumber = d.sequenceNumber ∧ x.2.drop recordLayerHeaderSize = d.data

/-- All that was delivered was sealed, and what waits for the keys is genuine. -/
structure Authentic (gcm : CryptoGcm) (handed : List (RecordLayerHeader × List UInt8))
    (ctx : ReaderContext D M) : Prop where
  delivered : ∀ d ∈ ctx.decryptedTx, Sealed handed d
  queued : ∀ pkt ∈ ctx.encryptedPackets, Genuine gcm handed pkt

namespace Authentic

section

variable {gcm : CryptoGcm} {handed handed' : List (RecordLayerHeader × List UInt8)}
  {ctx ctx' : ReaderContext D M} {setup : Reader.Setup D M} {cipherSuite : Option CipherSuite}
  {pkt : List UInt8} {out : Handled} {h : RecordLayerHeader}

theorem append (hctx : Authentic gcm handed ctx) : Authentic gcm (handed ++ handed') ctx where
  delivered d hd := by
    obtain ⟨x, hx, heq⟩ := hctx.delivered d hd
    exact ⟨x, List.mem_append_left _ hx, heq⟩
  queued pkt hpkt := (hctx.queued pkt hpkt).append

theorem of_eq (hctx : Authentic gcm handed ctx) (htx : ctx'.decryptedTx = ctx.decryptedTx)
    (hqueue : ctx'.encryptedPackets = ctx.encryptedPackets) : Authentic gcm handed ctx' where
  delivered d hd := hctx.delivered d (htx ▸ hd)
  queued p hp := hctx.queued p (hqueue ▸ hp)

theorem queue (hctx : Authentic gcm handed ctx) (hpkt : Genuine gcm handed pkt)
    (htx : ctx'.decryptedTx = ctx.decryptedTx)
    (hqueue : ctx'.encryptedPackets = ctx.encryptedPackets ++ [pkt]) :
    Authentic gcm handed ctx' where
  delivered d hd := hctx.delivered d (htx ▸ hd)
  queued p hp := by
    rw [hqueue] at hp
    rcases List.mem_append.mp hp with hp | hp
    · exact hctx.queued p hp
    · exact List.mem_singleton.mp hp ▸ hpkt

/-- A record that opened with the keys and holds application data was sealed as such. -/
theorem sealed_of_opened (hsmall : ∀ x ∈ handed, x.1.sequenceNumber ≤ maxSequenceNumber)
    (hsuite : Keyed gcm cipherSuite) (hpkt : Genuine gcm handed pkt)
    (hread : ∃ tail, RecordLayerHeader.unmarshal pkt = .ok (h, tail)) {plain data tail : List UInt8}
    {rh : RecordLayerHeader} (hopened : Opened cipherSuite h pkt plain) (hne : h.epoch ≠ 0)
    (hdata : RecordLayer.unmarshal setup.codec plain = .ok (⟨rh, .applicationData data⟩, tail)) :
    Sealed handed ⟨h.epoch, h.sequenceNumber, data⟩ := by
  have hheader := RecordLayer.applicationData_of_unmarshal hdata
  have htype : ContentType.applicationData = rh.contentType :=
    (RecordLayer.contentType_of_unmarshal hdata).2
  obtain ⟨rest, hread⟩ := hread
  cases hopened with
  | plain hzero => exact absurd hzero hne
  | @keys suite plain _ hsome hinit hdecrypt =>
      rw [hsuite suite hsome hinit] at hdecrypt
      obtain ⟨rh', ⟨rest', hread'⟩, hcase⟩ := CryptoGcm.decrypt_eq_ok hdecrypt
      obtain ⟨rfl, rfl⟩ := Prod.mk.inj (Except.ok.inj (hread.symm.trans hread'))
      rcases hcase with ⟨hccs, rfl⟩ | ⟨buffer, -, hopen, rfl⟩
      · -- a change of the cipher holds no application data
        obtain ⟨rfl, -⟩ := Prod.mk.inj (Except.ok.inj (hread.symm.trans hheader))
        rw [hccs] at htype
        cases htype
      · obtain ⟨hlen, -, hreads⟩ := RecordLayerHeader.takes_unmarshal _ _ _ hread
        obtain ⟨rfl, rfl⟩ := Prod.mk.inj (Except.ok.inj ((hreads buffer).symm.trans hheader))
        obtain ⟨x, hx, hadditional, rfl⟩ := hpkt h rest buffer hread hopen
        have hmax := (RecordLayerHeader.gives_unmarshal _ _ _ hread).2
        obtain ⟨hepoch, hnumber, hcontent⟩ := additionalData_inj hmax (hsmall x hx) hadditional
        exact ⟨x, hx, hcontent ▸ htype.symm, hepoch.symm, hnumber.symm, rfl⟩

theorem handles (hsmall : ∀ x ∈ handed, x.1.sequenceNumber ≤ maxSequenceNumber)
    (hsuite : Keyed gcm cipherSuite) (hpkt : Genuine gcm handed pkt)
    (hctx : Authentic gcm handed ctx) (hstep : Reader.Handles setup cipherSuite ctx pkt ctx' out) :
    Authentic gcm handed ctx' := by
  cases hstep with
  | ignored => exact hctx
  | early => exact hctx.queue hpkt rfl rfl
  | late => exact hctx.queue hpkt rfl rfl
  | dropped => exact hctx.of_eq rfl rfl
  | broken => exact hctx.of_eq rfl rfl
  | handshake => exact hctx.of_eq rfl rfl
  | alert => exact hctx.of_eq rfl rfl
  | changeCipherSpec => exact hctx.of_eq rfl rfl
  | applicationData hfresh hopened hne hdata =>
      refine ⟨fun d hd => ?_, hctx.queued⟩
      rcases List.mem_append.mp hd with hd | hd
      · exact hctx.delivered d hd
      · obtain rfl := List.mem_singleton.mp hd
        exact sealed_of_opened hsmall hsuite hpkt hfresh.read hopened hne hdata

theorem kept (hsmall : ∀ x ∈ handed, x.1.sequenceNumber ≤ maxSequenceNumber) :
    Reader.Kept setup (Keyed gcm) (Genuine gcm handed) (Authentic gcm handed)
      (Authentic gcm handed) :=
  .of_handles (fun hsuite hpkt hctx hstep => hctx.handles hsmall hsuite hpkt hstep)
    (fun _ hctx => hctx.of_eq rfl rfl) (fun hctx => hctx.queued)
    fun hctx => ⟨hctx.delivered, fun _ hp => absurd hp List.not_mem_nil⟩

end

end Authentic

/-! ## Runs -/

namespace Link

/-- The application data the sender was given. -/
def written (es : List (Event M)) : List (List UInt8) :=
  es.flatMap fun
    | .call c => c.pkts.filterMap Packet.data
    | _ => []

/-- What comes to the reader, if the event is that. -/
def Event.datagram? : Event M → Option Reader.Datagram
  | .datagram d => some d
  | _ => none

/-- What holds between the two ends. -/
structure Faithful (setup : Reader.Setup D M) (gcm : CryptoGcm) (Seen : D → Nat → Prop)
    (data : List (List UInt8)) (s : Link D M) : Prop where
  seals : Seals s.sender.handed data
  authentic : Authentic gcm s.sender.handed s.reader.ctx
  once : Reader.Once setup Seen s.reader.ctx

section

variable {setup : Reader.Setup D M} {gcm : CryptoGcm} {Seen : D → Nat → Prop} {mtu : Nat}
  {es : List (Event M)} {e : Event M} {s s' : Link D M}

theorem Faithful.step (hlaw : setup.detector.Lawful Seen)
    (hs : Faithful setup gcm Seen (written es) s) (hassumed : Assumed gcm s e)
    (hstep : Step setup mtu s e s') : Faithful setup gcm Seen (written (es ++ [e])) s' := by
  have hwritten : written (es ++ [e]) = written es ++ written [e] := by
    rw [written, List.flatMap_append]
    rfl
  cases hstep with
  | call c =>
      have hseals : Seals (sendPackets setup.codec c.cipherSuite (!setup.isClient) mtu
          s.sender.localSequenceNumber s.sender.cache c.pkts).2.handed
          (c.pkts.filterMap Packet.data) := seals_sendPackets hassumed
      refine ⟨?_, hs.authentic.append, hs.once⟩
      rw [hwritten]
      refine hs.seals.append ?_
      rw [written, List.flatMap_singleton]
      exact hseals
  | @datagram d reader hreader =>
      obtain ⟨hsuites, hgenuine⟩ := hassumed
      obtain ⟨-, hctx, -⟩ := Reader.of_step hreader
      refine ⟨?_, ?_, ?_⟩
      · simpa [hwritten, written] using hs.seals
      · show Authentic gcm s.sender.handed reader.ctx
        rw [hctx]
        exact ((Authentic.kept hs.seals.small).readAndBuffer hsuites hgenuine hs.authentic).1
      · show Reader.Once setup Seen reader.ctx
        rw [hctx]
        exact ((Reader.kept_once hlaw).readAndBuffer (fun _ _ => trivial)
          (fun _ _ _ _ => trivial) hs.once).1
  | own =>
      refine ⟨?_, hs.authentic.of_eq rfl rfl, hs.once.of_seen rfl fun _ _ hseen => hseen⟩
      simpa [hwritten, written] using hs.seals

theorem faithful_of_run (hlaw : setup.detector.Lawful Seen)
    (hrun : (machine setup mtu).Run new es s)
    (hassumed : (machine setup mtu).Along new es (Assumed gcm)) :
    Faithful setup gcm Seen (written es) s := by
  refine hrun.rec_snoc (P := fun es s => (machine setup mtu).Along new es (Assumed gcm) →
    Faithful setup gcm Seen (written es) s) ?_ ?_ hassumed
  · refine fun _ => ⟨seals_nil, ⟨fun d hd => ?_, fun p hp => ?_⟩, Reader.once_new⟩
    · exact absurd hd List.not_mem_nil
    · exact absurd hp List.not_mem_nil
  · intro es e s s' hs ih hstep hassumed
    obtain ⟨hes, he⟩ := (Machine.along_snoc hs).mp hassumed
    exact (ih hes).step hlaw he (Step.of_step hstep)

/-- **What is read was written**: with a network that changes, repeats, forges and withholds
whatever it likes, the data that `read` gets are among those that were written, and each piece
comes at most as often as it was written. -/
theorem read_subperm_written (hlaw : setup.detector.Lawful Seen)
    (hrun : (machine setup mtu).Run new es s)
    (hassumed : (machine setup mtu).Along new es (Assumed gcm)) :
    List.Subperm (s.reader.ctx.decryptedTx.map Delivery.data) (written es) := by
  obtain ⟨hseals, hauthentic, honce⟩ := faithful_of_run hlaw hrun hassumed
  set tagged := (s.sender.handed.filter fun x => x.1.contentType = .applicationData).map
    fun x => ((x.1.epoch, x.1.sequenceNumber), x.2.drop recordLayerHeaderSize) with htagged
  -- deliveries with their numbers are different, and each was sealed under its number
  have hnodup : (s.reader.ctx.decryptedTx.map fun d =>
      (Reader.deliveryNumber d, d.data)).Nodup := by
    refine List.Nodup.of_map Prod.fst ?_
    rw [List.map_map]
    exact honce.nodup
  have hsubset : s.reader.ctx.decryptedTx.map (fun d => (Reader.deliveryNumber d, d.data)) ⊆
      tagged := by
    intro y hy
    obtain ⟨d, hd, rfl⟩ := List.mem_map.mp hy
    obtain ⟨x, hx, htype, hepoch, hnumber, hdata⟩ := hauthentic.delivered d hd
    refine List.mem_map.mpr ⟨x, List.mem_filter.mpr ⟨hx, by simpa using htype⟩, ?_⟩
    rw [hepoch, hnumber, hdata]
    rfl
  obtain ⟨l, hperm, hsublist⟩ := List.subperm_of_subset hnodup hsubset
  have hdata := hperm.map Prod.snd
  have hsealed := hsublist.map Prod.snd
  rw [List.map_map] at hdata
  rw [htagged, List.map_map] at hsealed
  exact ⟨l.map Prod.snd, hdata, hsealed.trans hseals.sublist⟩

end

/-- Data are sent after a change of the cipher, and both come twice. -/
def repeated : List (Event (List UInt8)) :=
  [.call ⟨some zeroSuite, [Sender.changePacket, Sender.dataPacket [104, 105]]⟩,
    .datagram ⟨Reader.keyed, [], Reader.changeAndData⟩,
    .datagram ⟨Reader.keyed, [], Reader.changeAndData⟩]

theorem keyed_zeroKeys : Keyed CryptoGcm.zeroKeys Reader.keyed.cipherSuite := by
  intro suite hsuite _
  obtain rfl := Option.some.inj hsuite
  rfl

theorem assumed_repeated :
    (machine Reader.windowed 100).Along new repeated (Assumed CryptoGcm.zeroKeys) := by
  have hgenuine : (machine Reader.windowed 100).Along new repeated fun s e =>
      ∀ d ∈ e.datagram?, ∀ pkts ∈ (unpackDatagram d.buf).toOption, ∀ pkt ∈ pkts,
        Genuine CryptoGcm.zeroKeys s.sender.handed pkt := by decide +kernel
  intro es₁ e es₂ s heq hrun
  have he : e ∈ repeated := heq ▸ List.mem_append_right _ (List.mem_cons_self ..)
  cases e with
  | call c =>
      obtain rfl : c = ⟨some zeroSuite, [Sender.changePacket, Sender.dataPacket [104, 105]]⟩ := by
        simpa [repeated] using he
      simp [Assumed, Packet.Typed, Sender.changePacket, Sender.dataPacket, Content.contentType]
  | datagram d =>
      obtain rfl : d = ⟨Reader.keyed, [], Reader.changeAndData⟩ := by simpa [repeated] using he
      refine ⟨by simpa using keyed_zeroKeys, fun pkts hpkts => ?_⟩
      exact hgenuine es₁ _ es₂ s heq hrun _ rfl pkts (by rw [hpkts]; rfl)
  | own => trivial

theorem read_subperm_written_repeated : ∃ s : Link SlidingWindow (List UInt8),
    (machine Reader.windowed 100).Run new repeated s ∧
    s.reader.ctx.decryptedTx.map Delivery.data = [[104, 105]] ∧
    List.Subperm (s.reader.ctx.decryptedTx.map Delivery.data) (written repeated) := by
  obtain ⟨s, hrun, hdata⟩ := (machine Reader.windowed 100).exists_run new repeated
    (fun s => s.reader.ctx.decryptedTx.map Delivery.data = [[104, 105]]) (by decide +kernel)
  exact ⟨s, hrun, by simpa using hdata,
    read_subperm_written lawful_slidingWindow hrun assumed_repeated⟩

end Link

end RemoteBridge.Dtls
