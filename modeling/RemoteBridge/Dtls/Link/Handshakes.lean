import RemoteBridge.Dtls.Link.Records

/-!
# Dtls.Link.Handshakes

Over a network that loses, repeats and reorders datagrams, the handshake of one end finds in
its cache the messages of the other, from the first one on and in order.
-/

namespace RemoteBridge.Dtls

open Wire Bytes Reassembly

variable {D M : Type}

/-! ## The cache -/

section

variable {setup : Reader.Setup D M}

/-- The messages of the other side. -/
def remoteItems (setup : Reader.Setup D M) (cache : HandshakeCache) : List HandshakeCacheItem :=
  cache.filter fun item => item.isClient = !setup.isClient

/-- What the cache keeps of a message that was put together: nothing if it cannot be parsed. -/
def itemOf (setup : Reader.Setup D M) (out : List UInt8 × UInt16) : Option HandshakeCacheItem :=
  match Handshake.unmarshal setup.codec out.1 with
  | .ok (rawHandshake, _) => some ⟨rawHandshake.handshakeHeader.handshakeType, !setup.isClient,
      out.2, rawHandshake.handshakeHeader.messageSequence, out.1⟩
  | .error _ => none

theorem of_cacheMessage {cache cache' : HandshakeCache} {out : List UInt8 × UInt16}
    (h : Reader.cacheMessage setup cache out = .ok cache') :
    cache' = match itemOf setup out with
      | some item => cache.push item
      | none => cache := by
  rw [Reader.cacheMessage] at h
  rw [itemOf]
  split at h
  · next hread =>
      rw [hread]
      exact (Except.ok.inj h).symm
  · cases h
  · next hread =>
      rw [hread]
      exact (Except.ok.inj h).symm

/-- A message of the own side. -/
theorem remoteItems_push_own {cache : HandshakeCache} {item : HandshakeCacheItem}
    (hitem : item.isClient = setup.isClient) :
    remoteItems setup (cache.push item) = remoteItems setup cache := by
  rw [HandshakeCache.push]
  split
  · rfl
  · rw [remoteItems, List.filter_append, List.filter_singleton]
    simp [remoteItems, hitem]

/-- A message of the other side with a new number. -/
theorem remoteItems_push {cache : HandshakeCache} {item : HandshakeCacheItem}
    (hitem : item.isClient = !setup.isClient)
    (hnew : ∀ i ∈ remoteItems setup cache, i.messageSequence ≠ item.messageSequence) :
    remoteItems setup (cache.push item) = remoteItems setup cache ++ [item] := by
  have hnone : ¬ (cache.any fun i =>
      i.messageSequence == item.messageSequence && i.isClient == item.isClient) = true := by
    rw [List.any_eq_true]
    rintro ⟨i, hi, hsame⟩
    rw [Bool.and_eq_true, beq_iff_eq, beq_iff_eq] at hsame
    refine hnew i (List.mem_filter.mpr ⟨hi, ?_⟩) hsame.1
    simpa using hsame.2.trans hitem
  rw [HandshakeCache.push, if_neg hnone, remoteItems, List.filter_append, List.filter_singleton]
  simp [remoteItems, hitem]

end

/-! ## Messages into the cache -/

section

variable {setup : Reader.Setup D M} {mtu : Nat} {msgs : List Msg} {m : Msg} {k j : Nat}
  {cache cache' : HandshakeCache} {item : HandshakeCacheItem}

/-- A whole message has its number in its header. -/
theorem messageSequence_of_itemOf {seq : UInt16} (hlen : m.body.length < 256 ^ 3)
    (h : itemOf setup (m.whole seq) = some item) :
    item.messageSequence = seq ∧ item.isClient = !setup.isClient := by
  have hfits : (m.header seq ⟨0, m.body⟩).Fits := ⟨hlen, by simp [Msg.header], hlen⟩
  have hread := HandshakeHeader.reads_bytes hfits m.body
  rw [itemOf] at h
  split at h
  · next hs tail hunmarshal =>
      obtain rfl := Option.some.inj h
      obtain ⟨header, rest, hheader, hmessage⟩ := bind_eq_ok.mp hunmarshal
      obtain ⟨rfl, rfl⟩ := Prod.mk.inj (Except.ok.inj (hread.symm.trans hheader))
      refine ⟨?_, rfl⟩
      split at hmessage
      · cases hmessage
      · obtain ⟨message, rest, -, hpure⟩ := bind_eq_ok.mp hmessage
        obtain ⟨rfl, -⟩ := Prod.mk.inj (pure_eq_ok.mp hpure)
        rfl
  · cases h

/-- The cache holds, of the other side, what the first `k` messages are parsed to. -/
def Caches (setup : Reader.Setup D M) (msgs : List Msg) (k : Nat) (cache : HandshakeCache) : Prop :=
  remoteItems setup cache = ((wholes msgs).take k).filterMap (itemOf setup)

theorem length_wholes : (wholes msgs).length = msgs.length := by
  rw [wholes, List.length_map, List.length_zipIdx]

/-- Items of the first `k` messages have numbers below `k`. -/
theorem messageSequence_lt (hs : Sendable mtu msgs) (h : Caches setup msgs k cache)
    (hi : item ∈ remoteItems setup cache) :
    ∃ i < k, i < msgs.length ∧ item.messageSequence = UInt16.ofNat i := by
  rw [h] at hi
  obtain ⟨out, hout, hitem⟩ := List.mem_filterMap.mp hi
  obtain ⟨i, hi⟩ := List.mem_iff_getElem?.mp hout
  rw [List.getElem?_take] at hi
  split at hi
  · next hlt =>
      have hlen := (List.getElem?_eq_some_iff.mp hi).1
      rw [length_wholes] at hlen
      have hget := getElem?_wholes (List.getElem?_eq_getElem hlen)
      obtain rfl := Option.some.inj (hget.symm.trans hi)
      exact ⟨i, hlt, hlen, (messageSequence_of_itemOf (hs.short _ (List.getElem_mem hlen)) hitem).1⟩
  · cases hi

/-- The next message goes into the cache. -/
theorem Caches.message (hs : Sendable mtu msgs) (h : Caches setup msgs k cache)
    (hm : msgs[k]? = some m)
    (hcache : Reader.cacheMessage setup cache (m.whole (UInt16.ofNat k)) = .ok cache') :
    Caches setup msgs (k + 1) cache' := by
  have hget := getElem?_wholes hm
  have hk := (List.getElem?_eq_some_iff.mp hm).1
  have hfew := hs.few
  rw [Caches, List.take_add_one, hget, Option.toList_some, List.filterMap_append, ← h,
    of_cacheMessage hcache]
  cases hitem : itemOf setup (m.whole (UInt16.ofNat k)) with
  | none => simp [hitem]
  | some item =>
      obtain ⟨hseq, hside⟩ := messageSequence_of_itemOf (hs.short m (List.mem_of_getElem? hm)) hitem
      have hnew : ∀ i ∈ remoteItems setup cache, i.messageSequence ≠ item.messageSequence := by
        intro i hi heq
        obtain ⟨n, hn, hlen, hnumber⟩ := messageSequence_lt hs h hi
        have := ofNat_inj (by omega) (by omega) (hnumber.symm.trans (heq.trans hseq))
        omega
      simp only
      rw [remoteItems_push hside hnew]
      simp [hitem]

/-- So do all that come out at once, up to a panic. -/
theorem Caches.between (hs : Sendable mtu msgs) (h : Caches setup msgs k cache) (hkj : k ≤ j)
    (hj : j ≤ msgs.length) :
    (∃ n ≤ msgs.length, Caches setup msgs n
      (Reader.cacheMessages setup cache (between msgs k j)).1) ∧
    ((Reader.cacheMessages setup cache (between msgs k j)).2 = none →
      Caches setup msgs j (Reader.cacheMessages setup cache (between msgs k j)).1) := by
  induction hn : j - k generalizing k cache with
  | zero =>
      obtain rfl : k = j := by omega
      have hnone : Dtls.between msgs k k = [] := by simp [Dtls.between]
      rw [hnone]
      exact ⟨⟨k, hj, h⟩, fun _ => h⟩
  | succ n ih =>
      obtain ⟨m, hm⟩ : ∃ m, msgs[k]? = some m :=
        ⟨_, List.getElem?_eq_getElem (show k < msgs.length by omega)⟩
      rw [between_succ hm (by omega), Reader.cacheMessages]
      cases hcache : Reader.cacheMessage setup cache (m.whole (UInt16.ofNat k)) with
      | error e => exact ⟨⟨k, by omega, h⟩, fun hnone => absurd hnone (Option.some_ne_none e)⟩
      | ok cache' => exact ih (h.message hs hm hcache) (by omega) (by omega)

end

/-! ## Packets of the sender -/

section

variable {setup : Reader.Setup D M} {mtu : Nat} {msgs : List Msg} {receiver : CryptoGcm}
  {cipherSuite : Option CipherSuite} {ctx ctx' : ReaderContext D M} {pkt plain : List UInt8}
  {h : RecordLayerHeader} {out : Handled} {fb : FragmentBuffer}

theorem Opened.opens (hsuite : Keyed receiver cipherSuite)
    (hopened : Opened cipherSuite h pkt plain) : Opens receiver h pkt plain := by
  cases hopened with
  | plain hzero => exact .inl ⟨hzero, rfl⟩
  | @keys suite _ hne hsome hinit hdecrypt =>
      rw [hsuite suite hsome hinit] at hdecrypt
      exact .inr ⟨hne, hdecrypt⟩

/-- What a packet opens to has the packet's header. -/
theorem Opens.header (hread : ∃ tail, RecordLayerHeader.unmarshal pkt = .ok (h, tail))
    (hopens : Opens receiver h pkt plain) :
    ∃ tail, RecordLayerHeader.unmarshal plain = .ok (h, tail) := by
  rcases hopens with ⟨-, rfl⟩ | ⟨-, hdecrypt⟩
  · exact hread
  · obtain ⟨tail, hread⟩ := hread
    obtain ⟨rh, ⟨tail', hread'⟩, hcase⟩ := CryptoGcm.decrypt_eq_ok hdecrypt
    obtain ⟨rfl, rfl⟩ := Prod.mk.inj (Except.ok.inj (hread.symm.trans hread'))
    rcases hcase with ⟨-, rfl⟩ | ⟨buffer, -, -, rfl⟩
    · exact ⟨tail, hread⟩
    · obtain ⟨-, -, hreads⟩ := RecordLayerHeader.takes_unmarshal _ _ _ hread
      exact ⟨buffer, hreads buffer⟩

/-- Other records leave the fragments alone. -/
theorem FragmentBuffer.push_of_ne {tail : List UInt8}
    (hread : RecordLayerHeader.unmarshal plain = .ok (h, tail)) (htype : h.contentType ≠ .handshake) :
    (fb.push plain).1 = fb ∧ (fb.push plain).2 ≠ .ok true := by
  rw [push]
  split
  · exact ⟨rfl, by simp⟩
  · rw [hread]
    simp only
    rw [if_pos htype]
    exact ⟨rfl, by simp⟩

/-- The cache holds, of the other side, what some of its first messages are parsed to. -/
def Cached (setup : Reader.Setup D M) (msgs : List Msg) (ctx : ReaderContext D M) : Prop :=
  ∃ k ≤ msgs.length, Caches setup msgs k ctx.cache

/-- The reader while it gets what the sender sends. -/
structure Orderly (setup : Reader.Setup D M) (mtu : Nat) (msgs : List Msg) (receiver : CryptoGcm)
    (ctx : ReaderContext D M) : Prop where
  exists_settled : ∃ got k, Settled mtu msgs got k ctx.fragmentBuffer ∧
    Caches setup msgs k ctx.cache
  queued : ∀ pkt ∈ ctx.encryptedPackets, FromSender mtu msgs receiver pkt

namespace Orderly

theorem of_eq (hctx : Orderly setup mtu msgs receiver ctx)
    (hfb : ctx'.fragmentBuffer = ctx.fragmentBuffer) (hcache : ctx'.cache = ctx.cache)
    (hqueue : ctx'.encryptedPackets = ctx.encryptedPackets) :
    Orderly setup mtu msgs receiver ctx' where
  exists_settled := by
    rw [hfb, hcache]
    exact hctx.exists_settled
  queued p hp := hctx.queued p (hqueue ▸ hp)

theorem queue (hctx : Orderly setup mtu msgs receiver ctx)
    (hpkt : FromSender mtu msgs receiver pkt) (hfb : ctx'.fragmentBuffer = ctx.fragmentBuffer)
    (hcache : ctx'.cache = ctx.cache)
    (hqueue : ctx'.encryptedPackets = ctx.encryptedPackets ++ [pkt]) :
    Orderly setup mtu msgs receiver ctx' where
  exists_settled := by
    rw [hfb, hcache]
    exact hctx.exists_settled
  queued p hp := by
    rw [hqueue] at hp
    rcases List.mem_append.mp hp with hp | hp
    · exact hctx.queued p hp
    · exact List.mem_singleton.mp hp ▸ hpkt

/-- A packet that reaches the fragment buffer: the buffer takes it as `receive` does. -/
theorem receive (hs : Sendable mtu msgs) (hsuite : Keyed receiver cipherSuite)
    (hpkt : FromSender mtu msgs receiver pkt) (hctx : Orderly setup mtu msgs receiver ctx)
    (hread : ∃ tail, RecordLayerHeader.unmarshal pkt = .ok (h, tail))
    (hopened : Opened cipherSuite h pkt plain) :
    ∃ got k, Settled mtu msgs got k (ctx.fragmentBuffer.receive plain).1 ∧
      (∃ n ≤ msgs.length, Caches setup msgs n
        (Reader.cacheMessages setup ctx.cache (ctx.fragmentBuffer.receive plain).2).1) ∧
      ((Reader.cacheMessages setup ctx.cache (ctx.fragmentBuffer.receive plain).2).2 = none →
        Caches setup msgs k
          (Reader.cacheMessages setup ctx.cache (ctx.fragmentBuffer.receive plain).2).1) := by
  obtain ⟨got, k, hsettled, hcaches⟩ := hctx.exists_settled
  have hopens := hopened.opens hsuite
  obtain ⟨rh, tail, hread', hcarried⟩ := hpkt.opens
  obtain ⟨tail', hread⟩ := hread
  obtain ⟨rfl, rfl⟩ := Prod.mk.inj (Except.ok.inj (hread.symm.trans hread'))
  by_cases htype : h.contentType = .handshake
  · obtain ⟨i, q, hr⟩ := hcarried htype plain hopens
    obtain ⟨got', j, hkj, hsettled', houts, -, -⟩ := hsettled.receive hs hr
    refine ⟨got', j, hsettled', ?_⟩
    rw [houts]
    exact hcaches.between hs hkj hsettled'.holds.le
  · obtain ⟨rest, hplain⟩ := hopens.header ⟨tail', hread⟩
    obtain ⟨hfb, hres⟩ := ctx.fragmentBuffer.push_of_ne hplain htype
    have hreceive : ctx.fragmentBuffer.receive plain = (ctx.fragmentBuffer, []) := by
      rw [FragmentBuffer.receive]
      split
      · next hpush => exact absurd (congrArg Prod.snd hpush) hres
      · next hpush =>
          rw [hpush] at hfb
          exact congrArg (·, []) hfb
    rw [hreceive]
    exact ⟨got, k, hsettled, ⟨k, hsettled.holds.le, hcaches⟩, fun _ => hcaches⟩

theorem cached (hctx : Orderly setup mtu msgs receiver ctx) : Cached setup msgs ctx := by
  obtain ⟨got, k, hsettled, hcaches⟩ := hctx.exists_settled
  exact ⟨k, hsettled.holds.le, hcaches⟩

/-- What holds of a packet that leaves the reader orderly. -/
theorem both (hctx : Orderly setup mtu msgs receiver ctx') :
    Cached setup msgs ctx' ∧
      (out.err ≠ some .panicked → Orderly setup mtu msgs receiver ctx') :=
  ⟨hctx.cached, fun _ => hctx⟩

theorem handles (hs : Sendable mtu msgs) (hsuite : Keyed receiver cipherSuite)
    (hpkt : FromSender mtu msgs receiver pkt) (hctx : Orderly setup mtu msgs receiver ctx)
    (hstep : Reader.Handles setup cipherSuite ctx pkt ctx' out) :
    Cached setup msgs ctx' ∧
      (out.err ≠ some .panicked → Orderly setup mtu msgs receiver ctx') := by
  cases hstep with
  | ignored => exact hctx.both
  | early => exact both (hctx.queue hpkt rfl rfl rfl)
  | late => exact both (hctx.queue hpkt rfl rfl rfl)
  | dropped => exact both (hctx.of_eq rfl rfl rfl)
  | @broken h plain fb e hfresh hopened hpush =>
      obtain ⟨got, k, hsettled, -, hcaches⟩ := hctx.receive hs hsuite hpkt hfresh.read hopened
      have hreceive : ctx.fragmentBuffer.receive plain = (fb, []) := by
        rw [FragmentBuffer.receive, hpush]
      rw [hreceive] at hsettled hcaches
      exact both ⟨⟨got, k, hsettled, hcaches rfl⟩, hctx.queued⟩
  | @handshake h plain fb hfresh hopened hpush =>
      obtain ⟨got, k, hsettled, hcached, hcaches⟩ :=
        hctx.receive hs hsuite hpkt hfresh.read hopened
      have hreceive : ctx.fragmentBuffer.receive plain = fb.popAll := by
        rw [FragmentBuffer.receive, hpush]
      rw [hreceive] at hsettled hcached hcaches
      refine ⟨hcached, fun herr => ⟨⟨got, k, hsettled, hcaches ?_⟩, hctx.queued⟩⟩
      exact Reader.cacheMessages_eq_none herr
  | alert => exact both (hctx.of_eq rfl rfl rfl)
  | changeCipherSpec => exact both (hctx.of_eq rfl rfl rfl)
  | applicationData => exact both (hctx.of_eq rfl rfl rfl)

theorem kept (hs : Sendable mtu msgs) :
    Reader.Kept setup (Keyed receiver) (FromSender mtu msgs receiver)
      (Orderly setup mtu msgs receiver) (Cached setup msgs) where
  handles hsuite hpkt hctx hstep := hctx.handles hs hsuite hpkt hstep
  weaken hctx := hctx.cached
  packetTx _ hctx := hctx.of_eq rfl rfl rfl
  exited _ hcached := hcached
  queued hctx := hctx.queued
  drained hctx := ⟨hctx.exists_settled, fun _ hp => absurd hp List.not_mem_nil⟩

end Orderly

end

/-! ## Runs -/

namespace Link

/-- What a step is taken to be: the sender sends the messages of the list, encrypted with its
keys, and what comes to the reader was sent. -/
def Carrying (codec : MessageCodec M) (msgs : List Msg) (sender receiver : CryptoGcm)
    (s : Link D M) : Event M → Prop
  | .call c => (∀ suite ∈ c.cipherSuite, Encrypts sender suite) ∧
      ∀ p ∈ c.pkts, p.Typed ∧ p.record.recordLayerHeader.Supported ∧
        p.Proper codec msgs c.cipherSuite
  | .datagram d => (∀ env ∈ d.env :: d.requests, Keyed receiver env.cipherSuite) ∧
      d.buf ∈ s.sender.datagrams
  | .own _ => True

section

variable {setup : Reader.Setup D M} {mtu : Nat} {msgs : List Msg} {sender receiver : CryptoGcm}
  {es : List (Event M)} {e : Event M} {s s' : Link D M}

/-- The datagrams of a call hold records of its packets. -/
theorem mem_made_handleOutgoingPackets {codec : MessageCodec M} {cipherSuite : Option CipherSuite}
    {isClient : Bool} {lsn : List Nat} {cache : HandshakeCache} {pkts : List (Packet M)}
    {d : List UInt8} {P : List UInt8 → Prop} (hP : ∀ r, P r → Whole r ∧ Carries r)
    (hpkts : ∀ p ∈ pkts, ∀ r, MadeBy codec cipherSuite mtu p r → P r)
    (hd : d ∈ (handleOutgoingPackets codec cipherSuite isClient mtu lsn cache pkts).2.made) :
    ∃ rs, unpackDatagram d = .ok rs ∧ ∀ r ∈ rs, P r := by
  rw [handleOutgoingPackets, Sent.made] at hd
  simp only at hd
  cases hres : (sendPackets codec cipherSuite isClient mtu lsn cache pkts).2.result with
  | error e =>
      rw [hres] at hd
      cases hd
  | ok raws =>
      rw [hres] at hd
      have hraws : ∀ r ∈ raws, P r := fun r hr => by
        obtain ⟨p, hp, hmade⟩ := mem_sendPackets hres hr
        exact hpkts p hp r hmade
      simp only [Except.map] at hd
      split at hd
      · cases hd
      · obtain ⟨groups, hcompact, hflatten, -⟩ := compactRawPackets_eq mtu
          fun r (hr : r ∈ raws) => (hP r (hraws r hr)).2.ne_nil
        rw [hcompact] at hd
        obtain ⟨g, hg, rfl⟩ := List.mem_map.mp hd
        have hgroup : ∀ r ∈ g, P r := fun r hr =>
          hraws r (hflatten ▸ List.mem_flatten.mpr ⟨g, hg, hr⟩)
        exact ⟨g, unpackDatagram_group fun r hr => hP r (hgroup r hr), hgroup⟩

/-- What holds between the two ends during the handshake. -/
structure Shaking (setup : Reader.Setup D M) (mtu : Nat) (msgs : List Msg)
    (receiver : CryptoGcm) (s : Link D M) : Prop where
  sent : ∀ d ∈ s.sender.datagrams, ∃ rs, unpackDatagram d = .ok rs ∧
    ∀ r ∈ rs, FromSender mtu msgs receiver r
  cached : Cached setup msgs s.reader.ctx
  orderly : s.reader.exited = false → Orderly setup mtu msgs receiver s.reader.ctx

theorem Shaking.step (hs : Sendable mtu msgs) (hmtu : mtu + 36 < 65536)
    (hkeys : CryptoGcm.SameKeys sender receiver) (h : Shaking setup mtu msgs receiver s)
    (hcarrying : Carrying setup.codec msgs sender receiver s e) (hstep : Step setup mtu s e s') :
    Shaking setup mtu msgs receiver s' := by
  cases hstep with
  | call c =>
      obtain ⟨hsuite, hpkts⟩ := hcarrying
      refine ⟨fun d hd => ?_, h.cached, h.orderly⟩
      rcases List.mem_append.mp hd with hd | hd
      · exact h.sent d hd
      · refine mem_made_handleOutgoingPackets (fun r hr => ⟨hr.whole, hr.carries⟩)
          (fun p hp r hmade => ?_) hd
        obtain ⟨htyped, hversion, hproper⟩ := hpkts p hp
        exact hmade.fromSender hkeys hs hmtu hsuite htyped hversion hproper
  | @datagram d reader hreader =>
      obtain ⟨hsuites, hsent⟩ := hcarrying
      obtain ⟨rs, hrs, hfrom⟩ := h.sent d.buf hsent
      obtain ⟨hgoing, hctx, hexited⟩ := Reader.of_step hreader
      obtain ⟨hcached, horderly⟩ := (Orderly.kept hs).readAndBuffer hsuites (fun pkts hpkts => by
        obtain rfl := Except.ok.inj (hrs.symm.trans hpkts)
        exact hfrom) (h.orderly hgoing)
      rw [← hctx] at hcached horderly
      rw [← hexited] at horderly
      exact ⟨h.sent, hcached, horderly⟩
  | own hitem =>
      obtain ⟨n, hn, hcached⟩ := h.cached
      refine ⟨h.sent, ⟨n, hn, (remoteItems_push_own hitem).trans hcached⟩, fun hgoing => ?_⟩
      obtain ⟨got, k, hsettled, hcaches⟩ := (h.orderly hgoing).exists_settled
      exact ⟨⟨got, k, hsettled, (remoteItems_push_own hitem).trans hcaches⟩,
        (h.orderly hgoing).queued⟩

/-- **The handshake sees the other side's messages in order**: whatever is lost, repeated and
reordered on the way, and however often the flights are sent again, what the cache holds of
the other side is its first messages, unchanged and each once, as far as they can be parsed. -/
theorem cached_in_order (hs : Sendable mtu msgs) (hmtu : mtu + 36 < 65536)
    (hkeys : CryptoGcm.SameKeys sender receiver) (hrun : (machine setup mtu).Run new es s)
    (hcarrying : (machine setup mtu).Along new es (Carrying setup.codec msgs sender receiver)) :
    ∃ k ≤ msgs.length, remoteItems setup s.reader.ctx.cache =
      ((wholes msgs).take k).filterMap (itemOf setup) := by
  have hshaking : Shaking setup mtu msgs receiver s := by
    refine hrun.invariant_along (I := Shaking setup mtu msgs receiver) hcarrying ?_
      fun s e s' h he hstep => h.step hs hmtu hkeys he (Step.of_step hstep)
    refine ⟨fun d hd => absurd hd List.not_mem_nil, ⟨0, Nat.zero_le _, rfl⟩, fun _ => ?_⟩
    exact ⟨⟨_, 0, settled_new, rfl⟩, fun p hp => absurd hp List.not_mem_nil⟩
  exact hshaking.cached

end

/-! ## Out of order -/

/-- A message that is split and one under the keys. -/
def shuffled : List Msg := [⟨.finished, [1, 2, 3], 0⟩, ⟨.finished, [9], 1⟩]

/-- The flight with these messages: four datagrams, the third of them a change of the cipher. -/
def flight : Call (List UInt8) :=
  ⟨some zeroSuite, [Sender.finishedPacket 0 [1, 2, 3] 0, Sender.changePacket,
    Sender.finishedPacket 1 [9] 1]⟩

/-- A datagram of the flight, and what the handshake asks for then. -/
def flightDatagram (n : Nat) (requests : List Reader.Env) : Event (List UInt8) :=
  .datagram ⟨Reader.keyed, requests,
    (Sender.new.call handshakeMessageFinished true 2 flight).datagrams.getD n []⟩

/-- The flight comes from behind, its last datagram before there is an epoch for it. -/
def backwards : List (Event (List UInt8)) :=
  [.call flight, flightDatagram 3 [], flightDatagram 2 [], flightDatagram 1 [],
    flightDatagram 1 [], flightDatagram 0 [Reader.keyed]]

theorem encrypts_zeroSuite : Encrypts CryptoGcm.zeroKeys zeroSuite :=
  fun h raw _ hr => ⟨CryptoGcm.zeroDrawn h raw, rfl, hr⟩

theorem proper_flight : ∀ p ∈ flight.pkts, p.Typed ∧ p.record.recordLayerHeader.Supported ∧
    p.Proper handshakeMessageFinished shuffled (some zeroSuite) := by
  intro p hp
  simp only [flight, List.mem_cons, List.not_mem_nil, or_false] at hp
  rcases hp with rfl | rfl | rfl
  · exact ⟨rfl, .inr rfl, .message rfl (i := 0) rfl rfl ⟨rfl, rfl, rfl⟩ rfl (by decide) fun _ => rfl⟩
  · exact ⟨rfl, .inr rfl, .other (by simp [Sender.changePacket]) rfl rfl (by decide) (by decide)⟩
  · exact ⟨rfl, .inr rfl, .message rfl (i := 1) rfl rfl ⟨rfl, rfl, rfl⟩ rfl (by decide) fun _ => rfl⟩

theorem carrying_backwards : (machine Reader.windowed 2).Along new backwards
    (Carrying handshakeMessageFinished shuffled CryptoGcm.zeroKeys CryptoGcm.zeroKeys) := by
  have hsent : (machine Reader.windowed 2).Along new backwards fun s e =>
      ∀ d ∈ e.datagram?, d.buf ∈ s.sender.datagrams := by decide +kernel
  intro es₁ e es₂ s heq hrun
  have he : e ∈ backwards := heq ▸ List.mem_append_right _ (List.mem_cons_self ..)
  cases e with
  | call c =>
      obtain rfl : c = flight := by simpa [backwards, flightDatagram] using he
      refine ⟨fun suite hsuite => ?_, proper_flight⟩
      obtain rfl := Option.some.inj hsuite
      exact encrypts_zeroSuite
  | datagram d =>
      refine ⟨fun env henv => ?_, hsent es₁ _ es₂ s heq hrun d rfl⟩
      obtain rfl : env = Reader.keyed := by
        simp only [backwards, flightDatagram, List.mem_cons, List.not_mem_nil, or_false,
          reduceCtorEq, false_or, Event.datagram.injEq] at he
        rcases he with rfl | rfl | rfl | rfl | rfl <;> simpa using henv
      exact keyed_zeroKeys
  | own => trivial

theorem cached_in_order_backwards : ∃ s : Link SlidingWindow (List UInt8),
    (machine Reader.windowed 2).Run new backwards s ∧
    (remoteItems Reader.windowed s.reader.ctx.cache).length = 2 ∧
    ∃ k ≤ shuffled.length, remoteItems Reader.windowed s.reader.ctx.cache =
      ((wholes shuffled).take k).filterMap (itemOf Reader.windowed) := by
  obtain ⟨s, hrun, hlen⟩ := (machine Reader.windowed 2).exists_run new backwards
    (fun s => (remoteItems Reader.windowed s.reader.ctx.cache).length = 2) (by decide +kernel)
  exact ⟨s, hrun, by simpa using hlen, cached_in_order ⟨by decide, by decide, by decide⟩ (by decide)
    CryptoGcm.sameKeys_zeroKeys hrun carrying_backwards⟩

end Link

end RemoteBridge.Dtls
