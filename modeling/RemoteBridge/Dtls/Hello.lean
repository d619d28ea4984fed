import RemoteBridge.Dtls.Flight0
import RemoteBridge.Dtls.Reader
import RemoteBridge.Machine

/-!
# Dtls.Hello

How a server comes to its answer, `handshaker.rs` with `flight0.rs` and `flight2.rs`: it sends a
cookie to the client that said hello, and goes on when it has a hello with the cookie.

The messages of the flights after these two are not modelled, nor is how the request with the
cookie is written.
-/

namespace RemoteBridge.Dtls

open Wire Bytes

variable {D M : Type}

/-- What is fixed for the handshake of a server: its reader, its configuration, and which of the
messages are hellos of a client. -/
structure Server (D M : Type) where
  setup : Reader.Setup D M
  isServer : setup.isClient = false
  cfg : HandshakeConfig
  clientHello : M → Option ClientHello

/-- The flights of a server up to its answer. -/
inductive Flight
  | flight0
  | flight2
  | flight4
deriving DecidableEq, Repr

def Flight.hasRetransmit : Flight → Bool
  | flight2 => false
  | _ => true

def helloRule (cfg : HandshakeConfig) : HandshakeCachePullRule :=
  ⟨.clientHello, cfg.initialEpoch, true, false⟩

/-- The pulled message is no hello. -/
def noHello : Refusal := ⟨some ⟨.fatal, .internalError⟩, none⟩

namespace Flight0

def parse (srv : Server D M) (s : State) (cache : HandshakeCache) : State × Except Refusal Flight :=
  match cache.fullPullMap srv.setup.codec 0 [helloRule srv.cfg] with
  | .error _ => (s, .error ⟨none, none⟩)
  | .ok (seq, msgs) =>
      let s := { s with handshakeRecvSequence := seq }
      match (msgs .clientHello).bind srv.clientHello with
      | none => (s, .error noHello)
      | some clientHello =>
          match parseHello srv.cfg s clientHello with
          | .error r => (s, .error r)
          | .ok s => (s, .ok .flight2)

end Flight0

namespace Flight2

def parse (srv : Server D M) (s : State) (cache : HandshakeCache) : State × Except Refusal Flight :=
  match cache.fullPullMap srv.setup.codec s.handshakeRecvSequence [helloRule srv.cfg] with
  -- the client may say its first hello again
  | .error _ => Flight0.parse srv s cache
  | .ok (seq, msgs) =>
      let s := { s with handshakeRecvSequence := seq }
      match (msgs .clientHello).bind srv.clientHello with
      | none => (s, .error noHello)
      | some clientHello =>
          if clientHello.version ≠ protocolVersion12 then
            (s, Flight0.refuse .protocolVersion .unsupportedProtocolVersion)
          else if clientHello.cookie = [] then (s, .error ⟨none, none⟩)
          else if s.cookie ≠ clientHello.cookie then
            (s, Flight0.refuse .accessDenied .cookieMismatch)
          else (s, .ok .flight4)

end Flight2

def Flight.parse (srv : Server D M) (s : State) (cache : HandshakeCache) :
    Flight → State × Except Refusal Flight
  | flight0 => Flight0.parse srv s cache
  | _ => Flight2.parse srv s cache

/-! ## The exchange -/

/-- A server's handshake up to its answer.  `flights` and `sent` hold the cookies of the requests
it has prepared and sent. -/
structure Exchange where
  currentFlight : Flight
  state : State
  cache : HandshakeCache
  flights : List (List UInt8)
  sent : List (List UInt8)
  failed : Bool
deriving DecidableEq

namespace Exchange

inductive Event
  /-- The reader has put a message together. -/
  | message (out : List UInt8 × UInt16)
  /-- A message of the server's own goes into the cache. -/
  | own (item : HandshakeCacheItem)
  /-- The reader tells the handshake that there is something new. -/
  | done
  | retransmitTimer

/-- `prepare`: the second flight asks for the cookie. -/
def prepare (s : Exchange) : Exchange :=
  { s with flights := if s.currentFlight = .flight2 then [s.state.cookie] else [] }

def send (s : Exchange) : Exchange := { s with sent := s.sent ++ s.flights }

/-- `wait`: what becomes of a flight's look at the cache. -/
def wait (s : Exchange) : State × Except Refusal Flight → Exchange
  | (state, .error r) => { s with state, failed := r.err.isSome }
  | (state, .ok nextFlight) => { s with state, currentFlight := nextFlight }.prepare.send

def new (drawn : List UInt8) : Exchange :=
  ⟨.flight0, Flight0.generate drawn .default, [], [], [], false⟩

def machine (srv : Server D M) : Machine Exchange Event where
  step s
    | .message out =>
        match Reader.cacheMessage srv.setup s.cache out with
        | .ok cache => some { s with cache }
        | .error _ => none
    | .own item => if item.isClient then none else some { s with cache := s.cache.push item }
    | .done =>
        if s.failed ∨ s.currentFlight = .flight4 then none
        else some (s.wait (s.currentFlight.parse srv s.state s.cache))
    | .retransmitTimer =>
        if s.failed ∨ s.currentFlight = .flight4 then none
        else if s.currentFlight.hasRetransmit then some s.send else some s

end Exchange

/-! ## What a flight finds -/

/-- The item is a hello, with this number. -/
structure Server.Holds (srv : Server D M) (c : HandshakeCacheItem) (n : UInt16)
    (clientHello : ClientHello) : Prop where
  isClient : c.isClient = true
  read : ∃ rawHandshake tail, Handshake.unmarshal srv.setup.codec c.data = .ok (rawHandshake, tail) ∧
    rawHandshake.handshakeHeader.messageSequence = n ∧
    srv.clientHello rawHandshake.handshakeMessage = some clientHello

/-- A pull of the hello: the last item of its kind, with the number that is due. -/
structure Server.Pulled (srv : Server D M) (cache : HandshakeCache) (n : Nat)
    (c : HandshakeCacheItem) : Prop where
  mem : c ∈ cache
  rule : HandshakeCache.Matches (helloRule srv.cfg) c
  last : ∀ i ∈ cache, HandshakeCache.Matches (helloRule srv.cfg) i →
    i.messageSequence ≤ c.messageSequence
  number : ∃ rawHandshake tail,
    Handshake.unmarshal srv.setup.codec c.data = .ok (rawHandshake, tail) ∧
      rawHandshake.handshakeHeader.messageSequence = UInt16.ofNat n

section

variable {srv : Server D M} {cache : HandshakeCache} {s s' : State} {r : Refusal}
  {flight nextFlight : Flight} {n seq : Nat} {msgs : HandshakeType → Option M}

theorem Server.exists_pulled
    (h : cache.fullPullMap srv.setup.codec n [helloRule srv.cfg] = .ok (seq, msgs)) :
    seq = n + 1 ∧ ∃ c, srv.Pulled cache n c ∧
      ∀ clientHello, (msgs .clientHello).bind srv.clientHello = some clientHello →
        srv.Holds c (UInt16.ofNat n) clientHello := by
  obtain ⟨c, hc, rawHandshake, tail, hmatch, hlast, hread, hnumber, hseq, hout⟩ :=
    HandshakeCache.fullPullMap_singleton rfl h
  refine ⟨hseq, c, ⟨hc, hmatch, hlast, rawHandshake, tail, hread, hnumber⟩, fun clientHello hch => ?_⟩
  have hout : msgs .clientHello = some rawHandshake.handshakeMessage := hout
  rw [hout] at hch
  exact ⟨hmatch.2.1, rawHandshake, tail, hread, hnumber, hch⟩

/-- What the first flight can do: nothing, note that a hello came, or take it. -/
inductive Flight0.Parses (srv : Server D M) (s : State) (cache : HandshakeCache) :
    State → Except Refusal Flight → Prop
  | missing : Parses srv s cache s (.error ⟨none, none⟩)
  | refused {c : HandshakeCacheItem} (r : Refusal) : srv.Pulled cache 0 c →
      Parses srv s cache { s with handshakeRecvSequence := 1 } (.error r)
  | answered {c : HandshakeCacheItem} {clientHello : ClientHello} {s' : State} :
      srv.Pulled cache 0 c → srv.Holds c 0 clientHello →
      parseHello srv.cfg { s with handshakeRecvSequence := 1 } clientHello = .ok s' →
      Parses srv s cache s' (.ok .flight2)

theorem Flight0.parses (srv : Server D M) (s : State) (cache : HandshakeCache) :
    Parses srv s cache (parse srv s cache).1 (parse srv s cache).2 := by
  rw [parse]
  split
  · exact .missing
  · next seq msgs hpull =>
      obtain ⟨rfl, c, hpulled, hholds⟩ := srv.exists_pulled hpull
      simp only
      split
      · exact .refused _ hpulled
      · next clientHello hhello =>
          split
          · exact .refused _ hpulled
          · next s' hok => exact .answered hpulled (hholds clientHello hhello) hok

/-- What the second flight can do: what the first one can, note that a hello came, or find the
cookie in it. -/
inductive Flight2.Parses (srv : Server D M) (s : State) (cache : HandshakeCache) :
    State → Except Refusal Flight → Prop
  | first {s' : State} {result : Except Refusal Flight} : Flight0.Parses srv s cache s' result →
      Parses srv s cache s' result
  | refused {c : HandshakeCacheItem} (r : Refusal) : srv.Pulled cache s.handshakeRecvSequence c →
      Parses srv s cache { s with handshakeRecvSequence := s.handshakeRecvSequence + 1 } (.error r)
  | verified {c : HandshakeCacheItem} {clientHello : ClientHello} :
      srv.Pulled cache s.handshakeRecvSequence c →
      srv.Holds c (UInt16.ofNat s.handshakeRecvSequence) clientHello →
      clientHello.version = protocolVersion12 → clientHello.cookie = s.cookie → s.cookie ≠ [] →
      Parses srv s cache { s with handshakeRecvSequence := s.handshakeRecvSequence + 1 }
        (.ok .flight4)

theorem Flight2.parses (srv : Server D M) (s : State) (cache : HandshakeCache) :
    Parses srv s cache (parse srv s cache).1 (parse srv s cache).2 := by
  rw [parse]
  split
  · exact .first (Flight0.parses srv s cache)
  · next seq msgs hpull =>
      obtain ⟨rfl, c, hpulled, hholds⟩ := srv.exists_pulled hpull
      simp only
      split
      · exact .refused _ hpulled
      · next clientHello hhello =>
          split
          · exact .refused _ hpulled
          · next hversion =>
              split
              · exact .refused _ hpulled
              · next hne =>
                  split
                  · exact .refused _ hpulled
                  · next hcookie =>
                      have heq := not_not.mp hcookie
                      exact .verified hpulled (hholds clientHello hhello) (not_not.mp hversion)
                        heq.symm (heq ▸ hne)

end

/-! ## The cache of an exchange -/

/-- The cache as the reader fills it: the client's messages have the numbers of their headers,
and no number twice. -/
structure Server.Cached (srv : Server D M) (cache : HandshakeCache) : Prop where
  number : ∀ c ∈ cache, c.isClient = true → ∀ rawHandshake tail,
    Handshake.unmarshal srv.setup.codec c.data = .ok (rawHandshake, tail) →
      rawHandshake.handshakeHeader.messageSequence = c.messageSequence
  unique : ∀ a ∈ cache, ∀ b ∈ cache, a.isClient = true → b.isClient = true →
    a.messageSequence = b.messageSequence → a = b

section

variable {srv : Server D M} {cache : HandshakeCache} {c c' : HandshakeCacheItem} {n : Nat}
  {clientHello clientHello' : ClientHello}

theorem Server.Pulled.messageSequence (h : srv.Pulled cache n c) (hcache : srv.Cached cache) :
    c.messageSequence = UInt16.ofNat n := by
  obtain ⟨rawHandshake, tail, hread, hnumber⟩ := h.number
  rw [← hcache.number c h.mem h.rule.2.1 rawHandshake tail hread, hnumber]

theorem Server.Holds.messageSequence {k : UInt16} (h : srv.Holds c k clientHello) (hc : c ∈ cache)
    (hcache : srv.Cached cache) : c.messageSequence = k := by
  obtain ⟨rawHandshake, tail, hread, hnumber, -⟩ := h.read
  rw [← hcache.number c hc h.isClient rawHandshake tail hread, hnumber]

/-- There is one hello of a number. -/
theorem Server.Holds.unique {k : UInt16} (h : srv.Holds c k clientHello)
    (h' : srv.Holds c' k clientHello') (hc : c ∈ cache) (hc' : c' ∈ cache)
    (hcache : srv.Cached cache) : clientHello = clientHello' := by
  obtain rfl := hcache.unique c hc c' hc' h.isClient h'.isClient
    ((h.messageSequence hc hcache).trans (h'.messageSequence hc' hcache).symm)
  obtain ⟨rawHandshake, tail, hread, -, hhello⟩ := h.read
  obtain ⟨rawHandshake', tail', hread', -, hhello'⟩ := h'.read
  obtain ⟨rfl, -⟩ := Prod.mk.inj (Except.ok.inj (hread.symm.trans hread'))
  exact Option.some.inj (hhello.symm.trans hhello')

/-- The hello that is due is pulled. -/
theorem Server.Pulled.fullPullMap (h : srv.Pulled cache n c) (hcache : srv.Cached cache)
    (hholds : srv.Holds c (UInt16.ofNat n) clientHello) :
    ∃ msgs, cache.fullPullMap srv.setup.codec n [helloRule srv.cfg] = .ok (n + 1, msgs) ∧
      (msgs .clientHello).bind srv.clientHello = some clientHello := by
  obtain ⟨c', hlatest⟩ := Option.isSome_iff_exists.mp
    (HandshakeCache.latestFrom_isSome none (.inr ⟨c, h.mem, h.rule⟩))
  obtain ⟨hmem, hrule, hlast, -⟩ := HandshakeCache.latestFrom_eq_some (by simp) hlatest
  have hmem' : c' ∈ cache := hmem.resolve_right nofun
  -- both are the last of the kind, and a number is there once
  have hseq : c'.messageSequence = c.messageSequence :=
    UInt16.le_antisymm (h.last c' hmem' hrule) (hlast c h.mem h.rule)
  obtain rfl := hcache.unique c' hmem' c h.mem hrule.2.1 h.rule.2.1 hseq
  obtain ⟨rawHandshake, tail, hread, hnumber, hhello⟩ := hholds.read
  exact ⟨_, HandshakeCache.fullPullMap_of_latest hlatest hread hnumber, by
    simpa [helloRule] using hhello⟩

theorem Server.Cached.push (hcache : srv.Cached cache) (item : HandshakeCacheItem)
    (hitem : item.isClient = true → ∀ rawHandshake tail,
      Handshake.unmarshal srv.setup.codec item.data = .ok (rawHandshake, tail) →
        rawHandshake.handshakeHeader.messageSequence = item.messageSequence) :
    srv.Cached (cache.push item) ∧ cache ⊆ cache.push item := by
  rcases HandshakeCache.push_cases cache item with heq | ⟨heq, hnew⟩
  · rw [heq]
    exact ⟨hcache, fun _ => id⟩
  · rw [heq]
    refine ⟨⟨?_, ?_⟩, fun _ => List.mem_append_left _⟩
    · intro c hc
      rcases List.mem_append.mp hc with hc | hc
      · exact hcache.number c hc
      · exact List.mem_singleton.mp hc ▸ hitem
    · intro a hmemA b hmemB haside hbside hseq
      rcases List.mem_append.mp hmemA with ha | ha <;>
        rcases List.mem_append.mp hmemB with hb | hb
      · exact hcache.unique a ha b hb haside hbside hseq
      · obtain rfl := List.mem_singleton.mp hb
        exact absurd hseq (hnew a ha (haside.trans hbside.symm))
      · obtain rfl := List.mem_singleton.mp ha
        exact absurd hseq.symm (hnew b hb (hbside.trans haside.symm))
      · rw [List.mem_singleton.mp ha, List.mem_singleton.mp hb]

/-- A message from the reader. -/
theorem Server.Cached.cacheMessage (hcache : srv.Cached cache) {out : List UInt8 × UInt16}
    {cache' : HandshakeCache} (h : Reader.cacheMessage srv.setup cache out = .ok cache') :
    srv.Cached cache' ∧ cache ⊆ cache' := by
  rw [Reader.cacheMessage] at h
  split at h
  · next rawHandshake tail hread =>
      obtain rfl := Except.ok.inj h
      refine hcache.push _ fun _ rawHandshake' tail' hread' => ?_
      obtain ⟨rfl, -⟩ := Prod.mk.inj (Except.ok.inj (hread.symm.trans hread'))
      rfl
  · cases h
  · obtain rfl := Except.ok.inj h
    exact ⟨hcache, fun _ => id⟩

end

/-! ## The cookie -/

namespace Exchange

/-- The server has answered a first hello, and asked its client for the cookie. -/
structure Answered (srv : Server D M) (drawn : List UInt8) (s : Exchange) (c : HandshakeCacheItem)
    (clientHello : ClientHello) : Prop where
  mem : c ∈ s.cache
  holds : srv.Holds c 0 clientHello
  acceptable : Flight0.Acceptable srv.cfg (Flight0.generate drawn .default) clientHello
  negotiated : Flight0.Negotiated srv.cfg (Flight0.generate drawn .default) clientHello s.state
  asked : drawn ∈ s.sent

/-- The server has a later hello that brings the cookie back. -/
structure Verified (srv : Server D M) (drawn : List UInt8) (s : Exchange) (c : HandshakeCacheItem)
    (n : UInt16) (clientHello : ClientHello) : Prop where
  mem : c ∈ s.cache
  holds : srv.Holds c n clientHello
  later : n ≠ 0
  cookie : clientHello.cookie = drawn
  drawn : drawn ≠ []

/-- What holds in each flight. -/
structure Invariant (srv : Server D M) (drawn : List UInt8) (s : Exchange) : Prop where
  cached : srv.Cached s.cache
  waiting : s.currentFlight = .flight0 → ∃ n,
    s.state = { Flight0.generate drawn .default with handshakeRecvSequence := n }
  answered : s.currentFlight ≠ .flight0 → ∃ c clientHello, Answered srv drawn s c clientHello
  came : s.currentFlight ≠ .flight0 → ∃ n, s.state.handshakeRecvSequence = n + 1 ∧
    ∃ c ∈ s.cache, HandshakeCache.Matches (helloRule srv.cfg) c ∧
      c.messageSequence = UInt16.ofNat n
  verified : s.currentFlight = .flight4 → ∃ c n clientHello, Verified srv drawn s c n clientHello

section

variable {srv : Server D M} {drawn : List UInt8} {s s' : Exchange} {c : HandshakeCacheItem}
  {clientHello : ClientHello} {es : List Event}

/-- More messages in the cache, and more requests. -/
theorem Invariant.mono (h : Invariant srv drawn s) (hflight : s'.currentFlight = s.currentFlight)
    (hstate : s'.state = s.state) (hcached : srv.Cached s'.cache) (hcache : s.cache ⊆ s'.cache)
    (hsent : s.sent ⊆ s'.sent) : Invariant srv drawn s' where
  cached := hcached
  waiting hs := by
    rw [hstate]
    exact h.waiting (hflight ▸ hs)
  answered hs := by
    obtain ⟨c, clientHello, hc⟩ := h.answered (hflight ▸ hs)
    exact ⟨c, clientHello, hcache hc.mem, hc.holds, hc.acceptable, hstate ▸ hc.negotiated,
      hsent hc.asked⟩
  came hs := by
    obtain ⟨n, hn, c, hc, hcame⟩ := h.came (hflight ▸ hs)
    exact ⟨n, hstate ▸ hn, c, hcache hc, hcame⟩
  verified hs := by
    obtain ⟨c, n, clientHello, hc⟩ := h.verified (hflight ▸ hs)
    exact ⟨c, n, clientHello, hcache hc.mem, hc.holds, hc.later, hc.cookie, hc.drawn⟩

/-- A hello came, and the flight stays. -/
theorem Invariant.stay (h : Invariant srv drawn s) {n : Nat} {failed : Bool}
    (hflight : s.currentFlight ≠ .flight4) (hpulled : srv.Pulled s.cache n c) :
    Invariant srv drawn
      { s with state := { s.state with handshakeRecvSequence := n + 1 }, failed } where
  cached := h.cached
  waiting hs := by
    obtain ⟨m, hm⟩ := h.waiting hs
    exact ⟨n + 1, by simp [hm]⟩
  answered hs := by
    obtain ⟨c, clientHello, hc⟩ := h.answered hs
    exact ⟨c, clientHello, hc.mem, hc.holds, hc.acceptable, hc.negotiated.renumbered 0 _, hc.asked⟩
  came _ := ⟨n, rfl, c, hpulled.mem, hpulled.rule, hpulled.messageSequence h.cached⟩
  verified hs := absurd hs hflight

/-- A first hello is answered, perhaps again. -/
theorem Invariant.answer (h : Invariant srv drawn s) {state : State}
    (hpulled : srv.Pulled s.cache 0 c) (hholds : srv.Holds c 0 clientHello)
    (hok : Flight0.parseHello srv.cfg { s.state with handshakeRecvSequence := 1 } clientHello =
      .ok state) :
    Invariant srv drawn { s with state, currentFlight := .flight2 }.prepare.send := by
  -- either nothing was negotiated before, or the same hello was
  obtain ⟨c₁, clientHello₁, hmem₁, hholds₁, hacceptable, hnegotiated, hrecv⟩ :
      ∃ c₁ clientHello₁, c₁ ∈ s.cache ∧ srv.Holds c₁ 0 clientHello₁ ∧
        Flight0.Acceptable srv.cfg (Flight0.generate drawn .default) clientHello₁ ∧
        Flight0.Negotiated srv.cfg (Flight0.generate drawn .default) clientHello₁ state ∧
        state.handshakeRecvSequence = 1 := by
    by_cases hwaiting : s.currentFlight = .flight0
    · obtain ⟨m, hm⟩ := h.waiting hwaiting
      rw [hm] at hok
      have hcurve : (Flight0.generate drawn .default).namedCurve ≠ .unsupported := nofun
      obtain ⟨hacceptable, hnegotiated, hrecv⟩ := Flight0.parseHello_ok hcurve hok
      exact ⟨c, clientHello, hpulled.mem, hholds, hacceptable, hnegotiated, hrecv⟩
    · obtain ⟨c₁, clientHello₁, hc₁⟩ := h.answered hwaiting
      obtain rfl := hc₁.holds.unique hholds hc₁.mem hpulled.mem h.cached
      obtain ⟨-, hnegotiated, hrecv⟩ := Flight0.parseHello_ok hc₁.negotiated.supported hok
      exact ⟨c₁, clientHello₁, hc₁.mem, hc₁.holds, hc₁.acceptable,
        hc₁.negotiated.again hnegotiated, hrecv⟩
  exact {
    cached := h.cached
    waiting := fun hs => by cases hs
    answered := fun _ => ⟨c₁, clientHello₁, hmem₁, hholds₁, hacceptable, hnegotiated,
      List.mem_append_right _ (by
        have hcookie : state.cookie = drawn := hnegotiated.cookie
        simp [prepare, hcookie])⟩
    came := fun _ => ⟨0, hrecv, c, hpulled.mem, hpulled.rule, hpulled.messageSequence h.cached⟩
    verified := fun hs => by cases hs }

/-- The cookie came back. -/
theorem Invariant.verify (h : Invariant srv drawn s) (hflight : s.currentFlight = .flight2)
    (hpulled : srv.Pulled s.cache s.state.handshakeRecvSequence c)
    (hholds : srv.Holds c (UInt16.ofNat s.state.handshakeRecvSequence) clientHello)
    (hcookie : clientHello.cookie = s.state.cookie) (hne : s.state.cookie ≠ []) :
    Invariant srv drawn { s with
      state := { s.state with handshakeRecvSequence := s.state.handshakeRecvSequence + 1 }
      currentFlight := .flight4 }.prepare.send := by
  have hnot : s.currentFlight ≠ .flight0 := by rw [hflight]; nofun
  obtain ⟨first, firstHello, hfirst⟩ := h.answered hnot
  obtain ⟨n, hn, i, hi, hrule, hnumber⟩ := h.came hnot
  have hdrawn : s.state.cookie = drawn := hfirst.negotiated.cookie
  -- it has a number that is due after that of a hello
  have hlater : UInt16.ofNat s.state.handshakeRecvSequence ≠ 0 := by
    intro hzero
    have hle := hpulled.last i hi hrule
    rw [hpulled.messageSequence h.cached, hzero, hnumber, UInt16.le_iff_toNat_le] at hle
    have hzero' := congrArg UInt16.toNat hzero
    rw [hn] at hzero'
    simp only [UInt16.toNat_ofNat', UInt16.toNat_zero] at hle hzero'
    omega
  exact {
    cached := h.cached
    waiting := fun hs => by cases hs
    answered := fun _ => ⟨first, firstHello, hfirst.mem, hfirst.holds, hfirst.acceptable,
      hfirst.negotiated.renumbered 0 _, List.mem_append_left _ hfirst.asked⟩
    came := fun _ => ⟨s.state.handshakeRecvSequence, rfl, c, hpulled.mem, hpulled.rule,
      hpulled.messageSequence h.cached⟩
    verified := fun _ => ⟨c, _, clientHello, hpulled.mem, hholds, hlater, hcookie.trans hdrawn,
      hdrawn ▸ hne⟩ }

/-- Whatever a flight finds. -/
theorem Invariant.wait (h : Invariant srv drawn s) (hflight : s.currentFlight ≠ .flight4) :
    Invariant srv drawn (s.wait (s.currentFlight.parse srv s.state s.cache)) := by
  have hfirst {state : State} {result : Except Refusal Flight}
      (hparses : Flight0.Parses srv s.state s.cache state result) :
      Invariant srv drawn (s.wait (state, result)) := by
    cases hparses with
    | missing => exact h.mono rfl rfl h.cached (fun _ => id) (fun _ => id)
    | refused r hpulled => exact h.stay hflight hpulled
    | answered hpulled hholds hok => exact h.answer hpulled hholds hok
  cases hcurrent : s.currentFlight with
  | flight4 => exact absurd hcurrent hflight
  | flight0 => exact hfirst (Flight0.parses srv s.state s.cache)
  | flight2 =>
      have hparses := Flight2.parses srv s.state s.cache
      show Invariant srv drawn (s.wait (Flight2.parse srv s.state s.cache))
      generalize Flight2.parse srv s.state s.cache = outcome at hparses ⊢
      obtain ⟨state, result⟩ := outcome
      cases hparses with
      | first hparses => exact hfirst hparses
      | refused r hpulled => exact h.stay hflight hpulled
      | verified hpulled hholds _ hcookie hne => exact h.verify hcurrent hpulled hholds hcookie hne

theorem Invariant.step (h : Invariant srv drawn s) {e : Event}
    (hstep : (machine srv).step s e = some s') : Invariant srv drawn s' := by
  cases e with
  | message out =>
      simp only [machine] at hstep
      split at hstep
      · next cache hmessage =>
          obtain rfl := Option.some.inj hstep
          obtain ⟨hcached, hcache⟩ := h.cached.cacheMessage hmessage
          exact h.mono rfl rfl hcached hcache fun _ => id
      · cases hstep
  | own item =>
      simp only [machine] at hstep
      split at hstep
      · cases hstep
      · next hside =>
          obtain rfl := Option.some.inj hstep
          obtain ⟨hcached, hcache⟩ := h.cached.push item fun hclient => absurd hclient hside
          exact h.mono rfl rfl hcached hcache fun _ => id
  | done =>
      simp only [machine] at hstep
      split at hstep
      · cases hstep
      · next hgoing =>
          obtain rfl := Option.some.inj hstep
          exact h.wait fun hflight => hgoing (.inr hflight)
  | retransmitTimer =>
      simp only [machine] at hstep
      split at hstep
      · cases hstep
      · split at hstep
        · obtain rfl := Option.some.inj hstep
          exact h.mono rfl rfl h.cached (fun _ => id) fun _ => List.mem_append_left _
        · obtain rfl := Option.some.inj hstep
          exact h

theorem invariant_new (srv : Server D M) (drawn : List UInt8) : Invariant srv drawn (new drawn) where
  cached := ⟨fun _ hc => absurd hc List.not_mem_nil, fun _ ha => absurd ha List.not_mem_nil⟩
  waiting _ := ⟨0, rfl⟩
  answered hs := absurd rfl hs
  came hs := absurd rfl hs
  verified hs := by cases hs

/-- **Nobody gets an answer without the cookie**: whatever messages come, and whenever the
handshake looks, a server that goes on to its fourth flight has answered a first hello, has
sent its cookie, and holds a later hello that brings it back.  What it has negotiated it took
from the first hello, except for a curve of its own if this lists none that is supported, and the
key pair is one of the curve. -/
theorem verified_of_run (hrun : (machine srv).Run (new drawn) es s)
    (hflight : s.currentFlight = .flight4) :
    (∃ c clientHello, Answered srv drawn s c clientHello) ∧
      ∃ c n clientHello, Verified srv drawn s c n clientHello := by
  have h := hrun.invariant (I := Invariant srv drawn) (invariant_new srv drawn)
    fun s e s' hs hstep => hs.step hstep
  exact ⟨h.answered (by rw [hflight]; nofun), h.verified hflight⟩

/-- The messages are hellos, of a server for the sample. -/
def sampleServer : Server Unit ClientHello where
  setup := {
    isClient := false
    detector := ⟨(), fun _ _ => (true, ()), id⟩
    codec := {
      marshal := ClientHello.marshal
      unmarshal := fun t => if t = .clientHello then ClientHello.unmarshal else fail .notImplemented } }
  isServer := rfl
  cfg := {
    initialEpoch := 0
    localCipherSuites := [.tlsEcdheEcdsaWithAes128GcmSha256]
    localSrtpProtectionProfiles := []
    extendedMasterSecret := .require }
  clientHello := some

/-- The sample as a message of the first epoch. -/
def sampleMessage (seq : UInt16) (cookie : List UInt8) : List UInt8 × UInt16 :=
  let body := ((ClientHello.sample cookie).marshal.toOption).getD []
  (HandshakeHeader.bytes ⟨.clientHello, body.length, seq, 0, body.length⟩ ++ body, 0)

/-- The client says hello, is asked for the cookie, says its first hello again, and then one
with the cookie. -/
def sampleEvents : List Event :=
  [.message (sampleMessage 0 []), .done, .message (sampleMessage 0 []), .done,
    .message (sampleMessage 1 [4, 2]), .done]

theorem verified_of_run_sample : ∃ s, (machine sampleServer).Run (new [4, 2]) sampleEvents s ∧
    (∃ c clientHello, Answered sampleServer [4, 2] s c clientHello) ∧
      ∃ c n clientHello, Verified sampleServer [4, 2] s c n clientHello := by
  obtain ⟨s, hrun, hflight⟩ := (machine sampleServer).exists_run (new [4, 2]) sampleEvents
    (fun s => s.currentFlight = .flight4) (by decide +kernel)
  exact ⟨s, hrun, verified_of_run hrun (by simpa using hflight)⟩

/-- **A client that brings the cookie back gets its answer**: a server that waits for it goes on
exactly when the last hello of its client has the number that is due, its version and the
cookie. -/
theorem flight4_iff (hrun : (machine srv).Run (new drawn) es s)
    (hflight : s.currentFlight = .flight2) (hfailed : s.failed = false) (hdrawn : drawn ≠ []) :
    (∃ s', (machine srv).step s .done = some s' ∧ s'.currentFlight = .flight4) ↔
      ∃ c clientHello, srv.Pulled s.cache s.state.handshakeRecvSequence c ∧
        srv.Holds c (UInt16.ofNat s.state.handshakeRecvSequence) clientHello ∧
        clientHello.version = protocolVersion12 ∧ clientHello.cookie = drawn := by
  have h := hrun.invariant (I := Invariant srv drawn) (invariant_new srv drawn)
    fun s e s' hs hstep => hs.step hstep
  have hcookie : s.state.cookie = drawn := by
    obtain ⟨c, clientHello, hc⟩ := h.answered (by rw [hflight]; nofun)
    exact hc.negotiated.cookie
  have hstep : (machine srv).step s .done =
      some (s.wait (Flight2.parse srv s.state s.cache)) := by
    simp only [machine]
    rw [if_neg (by simp [hfailed, hflight]), hflight]
    rfl
  simp only [hstep, Option.some.injEq, exists_eq_left']
  constructor
  · intro hnext
    have hparses := Flight2.parses srv s.state s.cache
    generalize Flight2.parse srv s.state s.cache = outcome at hparses hnext
    obtain ⟨state, result⟩ := outcome
    cases hparses with
    | first hparses =>
        cases hparses with
        | missing => exact absurd (hflight.symm.trans hnext) nofun
        | refused => exact absurd (hflight.symm.trans hnext) nofun
        | answered => cases hnext
    | refused => exact absurd (hflight.symm.trans hnext) nofun
    | @verified c clientHello hpulled hholds hversion heq _ =>
        exact ⟨c, clientHello, hpulled, hholds, hversion, heq.trans hcookie⟩
  · rintro ⟨c, clientHello, hpulled, hholds, hversion, heq⟩
    obtain ⟨msgs, hpull, hhello⟩ := hpulled.fullPullMap h.cached hholds
    rw [Flight2.parse, hpull]
    simp only [hhello]
    rw [if_neg (not_not_intro hversion), if_neg (heq ▸ hdrawn),
      if_neg (not_not_intro (hcookie.trans heq.symm))]
    rfl

theorem flight4_iff_sample : ∃ s,
    (machine sampleServer).Run (new [4, 2]) (sampleEvents.dropLast) s ∧
      ((∃ s', (machine sampleServer).step s .done = some s' ∧ s'.currentFlight = .flight4) ↔
        ∃ c clientHello, sampleServer.Pulled s.cache s.state.handshakeRecvSequence c ∧
          sampleServer.Holds c (UInt16.ofNat s.state.handshakeRecvSequence) clientHello ∧
          clientHello.version = protocolVersion12 ∧ clientHello.cookie = [4, 2]) := by
  obtain ⟨s, hrun, hs⟩ := (machine sampleServer).exists_run (new [4, 2]) sampleEvents.dropLast
    (fun s => s.currentFlight = .flight2 ∧ s.failed = false) (by decide +kernel)
  simp only [decide_eq_true_eq] at hs
  exact ⟨s, hrun, flight4_iff hrun hs.1 hs.2 (by decide)⟩

end

end Exchange

end RemoteBridge.Dtls
