import RemoteBridge.Dtls.Reader
import RemoteBridge.Machine

/-!
# Dtls.Reader.Steps

What a packet can do to the reader, and the rule that carries a fact about one packet to
whole datagrams.
-/

namespace RemoteBridge.Dtls

open Wire Bytes

variable {D M : Type}

/-! ## Small facts -/

theorem FragmentBuffer.push_eq_false {fb fb' : FragmentBuffer} {pkt : List UInt8}
    (h : fb.push pkt = (fb', .ok false)) : fb' = fb := by
  rw [push] at h
  split at h
  · cases h
  · split at h
    · cases h
    · split at h
      · exact (Prod.mk.inj h).1.symm
      · next header _ _ _ =>
          simp only at h
          cases hres : (pushFragments header fb.cache (pkt.drop recordLayerHeaderSize)).2 with
          | error e => rw [hres] at h; cases h
          | ok _ => rw [hres] at h; cases h

/-- What opens a packet of an epoch: nothing in the first one, then the keys. -/
inductive Opened (cipherSuite : Option CipherSuite) (h : RecordLayerHeader) (pkt : List UInt8) :
    List UInt8 → Prop
  | plain : h.epoch = 0 → Opened cipherSuite h pkt pkt
  | keys {suite : CipherSuite} {plain : List UInt8} : h.epoch ≠ 0 → cipherSuite = some suite →
      suite.isInitialized = true → suite.decrypt pkt = .ok plain →
      Opened cipherSuite h pkt plain

namespace Reader

/-- The cache only fails by a panic. -/
theorem cacheMessage_eq_error {setup : Setup D M} {cache : HandshakeCache}
    {out : List UInt8 × UInt16} {e : Stop Error} (h : cacheMessage setup cache out = .error e) :
    e = .panicked := by
  rw [cacheMessage] at h
  split at h
  · cases h
  · exact (Except.error.inj h).symm
  · cases h

theorem cacheMessages_eq_none {setup : Setup D M} {cache : HandshakeCache}
    {outs : List (List UInt8 × UInt16)} (h : (cacheMessages setup cache outs).2 ≠ some .panicked) :
    (cacheMessages setup cache outs).2 = none := by
  induction outs generalizing cache with
  | nil => rfl
  | cons out outs ih =>
      rw [cacheMessages] at h ⊢
      cases hcache : cacheMessage setup cache out with
      | ok cache' =>
          rw [hcache] at h
          exact ih h
      | error e =>
          rw [hcache, cacheMessage_eq_error hcache] at h
          exact absurd rfl h

/-- A packet of an epoch that is reached, with a number its detector lets through. -/
structure Fresh (setup : Setup D M) (ctx : ReaderContext D M) (pkt : List UInt8)
    (h : RecordLayerHeader) : Prop where
  read : ∃ tail, RecordLayerHeader.unmarshal pkt = .ok (h, tail)
  epoch : h.epoch ≤ ctx.remoteEpoch
  check : (ctx.check setup.detector h).1 = true

/-- What a packet can do. -/
inductive Handles (setup : Setup D M) (cipherSuite : Option CipherSuite)
    (ctx : ReaderContext D M) (pkt : List UInt8) : ReaderContext D M → Handled → Prop
  /-- It cannot be read, or is of an epoch that is too far ahead. -/
  | ignored : Handles setup cipherSuite ctx pkt ctx .nothing
  /-- It is of the next epoch. -/
  | early : Handles setup cipherSuite ctx pkt (ctx.queue pkt) .nothing
  /-- The detector saw it, and that is all. -/
  | dropped {h : RecordLayerHeader} (out : Handled) : h.epoch ≤ ctx.remoteEpoch → out.hs = false →
      Handles setup cipherSuite ctx pkt (ctx.check setup.detector h).2 out
  /-- There are no keys yet. -/
  | late {h : RecordLayerHeader} : h.epoch ≤ ctx.remoteEpoch →
      Handles setup cipherSuite ctx pkt ((ctx.check setup.detector h).2.queue pkt) .nothing
  /-- The fragment buffer is full, or a handshake header is not one. -/
  | broken {h : RecordLayerHeader} {plain : List UInt8} {fb : FragmentBuffer} {e : Stop Error} :
      Fresh setup ctx pkt h → Opened cipherSuite h pkt plain →
      ctx.fragmentBuffer.push plain = (fb, .error e) →
      Handles setup cipherSuite ctx pkt
        { (ctx.check setup.detector h).2 with fragmentBuffer := fb } .nothing
  | handshake {h : RecordLayerHeader} {plain : List UInt8} {fb : FragmentBuffer} :
      Fresh setup ctx pkt h → Opened cipherSuite h pkt plain →
      ctx.fragmentBuffer.push plain = (fb, .ok true) →
      Handles setup cipherSuite ctx pkt
        { (ctx.check setup.detector h).2.accept setup.detector h with
          fragmentBuffer := fb.popAll.1
          cache := (cacheMessages setup ctx.cache fb.popAll.2).1 }
        ⟨true, none, (cacheMessages setup ctx.cache fb.popAll.2).2⟩
  | alert {h : RecordLayerHeader} (out : Handled) : Fresh setup ctx pkt h → out.hs = false →
      Handles setup cipherSuite ctx pkt
        ((ctx.check setup.detector h).2.accept setup.detector h) out
  | changeCipherSpec {h rh : RecordLayerHeader} {plain tail : List UInt8} :
      Fresh setup ctx pkt h → Opened cipherSuite h pkt plain →
      RecordLayer.unmarshal setup.codec plain = .ok (⟨rh, .changeCipherSpec⟩, tail) →
      ctx.remoteEpoch + 1 = h.epoch + 1 → invalidCipherSuite cipherSuite = false →
      Handles setup cipherSuite ctx pkt
        (({ (ctx.check setup.detector h).2 with remoteEpoch := h.epoch + 1 }).accept
          setup.detector h) .nothing
  | applicationData {h rh : RecordLayerHeader} {plain data tail : List UInt8} :
      Fresh setup ctx pkt h → Opened cipherSuite h pkt plain → h.epoch ≠ 0 →
      RecordLayer.unmarshal setup.codec plain = .ok (⟨rh, .applicationData data⟩, tail) →
      Handles setup cipherSuite ctx pkt
        { (ctx.check setup.detector h).2.accept setup.detector h with
          decryptedTx := ctx.decryptedTx ++ [⟨h.epoch, h.sequenceNumber, data⟩] } .nothing

section

variable {setup : Setup D M} {cipherSuite : Option CipherSuite} {ctx : ReaderContext D M}
  {pkt plain : List UInt8} {h : RecordLayerHeader} {enqueue : Bool}

/-- A packet that opened and is no handshake record. -/
theorem handles_content (hfresh : Fresh setup ctx pkt h)
    (hopened : Opened cipherSuite h pkt plain) :
    Handles setup cipherSuite ctx pkt
      (handleContent setup cipherSuite (ctx.check setup.detector h).2 h ctx.remoteEpoch plain
        enqueue).1
      (handleContent setup cipherSuite (ctx.check setup.detector h).2 h ctx.remoteEpoch plain
        enqueue).2 := by
  rw [handleContent]
  split
  · exact .dropped _ hfresh.epoch rfl
  · next r tail hread =>
      obtain ⟨rh, content⟩ := r
      cases content with
      | alert a => exact .alert _ hfresh rfl
      | changeCipherSpec =>
          simp only
          split
          · next hinvalid =>
              -- a suite without keys opened nothing, so this is the first epoch
              cases hopened with
              | plain hzero =>
                  cases enqueue with
                  | true => exact .late hfresh.epoch
                  | false => exact .dropped _ hfresh.epoch rfl
              | keys _ hsuite hinit _ =>
                  subst hsuite
                  simp [invalidCipherSuite, hinit] at hinvalid
          · next hvalid =>
              split
              · next hmove =>
                  exact .changeCipherSpec hfresh hopened hread hmove (by simpa using hvalid)
              · exact .dropped _ hfresh.epoch rfl
      | applicationData data =>
          simp only
          split
          · exact .dropped _ hfresh.epoch rfl
          · next hepoch => exact .applicationData hfresh hopened hepoch hread
      | handshake _ => exact .dropped _ hfresh.epoch rfl

theorem handles_plain (hfresh : Fresh setup ctx pkt h) (hopened : Opened cipherSuite h pkt plain) :
    Handles setup cipherSuite ctx pkt
      (handlePlain setup cipherSuite (ctx.check setup.detector h).2 h ctx.remoteEpoch plain
        enqueue).1
      (handlePlain setup cipherSuite (ctx.check setup.detector h).2 h ctx.remoteEpoch plain
        enqueue).2 := by
  have hbuffer : (ctx.check setup.detector h).2.fragmentBuffer = ctx.fragmentBuffer := rfl
  rw [handlePlain, hbuffer]
  split
  · next fb e hpush => exact .broken hfresh hopened hpush
  · next fb hpush => exact .handshake hfresh hopened hpush
  · next fb hpush =>
      obtain rfl := FragmentBuffer.push_eq_false hpush
      exact handles_content hfresh hopened

/-- Every packet does one of these. -/
theorem handles_handleIncomingPacket (cipherSuite : Option CipherSuite)
    (ctx : ReaderContext D M) (pkt : List UInt8) (enqueue : Bool) :
    Handles setup cipherSuite ctx pkt
      (handleIncomingPacket setup cipherSuite ctx pkt enqueue).1
      (handleIncomingPacket setup cipherSuite ctx pkt enqueue).2 := by
  rw [handleIncomingPacket]
  split
  · exact .ignored
  · next h tail hread =>
      simp only
      split
      · split
        · exact .ignored
        · cases enqueue with
          | true => exact .early
          | false => exact .ignored
      · next hepoch =>
          have hreached := UInt16.not_lt.mp hepoch
          split
          · exact .dropped _ hreached rfl
          · next hcheck =>
              have hfresh : Fresh setup ctx pkt h :=
                ⟨⟨tail, hread⟩, hreached, by simpa using hcheck⟩
              split
              · next hne =>
                  split
                  · cases enqueue with
                    | true => exact .late hreached
                    | false => exact .dropped _ hreached rfl
                  · next hinvalid =>
                      split
                      · simp [invalidCipherSuite] at hinvalid
                      · next suite =>
                          split
                          · split
                            · exact .dropped _ hreached rfl
                            · exact .dropped _ hreached rfl
                          · next plain hdecrypt =>
                              refine handles_plain hfresh (.keys hne rfl ?_ hdecrypt)
                              simpa [invalidCipherSuite] using hinvalid
              · next hzero => exact handles_plain hfresh (.plain (not_not.mp hzero))

end

/-! ## From one packet to a datagram -/

/-- Whether the reader reads on after this: a fatal alert, the end of the connection and a panic
end it, other errors are only logged. -/
def exits {α : Type} : Result α → Bool
  | .error e => e = .err .alertFatalOrClose ∨ e = .panicked
  | .ok _ => false

theorem exits_map {α β : Type} (f : α → β) (result : Result α) :
    exits (result.map f) = exits result := by
  cases result <;> rfl

/-- A property `I` of the reader that every packet of a kind keeps, under the cipher suites that
can be there, unless its handling panics; what is queued is of this kind too.  Of a reader that
has exited there is at least `J`. -/
structure Kept (setup : Setup D M) (Suite : Option CipherSuite → Prop) (Packet : List UInt8 → Prop)
    (I J : ReaderContext D M → Prop) : Prop where
  handles : ∀ {cipherSuite ctx pkt ctx' out}, Suite cipherSuite → Packet pkt → I ctx →
    Handles setup cipherSuite ctx pkt ctx' out → J ctx' ∧ (out.err ≠ some .panicked → I ctx')
  weaken : ∀ {ctx}, I ctx → J ctx
  packetTx : ∀ {ctx} packetTx, I ctx → I { ctx with packetTx }
  exited : ∀ {ctx} packetTx, J ctx → J { ctx with packetTx }
  queued : ∀ {ctx}, I ctx → ∀ pkt ∈ ctx.encryptedPackets, Packet pkt
  drained : ∀ {ctx}, I ctx → I { ctx with encryptedPackets := [] }

/-- A property that every packet keeps, whether its handling panics or not. -/
theorem Kept.of_handles {setup : Setup D M} {Suite : Option CipherSuite → Prop}
    {Packet : List UInt8 → Prop} {I : ReaderContext D M → Prop}
    (handles : ∀ {cipherSuite ctx pkt ctx' out}, Suite cipherSuite → Packet pkt → I ctx →
      Handles setup cipherSuite ctx pkt ctx' out → I ctx')
    (packetTx : ∀ {ctx} packetTx, I ctx → I { ctx with packetTx })
    (queued : ∀ {ctx}, I ctx → ∀ pkt ∈ ctx.encryptedPackets, Packet pkt)
    (drained : ∀ {ctx}, I ctx → I { ctx with encryptedPackets := [] }) :
    Kept setup Suite Packet I I where
  handles hsuite hpkt h hstep :=
    ⟨handles hsuite hpkt h hstep, fun _ => handles hsuite hpkt h hstep⟩
  weaken := id
  packetTx := packetTx
  exited := packetTx
  queued := queued
  drained := drained

section

variable {setup : Setup D M} {Suite : Option CipherSuite → Prop} {Packet : List UInt8 → Prop}
  {I J : ReaderContext D M → Prop} {env : Env} {envs : List Env} {ctx : ReaderContext D M}
  {pkts : List (List UInt8)} {buf : List UInt8}

theorem Kept.handlePackets (hkept : Kept setup Suite Packet I J) (enqueue : Bool)
    (hsuite : Suite env.cipherSuite) (hpkts : ∀ pkt ∈ pkts, Packet pkt) (h : I ctx) :
    J (handlePackets setup env enqueue ctx pkts).1 ∧
      (exits (handlePackets setup env enqueue ctx pkts).2 = false →
        I (handlePackets setup env enqueue ctx pkts).1) := by
  induction pkts generalizing ctx with
  | nil => exact ⟨hkept.weaken h, fun _ => h⟩
  | cons pkt pkts ih =>
      obtain ⟨hexited, hfirst⟩ := hkept.handles hsuite (hpkts pkt (List.mem_cons_self ..)) h
        (handles_handleIncomingPacket env.cipherSuite ctx pkt enqueue)
      rw [Reader.handlePackets]
      simp only
      split
      · exact ⟨hkept.exited _ hexited, nofun⟩
      · split
        · next e herr =>
            refine ⟨hkept.exited _ hexited, fun hexits => hkept.packetTx _ (hfirst ?_)⟩
            rw [herr]
            rintro heq
            rw [Option.some.inj heq] at hexits
            contradiction
        · next herr =>
            have hgoing := hfirst (by rw [herr]; nofun)
            rw [exits_map]
            exact ih (fun p hp => hpkts p (List.mem_cons_of_mem pkt hp)) (hkept.packetTx _ hgoing)

theorem Kept.handleRequests (hkept : Kept setup Suite Packet I J)
    (hsuite : ∀ env ∈ envs, Suite env.cipherSuite) (h : I ctx) :
    J (handleRequests setup ctx envs).1 ∧
      (exits (handleRequests setup ctx envs).2 = false → I (handleRequests setup ctx envs).1) := by
  induction envs generalizing ctx with
  | nil => exact ⟨hkept.weaken h, fun _ => h⟩
  | cons env envs ih =>
      have hfirst := hkept.handlePackets false (hsuite env (List.mem_cons_self ..))
        (hkept.queued h) (hkept.drained h)
      rw [Reader.handleRequests]
      split
      · next hres =>
          rw [hres] at hfirst
          exact hfirst
      · next hres =>
          rw [hres] at hfirst
          exact ih (fun e he => hsuite e (List.mem_cons_of_mem env he)) (hfirst.2 rfl)

theorem Kept.readAndBuffer (hkept : Kept setup Suite Packet I J)
    (hsuite : ∀ e ∈ env :: envs, Suite e.cipherSuite)
    (hbuf : ∀ pkts, unpackDatagram buf = .ok pkts → ∀ pkt ∈ pkts, Packet pkt) (h : I ctx) :
    J (readAndBuffer setup env envs ctx buf).1 ∧
      (exits (readAndBuffer setup env envs ctx buf).2 = false →
        I (readAndBuffer setup env envs ctx buf).1) := by
  rw [Reader.readAndBuffer]
  split
  · exact ⟨hkept.weaken h, fun _ => h⟩
  · next pkts hpkts =>
      have hread := hkept.handlePackets true (hsuite env (List.mem_cons_self ..))
        (hbuf pkts hpkts) h
      split
      · next hres =>
          rw [hres] at hread
          exact hread
      · next hres =>
          rw [hres] at hread
          exact hkept.handleRequests (fun e he => hsuite e (List.mem_cons_of_mem env he))
            (hread.2 rfl)
      · next hres =>
          rw [hres] at hread
          exact hread

end

/-! ## The reader's life -/

/-- A datagram that came, with what the reader finds of the other half. -/
structure Datagram where
  env : Env
  requests : List Env
  buf : List UInt8

/-- The reader, until a fatal alert, the end of the connection or a panic stops it. -/
structure State (D M : Type) where
  ctx : ReaderContext D M
  exited : Bool

def State.new : State D M := ⟨.new, false⟩

/-- The loop around `read_and_buffer`. -/
def machine (setup : Setup D M) : Machine (State D M) Datagram where
  step s d :=
    if s.exited then none
    else
      let (ctx, result) := readAndBuffer setup d.env d.requests s.ctx d.buf
      some ⟨ctx, exits result⟩

theorem of_step {setup : Setup D M} {s s' : State D M} {d : Datagram}
    (h : (machine setup).step s d = some s') :
    s.exited = false ∧ s'.ctx = (readAndBuffer setup d.env d.requests s.ctx d.buf).1 ∧
      s'.exited = exits (readAndBuffer setup d.env d.requests s.ctx d.buf).2 := by
  rw [machine] at h
  simp only at h
  split at h
  · cases h
  · next hgoing =>
      rw [← Option.some.inj h]
      exact ⟨by simpa using hgoing, rfl, rfl⟩

end Reader

end RemoteBridge.Dtls
