import RemoteBridge.Dtls.ClientHello
import RemoteBridge.Dtls.Records

/-!
# Dtls.Flight0

The server's answer to the first hello of a client, `flight/flight0.rs`: what it takes of what
the client offers.  The choice of the curve is the one place where this copy of the crate
differs from its origin.
-/

namespace RemoteBridge.Dtls

open Wire Bytes

/-! ## What is negotiated -/

/-- The curve of the pair that `generate_keypair` makes. -/
def NamedCurve.generateKeypair : NamedCurve → Except Error NamedCurve
  | x25519 => .ok x25519
  | p256 => .ok p256
  | p384 => .ok p384
  | unsupported => .error .invalidNamedCurve

inductive ExtendedMasterSecretType
  | request
  | require
  | disable
deriving DecidableEq, Repr

/-- `find_matching_srtp_profile` and `find_matching_cipher_suite`: the first of `a` that is in
`b` too. -/
def findMatching {α : Type} [DecidableEq α] (a b : List α) : Option α :=
  a.find? fun x => b.contains x

/-- What the handshake reads of its configuration. -/
structure HandshakeConfig where
  initialEpoch : UInt16
  localCipherSuites : List CipherSuiteId
  localSrtpProtectionProfiles : List SrtpProtectionProfile
  extendedMasterSecret : ExtendedMasterSecretType

/-- What the first flights read and write of the state. -/
structure State where
  handshakeRecvSequence : Nat
  cookie : List UInt8
  remoteRandom : HandshakeRandom
  cipherSuite : Option CipherSuiteId
  namedCurve : NamedCurve
  srtpProtectionProfile : SrtpProtectionProfile
  extendedMasterSecret : Bool
  serverName : String
  localKeypair : Option NamedCurve
deriving DecidableEq

/-- `State::default`. -/
def State.default : State := ⟨0, [], .default, none, .unsupported, .unsupported, false, "", none⟩

/-- Why a flight does not go on: an alert to send, and an error that ends the handshake. -/
structure Refusal where
  alert : Option Alert
  err : Option Error
deriving DecidableEq, Repr

namespace Flight0

def refuse {α : Type} (description : AlertDescription) (e : Error) : Except Refusal α :=
  .error ⟨some ⟨.fatal, description⟩, some e⟩

/-- The first curve of a list that is supported; without one the curve stays. -/
def pickCurve (namedCurve : NamedCurve) (ellipticCurves : List NamedCurve) : NamedCurve :=
  (ellipticCurves.find? fun curve => curve ≠ .unsupported).getD namedCurve

def applyExtension (cfg : HandshakeConfig) (s : State) : Extension → Except Refusal State
  | .supportedEllipticCurves ellipticCurves =>
      if ellipticCurves = [] then refuse .insufficientSecurity .noSupportedEllipticCurves
      else .ok { s with namedCurve := pickCurve s.namedCurve ellipticCurves }
  | .useSrtp protectionProfiles =>
      match findMatching protectionProfiles cfg.localSrtpProtectionProfiles with
      | some profile => .ok { s with srtpProtectionProfile := profile }
      | none => refuse .insufficientSecurity .serverNoMatchingSrtpProfile
  | .useExtendedMasterSecret _ =>
      if cfg.extendedMasterSecret ≠ .disable then .ok { s with extendedMasterSecret := true }
      else .ok s
  | .serverName name => .ok { s with serverName := name }
  | _ => .ok s

def applyExtensions (cfg : HandshakeConfig) (s : State) : List Extension → Except Refusal State
  | [] => .ok s
  | e :: es => (applyExtension cfg s e).bind fun s => applyExtensions cfg s es

/-- The end of it: extended master secrets, and a key pair for the curve. -/
def finish (cfg : HandshakeConfig) (s : State) : Except Refusal State :=
  if cfg.extendedMasterSecret = .require ∧ s.extendedMasterSecret = false then
    refuse .insufficientSecurity .serverRequiredButNoClientEms
  else
    match s.localKeypair with
    | some _ => .ok s
    | none =>
        match s.namedCurve.generateKeypair with
        | .error e => refuse .illegalParameter e
        | .ok localKeypair => .ok { s with localKeypair := some localKeypair }

/-- What `parse` does with the hello from the cache.  After an error the handshake ends, and
the state is of no use. -/
def parseHello (cfg : HandshakeConfig) (s : State) (clientHello : ClientHello) :
    Except Refusal State :=
  if clientHello.version ≠ protocolVersion12 then
    refuse .protocolVersion .unsupportedProtocolVersion
  else
    match findMatching clientHello.cipherSuites cfg.localCipherSuites with
    | none => refuse .insufficientSecurity .cipherSuiteNoIntersection
    | some id =>
        -- there is no cipher suite for an id that is not supported
        let cipherSuite := if id = .unsupported then s.cipherSuite else some id
        (applyExtensions cfg { s with remoteRandom := clientHello.random, cipherSuite }
          clientHello.extensions).bind (finish cfg)

/-- `generate`, with the cookie that is drawn at random. -/
def generate (drawn : List UInt8) (s : State) : State :=
  { s with cookie := drawn, namedCurve := .x25519 }

/-! ## What the extensions do -/

/-- What the last extension with such a value gives. -/
def last {β : Type} (value : Extension → Option β) (es : List Extension) : Option β :=
  (es.filterMap value).getLast?

/-- The first curve of an extension that is supported. -/
def curve? : Extension → Option NamedCurve
  | .supportedEllipticCurves ellipticCurves =>
      ellipticCurves.find? fun curve => curve ≠ .unsupported
  | _ => none

/-- The first profile of an extension that the server has too. -/
def profile? (cfg : HandshakeConfig) : Extension → Option SrtpProtectionProfile
  | .useSrtp protectionProfiles =>
      findMatching protectionProfiles cfg.localSrtpProtectionProfiles
  | _ => none

def name? : Extension → Option String
  | .serverName name => some name
  | _ => none

/-- An extension the server can accept. -/
def Accepts (cfg : HandshakeConfig) : Extension → Prop
  | .supportedEllipticCurves ellipticCurves => ellipticCurves ≠ []
  | .useSrtp protectionProfiles =>
      ∃ p ∈ protectionProfiles, p ∈ cfg.localSrtpProtectionProfiles
  | _ => True

/-- The server goes on with extended master secrets. -/
def Extends (cfg : HandshakeConfig) (s : State) (es : List Extension) : Prop :=
  s.extendedMasterSecret = true ∨
    (cfg.extendedMasterSecret ≠ .disable ∧ ∃ supported, .useExtendedMasterSecret supported ∈ es)

/-- What no extension changes. -/
def untouched (s : State) :
    Nat × List UInt8 × HandshakeRandom × Option CipherSuiteId × Option NamedCurve :=
  (s.handshakeRecvSequence, s.cookie, s.remoteRandom, s.cipherSuite, s.localKeypair)

/-- The state after extensions that were accepted: of each kind the last one counts. -/
structure Extended (cfg : HandshakeConfig) (s : State) (es : List Extension) (s' : State) :
    Prop where
  namedCurve : s'.namedCurve = (last curve? es).getD s.namedCurve
  srtpProtectionProfile :
    s'.srtpProtectionProfile = (last (profile? cfg) es).getD s.srtpProtectionProfile
  serverName : s'.serverName = (last name? es).getD s.serverName
  extendedMasterSecret : s'.extendedMasterSecret = true ↔ Extends cfg s es
  untouched : untouched s' = untouched s

section

variable {cfg : HandshakeConfig} {s s' s₁ : State} {e : Extension} {es : List Extension}

theorem last_cons {β : Type} (value : Extension → Option β) (e : Extension)
    (es : List Extension) : last value (e :: es) = (last value es).or (value e) := by
  rw [last, last, List.filterMap_cons]
  cases value e with
  | none => rw [Option.or_none]
  | some b =>
      rw [List.getLast?_cons]
      cases (es.filterMap value).getLast? <;> rfl

theorem getD_last_cons {β : Type} (value : Extension → Option β) (e : Extension)
    (es : List Extension) (b : β) :
    (last value (e :: es)).getD b = (last value es).getD ((value e).getD b) := by
  rw [last_cons]
  cases last value es <;> rfl

theorem findMatching_isSome {α : Type} [DecidableEq α] {a b : List α} :
    (findMatching a b).isSome ↔ ∃ x ∈ a, x ∈ b := by
  rw [findMatching, List.find?_isSome]
  simp

/-- One extension. -/
theorem Extended.singleton (hcurve : s'.namedCurve = (curve? e).getD s.namedCurve)
    (hprofile : s'.srtpProtectionProfile = (profile? cfg e).getD s.srtpProtectionProfile)
    (hname : s'.serverName = (name? e).getD s.serverName)
    (hems : s'.extendedMasterSecret = true ↔ Extends cfg s [e])
    (huntouched : Flight0.untouched s' = Flight0.untouched s) : Extended cfg s [e] s' where
  namedCurve := by rw [getD_last_cons]; exact hcurve
  srtpProtectionProfile := by rw [getD_last_cons]; exact hprofile
  serverName := by rw [getD_last_cons]; exact hname
  extendedMasterSecret := hems
  untouched := huntouched

/-- One extension: it is accepted or not, and says what it changes. -/
theorem applyExtension_cases (cfg : HandshakeConfig) (s : State) (e : Extension) :
    (¬ Accepts cfg e ∧ ∃ r, applyExtension cfg s e = .error r) ∨
      (Accepts cfg e ∧ ∃ s', applyExtension cfg s e = .ok s' ∧ Extended cfg s [e] s') := by
  cases e with
  | supportedEllipticCurves ellipticCurves =>
      rw [applyExtension]
      split
      · next hnil => exact .inl ⟨fun h => h hnil, _, rfl⟩
      · next hne => exact .inr ⟨hne, _, rfl, .singleton rfl rfl rfl (by simp [Extends]) rfl⟩
  | useSrtp protectionProfiles =>
      have hsome : (findMatching protectionProfiles cfg.localSrtpProtectionProfiles).isSome ↔ _ :=
        findMatching_isSome
      rw [applyExtension]
      split
      · next profile hfind =>
          rw [hfind] at hsome
          have hprofile : profile = (profile? cfg (.useSrtp protectionProfiles)).getD
              s.srtpProtectionProfile := by rw [profile?, hfind, Option.getD_some]
          exact .inr ⟨hsome.mp rfl, _, rfl, .singleton rfl hprofile rfl (by simp [Extends]) rfl⟩
      · next hfind =>
          rw [hfind] at hsome
          exact .inl ⟨fun h => by simpa using hsome.mpr h, _, rfl⟩
  | useExtendedMasterSecret supported =>
      rw [applyExtension]
      split
      · next hne =>
          exact .inr ⟨trivial, _, rfl, .singleton rfl rfl rfl (by simp [Extends, hne]) rfl⟩
      · next hdisable =>
          exact .inr ⟨trivial, s, rfl, .singleton rfl rfl rfl (by simp_all [Extends]) rfl⟩
  | serverName name => exact .inr ⟨trivial, _, rfl, .singleton rfl rfl rfl (by simp [Extends]) rfl⟩
  | supportedPointFormats | supportedSignatureAlgorithms | renegotiationInfo =>
      exact .inr ⟨trivial, s, rfl, .singleton rfl rfl rfl (by simp [Extends]) rfl⟩

theorem Extended.cons (h₁ : Extended cfg s [e] s₁) (h : Extended cfg s₁ es s') :
    Extended cfg s (e :: es) s' where
  namedCurve := by rw [h.namedCurve, h₁.namedCurve, getD_last_cons, getD_last_cons]; rfl
  srtpProtectionProfile := by
    rw [h.srtpProtectionProfile, h₁.srtpProtectionProfile, getD_last_cons, getD_last_cons]
    rfl
  serverName := by rw [h.serverName, h₁.serverName, getD_last_cons, getD_last_cons]; rfl
  extendedMasterSecret := by
    simp only [h.extendedMasterSecret, Extends, h₁.extendedMasterSecret, List.mem_cons,
      List.not_mem_nil, or_false, exists_or]
    tauto
  untouched := h.untouched.trans h₁.untouched

/-- All extensions: each has to be accepted. -/
theorem applyExtensions_cases (cfg : HandshakeConfig) (s : State) (es : List Extension) :
    (¬ (∀ e ∈ es, Accepts cfg e) ∧ ∃ r, applyExtensions cfg s es = .error r) ∨
      ((∀ e ∈ es, Accepts cfg e) ∧ ∃ s', applyExtensions cfg s es = .ok s' ∧
        Extended cfg s es s') := by
  induction es generalizing s with
  | nil => exact .inr ⟨by simp, s, rfl, rfl, rfl, rfl, by simp [Extends], rfl⟩
  | cons e es ih =>
      rcases applyExtension_cases cfg s e with ⟨hnot, r, hr⟩ | ⟨haccepts, s₁, hs₁, hextended₁⟩
      · refine .inl ⟨fun hall => hnot (hall e (List.mem_cons_self ..)), r, ?_⟩
        rw [applyExtensions, hr]
        rfl
      · have hgo : applyExtensions cfg s (e :: es) = applyExtensions cfg s₁ es := by
          rw [applyExtensions, hs₁]
          rfl
        rw [hgo]
        rcases ih s₁ with ⟨hnot, hr⟩ | ⟨hrest, s', hs', hextended⟩
        · exact .inl ⟨fun hall => hnot fun e' he' => hall e' (List.mem_cons_of_mem e he'), hr⟩
        · refine .inr ⟨fun e' he' => ?_, s', hs', hextended₁.cons hextended⟩
          rcases List.mem_cons.mp he' with rfl | he'
          · exact haccepts
          · exact hrest e' he'

/-- The curves that are taken are supported. -/
theorem last_curve_ne {namedCurve : NamedCurve} (h : namedCurve ≠ .unsupported)
    (es : List Extension) : (last curve? es).getD namedCurve ≠ .unsupported := by
  induction es generalizing namedCurve with
  | nil => exact h
  | cons e es ih =>
      rw [getD_last_cons]
      refine ih ?_
      cases e with
      | supportedEllipticCurves ellipticCurves =>
          rw [curve?]
          cases hfind : ellipticCurves.find? fun curve => curve ≠ .unsupported with
          | none => exact h
          | some curve => simpa using List.find?_some hfind
      | _ => exact h

theorem generateKeypair_eq_ok {namedCurve : NamedCurve} (h : namedCurve ≠ .unsupported) :
    namedCurve.generateKeypair = .ok namedCurve := by
  cases namedCurve with
  | unsupported => exact absurd rfl h
  | _ => rfl

/-- The end fails only when there are to be extended master secrets and are none; a key pair is
made once. -/
theorem finish_cases (cfg : HandshakeConfig) (hcurve : s.namedCurve ≠ .unsupported) :
    ((cfg.extendedMasterSecret = .require ∧ s.extendedMasterSecret = false) ∧
        ∃ r, finish cfg s = .error r) ∨
      (¬ (cfg.extendedMasterSecret = .require ∧ s.extendedMasterSecret = false) ∧
        finish cfg s = .ok { s with localKeypair := some (s.localKeypair.getD s.namedCurve) }) := by
  rw [finish]
  split
  · next hems => exact .inl ⟨hems, _, rfl⟩
  · next hems =>
      refine .inr ⟨hems, ?_⟩
      cases hkey : s.localKeypair with
      | none =>
          simp only
          rw [generateKeypair_eq_ok hcurve]
          rfl
      | some localKeypair =>
          have hsame : { s with localKeypair := some localKeypair } = s := by rw [← hkey]
          simp only [Option.getD_some]
          exact congrArg _ hsame.symm

end

/-! ## The hello -/

/-- What the server asks of a hello: the version, a common cipher suite, extensions it can
accept, and extended master secrets if it is to have them.  The curves in its lists are of no
matter, as long as no list is empty. -/
structure Acceptable (cfg : HandshakeConfig) (s : State) (clientHello : ClientHello) : Prop where
  version : clientHello.version = protocolVersion12
  cipherSuite : ∃ id ∈ clientHello.cipherSuites, id ∈ cfg.localCipherSuites
  extensions : ∀ e ∈ clientHello.extensions, Accepts cfg e
  extendedMasterSecret : cfg.extendedMasterSecret = .require → Extends cfg s clientHello.extensions

/-- The suite that the server takes of a hello. -/
def suite? (cfg : HandshakeConfig) (clientHello : ClientHello) : Option CipherSuiteId :=
  (findMatching clientHello.cipherSuites cfg.localCipherSuites).filter fun id => id ≠ .unsupported

/-- What was negotiated with a hello: the first suite that both have, and of the extensions the
last of each kind.  The curve is the first supported one of the last list that has one, and the
one that was there before if none has. -/
structure Negotiated (cfg : HandshakeConfig) (s : State) (clientHello : ClientHello) (s' : State) :
    Prop where
  remoteRandom : s'.remoteRandom = clientHello.random
  cipherSuite : s'.cipherSuite = (suite? cfg clientHello).or s.cipherSuite
  namedCurve : s'.namedCurve = (last curve? clientHello.extensions).getD s.namedCurve
  srtpProtectionProfile : s'.srtpProtectionProfile =
    (last (profile? cfg) clientHello.extensions).getD s.srtpProtectionProfile
  serverName : s'.serverName = (last name? clientHello.extensions).getD s.serverName
  extendedMasterSecret :
    s'.extendedMasterSecret = true ↔ Extends cfg s clientHello.extensions
  supported : s'.namedCurve ≠ .unsupported
  localKeypair : s'.localKeypair = some (s.localKeypair.getD s'.namedCurve)
  cookie : s'.cookie = s.cookie

section

variable {cfg : HandshakeConfig} {s s' s₁ : State} {clientHello : ClientHello}

theorem getD_getD {α : Type} (o : Option α) (a : α) : o.getD (o.getD a) = o.getD a := by
  cases o <;> rfl

/-- A hello that is taken again changes nothing of it. -/
theorem Negotiated.again (h₁ : Negotiated cfg s clientHello s₁)
    (h : Negotiated cfg s₁ clientHello s') : Negotiated cfg s clientHello s' := by
  have hcurve : s'.namedCurve = s₁.namedCurve := by
    rw [h.namedCurve, h₁.namedCurve, getD_getD]
  exact {
    remoteRandom := h.remoteRandom
    cipherSuite := by
      rw [h.cipherSuite, h₁.cipherSuite]
      cases suite? cfg clientHello <;> rfl
    namedCurve := hcurve.trans h₁.namedCurve
    srtpProtectionProfile := by
      rw [h.srtpProtectionProfile, h₁.srtpProtectionProfile, getD_getD]
    serverName := by rw [h.serverName, h₁.serverName, getD_getD]
    extendedMasterSecret := by
      rw [h.extendedMasterSecret, Extends, h₁.extendedMasterSecret, Extends]
      tauto
    supported := h.supported
    localKeypair := by rw [h.localKeypair, h₁.localKeypair, hcurve]; rfl
    cookie := h.cookie.trans h₁.cookie }

/-- The number that is due next has no part in it. -/
theorem Negotiated.renumbered (h : Negotiated cfg s clientHello s') (n m : Nat) :
    Negotiated cfg { s with handshakeRecvSequence := n } clientHello
      { s' with handshakeRecvSequence := m } where
  remoteRandom := h.remoteRandom
  cipherSuite := h.cipherSuite
  namedCurve := h.namedCurve
  srtpProtectionProfile := h.srtpProtectionProfile
  serverName := h.serverName
  extendedMasterSecret := h.extendedMasterSecret
  supported := h.supported
  localKeypair := h.localKeypair
  cookie := h.cookie

/-- A hello of the right version, with a suite in common: the extensions, then the end. -/
theorem parseHello_eq_bind {id : CipherSuiteId} (hversion : clientHello.version = protocolVersion12)
    (hfind : findMatching clientHello.cipherSuites cfg.localCipherSuites = some id) :
    parseHello cfg s clientHello =
      (applyExtensions cfg { s with
          remoteRandom := clientHello.random
          cipherSuite := (suite? cfg clientHello).or s.cipherSuite }
        clientHello.extensions).bind (finish cfg) := by
  rw [parseHello, if_neg (not_not_intro hversion), suite?, hfind]
  by_cases hid : id = .unsupported <;> simp [hid, Option.filter]

/-- A hello is refused, and not acceptable, or it is acceptable and gets a key pair. -/
theorem parseHello_cases (cfg : HandshakeConfig) (clientHello : ClientHello)
    (hcurve : s.namedCurve ≠ .unsupported) :
    (¬ Acceptable cfg s clientHello ∧ ∃ r, parseHello cfg s clientHello = .error r) ∨
      (Acceptable cfg s clientHello ∧ ∃ s', parseHello cfg s clientHello = .ok s' ∧
        Negotiated cfg s clientHello s' ∧ s'.handshakeRecvSequence = s.handshakeRecvSequence) := by
  have hsuite : (findMatching clientHello.cipherSuites cfg.localCipherSuites).isSome ↔ _ :=
    findMatching_isSome
  by_cases hversion : clientHello.version = protocolVersion12
  swap
  · exact .inl ⟨fun h => hversion h.version, _, by rw [parseHello, if_pos hversion]; rfl⟩
  cases hfind : findMatching clientHello.cipherSuites cfg.localCipherSuites with
  | none =>
      rw [hfind] at hsuite
      have hrefused : parseHello cfg s clientHello = .error
          ⟨some ⟨.fatal, .insufficientSecurity⟩, some .cipherSuiteNoIntersection⟩ := by
        rw [parseHello, if_neg (not_not_intro hversion), hfind]
        rfl
      exact .inl ⟨fun h => by simpa using hsuite.mpr h.cipherSuite, _, hrefused⟩
  | some id =>
      rw [hfind] at hsuite
      rw [parseHello_eq_bind hversion hfind]
      set s₀ := { s with
        remoteRandom := clientHello.random
        cipherSuite := (suite? cfg clientHello).or s.cipherSuite } with hs₀
      rcases applyExtensions_cases cfg s₀ clientHello.extensions with
        ⟨hnot, r, hr⟩ | ⟨haccepts, s₁, hs₁, hextended⟩
      · exact .inl ⟨fun h => hnot h.extensions, r, by rw [hr]; rfl⟩
      have hextends : s₁.extendedMasterSecret = true ↔ Extends cfg s clientHello.extensions :=
        hextended.extendedMasterSecret
      have hsupported : s₁.namedCurve ≠ .unsupported := by
        rw [hextended.namedCurve]
        exact last_curve_ne hcurve _
      rw [hs₁]
      rcases finish_cases cfg hsupported with ⟨⟨hrequire, hfalse⟩, r, hr⟩ | ⟨hems, hok⟩
      · refine .inl ⟨fun h => ?_, r, hr⟩
        rw [hextends.mpr (h.extendedMasterSecret hrequire)] at hfalse
        cases hfalse
      · obtain ⟨hrecv, hcookie, hrandom, hcipher, hkey⟩ : s₁.handshakeRecvSequence = _ ∧
            s₁.cookie = _ ∧ s₁.remoteRandom = _ ∧ s₁.cipherSuite = _ ∧ s₁.localKeypair = _ := by
          simpa [untouched] using hextended.untouched
        refine .inr ⟨⟨hversion, hsuite.mp rfl, haccepts, fun hrequire => ?_⟩, _, hok, {
          remoteRandom := hrandom
          cipherSuite := hcipher
          namedCurve := hextended.namedCurve
          srtpProtectionProfile := hextended.srtpProtectionProfile
          serverName := hextended.serverName
          extendedMasterSecret := hextends
          supported := hsupported
          localKeypair := ?_
          cookie := hcookie }, hrecv⟩
        · rw [← hextends]
          by_contra hfalse
          exact hems ⟨hrequire, by simpa using hfalse⟩
        · show some (s₁.localKeypair.getD s₁.namedCurve) = _
          rw [hkey]

/-- The number of the hello has no part in it. -/
theorem parseHello_ok {n : Nat} (hcurve : s.namedCurve ≠ .unsupported)
    (h : parseHello cfg { s with handshakeRecvSequence := n } clientHello = .ok s') :
    Acceptable cfg s clientHello ∧ Negotiated cfg s clientHello s' ∧
      s'.handshakeRecvSequence = n := by
  rcases parseHello_cases cfg clientHello (s := { s with handshakeRecvSequence := n }) hcurve with
    ⟨-, r, hr⟩ | ⟨⟨hversion, hsuite, hextensions, hems⟩, s'', hs'', hnegotiated, hrecv⟩
  · rw [hr] at h
    cases h
  · obtain rfl := Except.ok.inj (hs''.symm.trans h)
    exact ⟨⟨hversion, hsuite, hextensions, hems⟩,
      hnegotiated.renumbered s.handshakeRecvSequence s''.handshakeRecvSequence, hrecv⟩

/-- **Unknown curves do no harm**: from a state with a supported curve, as the flight makes it,
a hello gets its answer exactly when it is acceptable, whatever curves it lists; what is
negotiated has a supported curve, and a key pair, of this curve if there was none before. -/
theorem parseHello_ok_iff (hcurve : s.namedCurve ≠ .unsupported) :
    ((∃ s', parseHello cfg s clientHello = .ok s') ↔ Acceptable cfg s clientHello) ∧
      ∀ s', parseHello cfg s clientHello = .ok s' → Negotiated cfg s clientHello s' := by
  rcases parseHello_cases cfg clientHello hcurve with ⟨hnot, r, hr⟩ | ⟨haccept, s', hs', hnegotiated, -⟩
  · have hnone (s' : State) : parseHello cfg s clientHello ≠ .ok s' := by
      intro h
      rw [hr] at h
      cases h
    exact ⟨⟨fun ⟨s', h⟩ => absurd h (hnone s'), fun h => absurd h hnot⟩, fun s' h => absurd h (hnone s')⟩
  · rw [hs']
    refine ⟨⟨fun _ => haccept, fun _ => ⟨s', rfl⟩⟩, fun s'' h => ?_⟩
    rwa [← Except.ok.inj h]

theorem parseHello_ok_iff_sample :
    let cfg : HandshakeConfig := ⟨0, [.tlsEcdheEcdsaWithAes128GcmSha256], [], .require⟩
    let s := generate [4, 2] .default
    ((∃ s', parseHello cfg s (.sample []) = .ok s') ↔ Acceptable cfg s (.sample [])) ∧
      ∀ s', parseHello cfg s (.sample []) = .ok s' → Negotiated cfg s (.sample []) s' :=
  parseHello_ok_iff nofun

end

end Flight0

end RemoteBridge.Dtls
