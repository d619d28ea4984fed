import RemoteBridge.Dtls.Records

/-!
# Dtls.Cache

The handshake messages of both sides, `handshake_cache.rs`: what is kept, and what a flight
pulls of it.  The sequence numbers of the handshake only grow from 0, and are natural numbers.
-/

namespace RemoteBridge.Dtls

open Wire Bytes

variable {M : Type}

structure HandshakeCacheItem where
  typ : HandshakeType
  isClient : Bool
  epoch : UInt16
  messageSequence : UInt16
  data : List UInt8
deriving DecidableEq, Repr

/-- The cache of `handshake_cache.rs`: a message is kept once for its number and side. -/
abbrev HandshakeCache := List HandshakeCacheItem

structure HandshakeCachePullRule where
  typ : HandshakeType
  epoch : UInt16
  isClient : Bool
  optional : Bool

namespace HandshakeCache

def push (cache : HandshakeCache) (item : HandshakeCacheItem) : HandshakeCache :=
  if cache.any fun i => i.messageSequence == item.messageSequence && i.isClient == item.isClient then
    cache
  else cache ++ [item]

/-- The item is of the kind a rule asks for. -/
def Matches (r : HandshakeCachePullRule) (c : HandshakeCacheItem) : Prop :=
  c.typ = r.typ ∧ c.isClient = r.isClient ∧ c.epoch = r.epoch

instance (r : HandshakeCachePullRule) (c : HandshakeCacheItem) : Decidable (Matches r c) :=
  inferInstanceAs (Decidable (_ ∧ _ ∧ _))

/-- The item that is kept of two: a later one only with a higher number. -/
def better : Option HandshakeCacheItem → HandshakeCacheItem → HandshakeCacheItem
  | some x, c => if x.messageSequence < c.messageSequence then c else x
  | none, c => c

/-- The loop over the cache for one rule, with the item that was found so far. -/
def latestFrom (r : HandshakeCachePullRule) (item : Option HandshakeCacheItem) :
    HandshakeCache → Option HandshakeCacheItem
  | [] => item
  | c :: cache => latestFrom r (if Matches r c then some (better item c) else item) cache

/-- The first loop of `full_pull_map`: an item for each rule, unless one is missing that has to
be there. -/
def collect (cache : HandshakeCache) (ci : HandshakeType → Option HandshakeCacheItem) :
    List HandshakeCachePullRule → Result (HandshakeType → Option HandshakeCacheItem)
  | [] => .ok ci
  | r :: rules =>
      match cache.latestFrom r none with
      | some c => collect cache (Function.update ci r.typ (some c)) rules
      | none =>
          if r.optional then collect cache ci rules
          else .error (.err (.other "Missing mandatory message"))

/-- The second loop: the messages, whose numbers have to follow one another. -/
def parseFrom (codec : MessageCodec M) (ci : HandshakeType → Option HandshakeCacheItem) (seq : Nat)
    (out : HandshakeType → Option M) :
    List HandshakeCachePullRule → Result (Nat × (HandshakeType → Option M))
  | [] => .ok (seq, out)
  | r :: rules =>
      match ci r.typ with
      | none => parseFrom codec ci seq out rules
      | some i =>
          match Handshake.unmarshal codec i.data with
          | .error e => .error e
          | .ok (rawHandshake, _) =>
              if UInt16.ofNat seq ≠ rawHandshake.handshakeHeader.messageSequence then
                .error (.err (.other "There is a gap. Some messages are not arrived."))
              else
                parseFrom codec ci (seq + 1)
                  (Function.update out r.typ (some rawHandshake.handshakeMessage)) rules

def fullPullMap (codec : MessageCodec M) (cache : HandshakeCache) (startSeq : Nat)
    (rules : List HandshakeCachePullRule) : Result (Nat × (HandshakeType → Option M)) :=
  match cache.collect (fun _ => none) rules with
  | .error e => .error e
  | .ok ci => parseFrom codec ci startSeq (fun _ => none) rules

/-! ## What is kept -/

section

variable {cache : HandshakeCache} {item c : HandshakeCacheItem} {r : HandshakeCachePullRule}

/-- A message is dropped when its number is taken on its side, and kept behind the others
otherwise. -/
theorem push_cases (cache : HandshakeCache) (item : HandshakeCacheItem) :
    cache.push item = cache ∨
      (cache.push item = cache ++ [item] ∧ ∀ i ∈ cache, i.isClient = item.isClient →
        i.messageSequence ≠ item.messageSequence) := by
  rw [push]
  split
  · exact .inl rfl
  · next hnone =>
      refine .inr ⟨rfl, fun i hi hside hseq => hnone ?_⟩
      rw [List.any_eq_true]
      exact ⟨i, hi, by simp [hside, hseq]⟩

/-! ## What is pulled -/

theorem better_cases (item : Option HandshakeCacheItem) (c : HandshakeCacheItem) :
    (better item c = c ∨ item = some (better item c)) ∧
      c.messageSequence ≤ (better item c).messageSequence ∧
      ∀ x ∈ item, x.messageSequence ≤ (better item c).messageSequence := by
  cases item with
  | none => exact ⟨.inl rfl, UInt16.le_refl _, by simp⟩
  | some x =>
      rw [better]
      split
      · next hlt =>
          refine ⟨.inl rfl, UInt16.le_refl _, fun y hy => ?_⟩
          obtain rfl := Option.some.inj hy
          exact UInt16.le_of_lt hlt
      · next hge =>
          refine ⟨.inr rfl, UInt16.not_lt.mp hge, fun y hy => ?_⟩
          obtain rfl := Option.some.inj hy
          exact UInt16.le_refl _

/-- What the loop finds is of the kind, and nothing of the kind has a higher number. -/
theorem latestFrom_eq_some {item : Option HandshakeCacheItem} (hitem : ∀ x ∈ item, Matches r x)
    (h : cache.latestFrom r item = some c) :
    (c ∈ cache ∨ item = some c) ∧ Matches r c ∧
      (∀ i ∈ cache, Matches r i → i.messageSequence ≤ c.messageSequence) ∧
      ∀ x ∈ item, x.messageSequence ≤ c.messageSequence := by
  induction cache generalizing item with
  | nil =>
      rw [latestFrom] at h
      refine ⟨.inr h, hitem c h, by simp, fun x hx => ?_⟩
      obtain rfl := Option.some.inj (hx.symm.trans h)
      exact UInt16.le_refl _
  | cons d cache ih =>
      rw [latestFrom] at h
      split at h
      · next hd =>
          obtain ⟨hkept, hdle, hle⟩ := better_cases item d
          have hkeptMatches : Matches r (better item d) := by
            rcases hkept with heq | hsome
            · rwa [heq]
            · exact hitem _ hsome
          obtain ⟨hmem, hmatch, hall, hbetter⟩ :=
            ih (fun x hx => Option.some.inj hx ▸ hkeptMatches) h
          have hkeptLe := hbetter _ rfl
          refine ⟨?_, hmatch, ?_, fun x hx => UInt16.le_trans (hle x hx) hkeptLe⟩
          · rcases hmem with hmem | heq
            · exact .inl (List.mem_cons_of_mem _ hmem)
            · rw [← Option.some.inj heq]
              refine hkept.imp_left fun hd => ?_
              rw [hd]
              exact List.mem_cons_self ..
          · intro i hi hmi
            rcases List.mem_cons.mp hi with rfl | hi
            · exact UInt16.le_trans hdle hkeptLe
            · exact hall i hi hmi
      · next hd =>
          obtain ⟨hmem, hmatch, hall, hle⟩ := ih hitem h
          refine ⟨hmem.imp_left (List.mem_cons_of_mem _), hmatch, ?_, hle⟩
          intro i hi hmi
          rcases List.mem_cons.mp hi with rfl | hi
          · exact absurd hmi hd
          · exact hall i hi hmi

/-- The loop finds something when there is something of the kind. -/
theorem latestFrom_isSome (item : Option HandshakeCacheItem)
    (h : item.isSome ∨ ∃ c ∈ cache, Matches r c) : (cache.latestFrom r item).isSome := by
  induction cache generalizing item with
  | nil => exact h.resolve_right (by simp)
  | cons d cache ih =>
      rw [latestFrom]
      refine ih _ ?_
      split
      · exact .inl rfl
      · next hd =>
          refine h.imp_right fun ⟨c, hc, hmatch⟩ => ⟨c, ?_, hmatch⟩
          rcases List.mem_cons.mp hc with rfl | hc
          · exact absurd hmatch hd
          · exact hc

/-- One message that has to be there: the latest of its kind, with the number that is due. -/
theorem fullPullMap_singleton {codec : MessageCodec M} {n seq : Nat}
    {out : HandshakeType → Option M} (hmandatory : r.optional = false)
    (h : cache.fullPullMap codec n [r] = .ok (seq, out)) :
    ∃ c ∈ cache, ∃ rawHandshake tail, Matches r c ∧
      (∀ i ∈ cache, Matches r i → i.messageSequence ≤ c.messageSequence) ∧
      Handshake.unmarshal codec c.data = .ok (rawHandshake, tail) ∧
      rawHandshake.handshakeHeader.messageSequence = UInt16.ofNat n ∧ seq = n + 1 ∧
      out r.typ = some rawHandshake.handshakeMessage := by
  rw [fullPullMap, collect] at h
  cases hlatest : cache.latestFrom r none with
  | none =>
      rw [hlatest, hmandatory] at h
      cases h
  | some c =>
      obtain ⟨hmem, hmatch, hall, -⟩ := latestFrom_eq_some (by simp) hlatest
      rw [hlatest] at h
      simp only [collect, parseFrom, Function.update_self] at h
      split at h
      · cases h
      · next rawHandshake tail hread =>
          split at h
          · cases h
          · next hseq =>
              obtain ⟨rfl, rfl⟩ := Prod.mk.inj (Except.ok.inj h)
              exact ⟨c, hmem.resolve_right nofun, rawHandshake, tail, hmatch, hall, hread,
                (not_not.mp hseq).symm, rfl, Function.update_self ..⟩

/-- Such a message is pulled. -/
theorem fullPullMap_of_latest {codec : MessageCodec M} {n : Nat} {rawHandshake : Handshake M}
    {tail : List UInt8} (hlatest : cache.latestFrom r none = some c)
    (hread : Handshake.unmarshal codec c.data = .ok (rawHandshake, tail))
    (hseq : rawHandshake.handshakeHeader.messageSequence = UInt16.ofNat n) :
    cache.fullPullMap codec n [r] =
      .ok (n + 1, Function.update (fun _ => none) r.typ (some rawHandshake.handshakeMessage)) := by
  rw [fullPullMap, collect, hlatest]
  simp only [collect, parseFrom, Function.update_self, hread]
  rw [if_neg (not_not_intro hseq.symm)]

end

end HandshakeCache

end RemoteBridge.Dtls
