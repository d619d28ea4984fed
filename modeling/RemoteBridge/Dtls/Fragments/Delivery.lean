import RemoteBridge.Dtls.Fragments.Bounds
import RemoteBridge.Reassembly

/-!
# Dtls.Fragments.Delivery

Messages that one sender splits and any network carries: the fragment buffer gives these
messages, unchanged and in the sender's order, and each as soon as all of its pieces came.
-/

namespace RemoteBridge.Dtls

open Wire Bytes Reassembly

/-! ## Fragments as pieces -/

/-- The part of a message a fragment holds. -/
def Fragment.piece (f : Fragment) : Piece UInt8 := ⟨f.handshakeHeader.fragmentOffset, f.data⟩

/-- With fragments of one message, each as long as it says, the buffer walks along their
pieces. -/
theorem appendMessage_eq_walk {frags : List Fragment} {total : Nat}
    (h : ∀ f ∈ frags, f.handshakeHeader.length = total ∧
      f.handshakeHeader.fragmentLength = f.data.length) (start : Nat) :
    appendMessage start frags = walk total (frags.map Fragment.piece) start := by
  have hfind (start : Nat) : ((frags.map Fragment.piece).find? fun p => p.offset == start) =
      (frags.find? fun f => f.handshakeHeader.fragmentOffset == start).map Fragment.piece :=
    List.find?_map ..
  have hstep {start : Nat} {f : Fragment}
      (hsome : (frags.find? fun f => f.handshakeHeader.fragmentOffset == start) = some f) :
      f.handshakeHeader.length = total ∧ f.handshakeHeader.fragmentLength = f.data.length ∧
        f.fragmentEnd = start + f.data.length := by
    obtain ⟨hlen, hflen⟩ := h f (List.mem_of_find?_eq_some hsome)
    have hoff : f.handshakeHeader.fragmentOffset = start := by simpa using List.find?_some hsome
    exact ⟨hlen, hflen, by rw [Fragment.fragmentEnd, hoff, hflen]⟩
  induction start using appendMessage.induct frags with
  | case1 start hnone =>
      rw [appendMessage_none hnone, walk_none (by rw [hfind, hnone, Option.map_none])]
  | case2 start f hsome hgo ih =>
      obtain ⟨hlen, hflen, hend⟩ := hstep hsome
      have hpiece : ((frags.map Fragment.piece).find? fun p => p.offset == start) =
          some f.piece := by rw [hfind, hsome, Option.map_some]
      rw [appendMessage_some hsome, if_pos hgo, ih, walk_some hpiece]
      rw [hend, hlen, hflen] at hgo
      rw [if_pos (show start + f.piece.data.length ≠ total ∧ f.piece.data.length ≠ 0 from hgo), hend]
      rfl
  | case3 start f hsome hgo =>
      obtain ⟨hlen, hflen, hend⟩ := hstep hsome
      have hpiece : ((frags.map Fragment.piece).find? fun p => p.offset == start) =
          some f.piece := by rw [hfind, hsome, Option.map_some]
      rw [appendMessage_some hsome, if_neg hgo, walk_some hpiece]
      rw [hend, hlen, hflen] at hgo
      exact (if_neg (show ¬ (start + f.piece.data.length ≠ total ∧ f.piece.data.length ≠ 0)
        from hgo)).symm

/-! ## A sender's messages -/

/-- A handshake message as its sender splits it: message number `i` of a list has sequence
number `i`. -/
structure Msg where
  handshakeType : HandshakeType
  body : List UInt8
  epoch : UInt16

namespace Msg

/-- The header of one piece. -/
def header (m : Msg) (seq : UInt16) (p : Piece UInt8) : HandshakeHeader :=
  ⟨m.handshakeType, m.body.length, seq, p.offset, p.data.length⟩

/-- The message with its header, and its epoch: what the receiver is to get. -/
def whole (m : Msg) (seq : UInt16) : List UInt8 × UInt16 :=
  ((m.header seq ⟨0, m.body⟩).bytes ++ m.body, m.epoch)

end Msg

/-- What the receiver is to get of all messages, in order. -/
def wholes (msgs : List Msg) : List (List UInt8 × UInt16) :=
  msgs.zipIdx.map fun x => x.1.whole (UInt16.ofNat x.2)

/-- What a sender can send: the sequence numbers and the lengths fit. -/
structure Sendable (mtu : Nat) (msgs : List Msg) : Prop where
  mtu_pos : 0 < mtu
  few : msgs.length < 2 ^ 16
  short : ∀ m ∈ msgs, m.body.length < 256 ^ 3

/-- The record carries the piece `p` of message number `i`, in a header with any record
number. -/
structure Carried (mtu : Nat) (msgs : List Msg) (i : Nat) (p : Piece UInt8) (r : List UInt8) :
    Prop where
  exists_record : ∃ (m : Msg) (rh : RecordLayerHeader), msgs[i]? = some m ∧ IsPiece mtu m.body p ∧
    rh.Supported ∧ rh.sequenceNumber ≤ maxSequenceNumber ∧ rh.contentType = .handshake ∧
    rh.epoch = m.epoch ∧ r = rh.bytes ++ ((m.header (UInt16.ofNat i) p).bytes ++ p.data)

/-- A fragment the buffer keeps of a message. -/
structure FragmentOf (mtu : Nat) (m : Msg) (seq : UInt16) (f : Fragment) : Prop where
  piece : IsPiece mtu m.body f.piece
  header : f.handshakeHeader = m.header seq f.piece
  epoch : f.recordLayerHeader.epoch = m.epoch

section

variable {mtu : Nat} {msgs : List Msg} {m : Msg} {seq : UInt16} {frags : List Fragment}
  {fb : FragmentBuffer}

theorem ofNat_inj {i j : Nat} (hi : i < 2 ^ 16) (hj : j < 2 ^ 16)
    (h : UInt16.ofNat i = UInt16.ofNat j) : i = j := by
  have := congrArg UInt16.toNat h
  rwa [UInt16.toNat_ofNat_of_lt' hi, UInt16.toNat_ofNat_of_lt' hj] at this

theorem getElem?_wholes {k : Nat} (h : msgs[k]? = some m) :
    (wholes msgs)[k]? = some (m.whole (UInt16.ofNat k)) := by
  rw [wholes, List.getElem?_map, List.getElem?_zipIdx, h]
  simp

/-- The header of a piece of a message that fits. -/
theorem Msg.header_fits {p : Piece UInt8} (hlen : m.body.length < 256 ^ 3)
    (hp : IsPiece mtu m.body p) (seq : UInt16) : (m.header seq p).Fits := by
  have hoff := hp.2.1
  have hdata : p.data.length ≤ m.body.length := by
    rw [hp.2.2, List.length_take, List.length_drop]
    omega
  exact ⟨hlen, by simp only [Msg.header]; omega, by simp only [Msg.header]; omega⟩

theorem appendMessage_of_fragmentOf (hf : ∀ f ∈ frags, FragmentOf mtu m seq f) :
    appendMessage 0 frags = walk m.body.length (frags.map Fragment.piece) 0 := by
  refine appendMessage_eq_walk (fun f hmem => ?_) 0
  rw [(hf f hmem).header]
  exact ⟨rfl, rfl⟩

theorem isPiece_of_mem_map (hf : ∀ f ∈ frags, FragmentOf mtu m seq f) :
    ∀ p ∈ frags.map Fragment.piece, IsPiece mtu m.body p := by
  intro p hp
  obtain ⟨f, hmem, rfl⟩ := List.mem_map.mp hp
  exact (hf f hmem).piece

namespace FragmentBuffer

/-- The fragments held for a sequence number. -/
def fragments (fb : FragmentBuffer) (seq : UInt16) : List Fragment :=
  (fb.cache.lookup seq).getD []

/-- The fragments of the current message. -/
def current (fb : FragmentBuffer) : List Fragment := fb.fragments fb.currentMessageSequenceNumber

/-- All pieces of the current message are there: it comes out whole. -/
theorem pop_of_complete (hmtu : 0 < mtu) (hlen : m.body.length < 256 ^ 3)
    (hf : ∀ f ∈ fb.current, FragmentOf mtu m fb.currentMessageSequenceNumber f)
    (hall : Complete mtu m.body (fb.current.map Fragment.piece)) :
    fb.pop = (⟨fb.cache.erase fb.currentMessageSequenceNumber,
      fb.currentMessageSequenceNumber + 1⟩, .ok (m.whole fb.currentMessageSequenceNumber)) := by
  have hmessage : appendMessage 0 fb.current = some m.body := by
    rw [appendMessage_of_fragmentOf hf, walk_zero_of_complete hmtu (isPiece_of_mem_map hf) hall]
  have hfirst := hall _ (isPiece_pieceAt (Nat.dvd_zero mtu) (.inr rfl))
  cases hlookup : fb.cache.lookup fb.currentMessageSequenceNumber with
  | none => simp [current, fragments, hlookup] at hfirst
  | some frags =>
      have hcur : fb.current = frags := by rw [current, fragments, hlookup, Option.getD_some]
      rw [hcur] at hmessage hf hfirst
      cases frags with
      | nil => simp at hfirst
      | cons first rest =>
          obtain ⟨hpiece, hheader, hepoch⟩ := hf first (List.mem_cons_self ..)
          have hwhole : wholeHeader first.handshakeHeader =
              m.header fb.currentMessageSequenceNumber ⟨0, m.body⟩ := by
            rw [hheader]
            rfl
          have hfits : (wholeHeader first.handshakeHeader).Fits := by
            rw [hwhole]
            exact ⟨hlen, by simp [Msg.header], hlen⟩
          rw [pop, hlookup]
          simp only [hmessage, HandshakeHeader.marshal_of_fits hfits]
          rw [hwhole, hepoch]
          rfl

/-- The fragments of the current message do not make one: nothing comes out. -/
theorem pop_of_none (h : appendMessage 0 fb.current = none) :
    fb.pop = (fb, .error (.err .emptyFragment)) := by
  rw [pop]
  cases hlookup : fb.cache.lookup fb.currentMessageSequenceNumber with
  | none => rfl
  | some frags =>
      rw [current, fragments, hlookup, Option.getD_some] at h
      simp only [h]

/-- A piece of the current message is missing. -/
theorem pop_of_not_complete (hmtu : 0 < mtu)
    (hf : ∀ f ∈ fb.current, FragmentOf mtu m fb.currentMessageSequenceNumber f)
    (hmiss : ¬ Complete mtu m.body (fb.current.map Fragment.piece)) :
    fb.pop = (fb, .error (.err .emptyFragment)) := by
  refine pop_of_none ?_
  rw [appendMessage_of_fragmentOf hf,
    walk_zero_of_not_complete hmtu (isPiece_of_mem_map hf) hmiss]

theorem pop_of_nil (h : fb.current = []) : fb.pop = (fb, .error (.err .emptyFragment)) := by
  refine pop_of_none ?_
  rw [h, appendMessage_none rfl]

theorem popAll_of_error {fb' : FragmentBuffer} {e : Stop Error} (h : fb.pop = (fb', .error e)) :
    fb.popAll = (fb', []) := by
  rw [popAll]
  split
  · next h' => rw [(Prod.mk.inj (h.symm.trans h')).1]
  · next h' => rw [h] at h'; cases (Prod.mk.inj h').2

theorem popAll_of_ok {fb' : FragmentBuffer} {out : List UInt8 × UInt16}
    (h : fb.pop = (fb', .ok out)) : fb.popAll = (fb'.popAll.1, out :: fb'.popAll.2) := by
  rw [popAll]
  split
  · next h' => rw [h] at h'; cases (Prod.mk.inj h').2
  · next h' =>
      obtain ⟨rfl, heq⟩ := Prod.mk.inj (h.symm.trans h')
      rw [Except.ok.inj heq]

theorem fragments_push {f : Fragment} (seq : UInt16) :
    fragments { fb with cache := fb.cache.push f } seq =
      if seq = f.handshakeHeader.messageSequence then fb.fragments seq ++ [f]
      else fb.fragments seq := by
  rw [fragments, FragmentCache.push]
  by_cases h : seq = f.handshakeHeader.messageSequence
  · rw [if_pos h, h, AList.lookup_insert, Option.getD_some, fragments]
  · rw [if_neg h, AList.lookup_insert_ne h, fragments]

theorem fragments_erase {seq seq' : UInt16} (c : UInt16) (h : seq ≠ seq') :
    fragments ⟨fb.cache.erase seq', c⟩ seq = fb.fragments seq := by
  rw [fragments, AList.lookup_erase_ne h, fragments]

end FragmentBuffer

end

/-! ## What a carried record says -/

section

variable {mtu : Nat} {msgs : List Msg} {i j : Nat} {p q : Piece UInt8} {r : List UInt8}

theorem Carried.read (hs : Sendable mtu msgs) (h : Carried mtu msgs i p r) :
    ∃ m rh, msgs[i]? = some m ∧ IsPiece mtu m.body p ∧ rh.contentType = .handshake ∧
      rh.epoch = m.epoch ∧ (∃ tail, RecordLayerHeader.unmarshal r = .ok (rh, tail)) ∧
      r.drop recordLayerHeaderSize = (m.header (UInt16.ofNat i) p).bytes ++ p.data ∧
      HandshakeHeader.unmarshal (r.drop recordLayerHeaderSize) =
        .ok (m.header (UInt16.ofNat i) p, p.data) := by
  obtain ⟨m, rh, hm, hp, hv, hseq, htype, hepoch, rfl⟩ := h.exists_record
  have hdrop : (rh.bytes ++ ((m.header (UInt16.ofNat i) p).bytes ++ p.data)).drop
      recordLayerHeaderSize = (m.header (UInt16.ofNat i) p).bytes ++ p.data := by
    rw [← rh.length_bytes, List.drop_left]
  have hfits := Msg.header_fits (hs.short m (List.mem_of_getElem? hm)) hp (UInt16.ofNat i)
  refine ⟨m, rh, hm, hp, htype, hepoch, ⟨_, RecordLayerHeader.reads_bytes hv hseq _⟩, hdrop, ?_⟩
  rw [hdrop]
  exact HandshakeHeader.reads_bytes hfits p.data

/-- A record carries one piece of one message. -/
theorem Carried.unique (hs : Sendable mtu msgs) (h : Carried mtu msgs i p r)
    (h' : Carried mtu msgs j q r) : i = j ∧ p = q := by
  obtain ⟨m, rh, hm, -, -, -, -, -, hread⟩ := h.read hs
  obtain ⟨m', rh', hm', -, -, -, -, -, hread'⟩ := h'.read hs
  obtain ⟨hheader, hdata⟩ := Prod.mk.inj (Except.ok.inj (hread.symm.trans hread'))
  have hi := (List.getElem?_eq_some_iff.mp hm).1
  have hj := (List.getElem?_eq_some_iff.mp hm').1
  have hfew := hs.few
  refine ⟨ofNat_inj (hi.trans hfew) (hj.trans hfew)
    (congrArg HandshakeHeader.messageSequence hheader), ?_⟩
  obtain ⟨offset, data⟩ := p
  obtain ⟨offset', data'⟩ := q
  exact congrArg₂ Piece.mk (congrArg HandshakeHeader.fragmentOffset hheader) hdata

/-- A carried record is stored, when there is room for it. -/
theorem FragmentBuffer.push_of_carried {fb : FragmentBuffer} (hs : Sendable mtu msgs)
    (h : Carried mtu msgs i p r) (hroom : fb.size + r.length < fragmentBufferMaxSize) :
    ∃ m f, msgs[i]? = some m ∧ FragmentOf mtu m (UInt16.ofNat i) f ∧ f.piece = p ∧
      fb.push r = ({ fb with cache := fb.cache.push f }, .ok true) := by
  obtain ⟨m, rh, hm, hp, htype, hepoch, ⟨tail, hrh⟩, hdrop, hread⟩ := h.read hs
  refine ⟨m, ⟨rh, m.header (UInt16.ofNat i) p, p.data⟩, hm, ⟨hp, rfl, hepoch⟩, rfl, ?_⟩
  have hle : p.data.length ≤ m.body.length := by
    rw [hp.2.2, List.length_take, List.length_drop]
    omega
  have hlen : (r.drop recordLayerHeaderSize).length = handshakeHeaderLength + p.data.length := by
    rw [hdrop, List.length_append, HandshakeHeader.length_bytes]
  -- the whole record is one fragment
  have hstop : stop (m.header (UInt16.ofNat i) p) (r.drop recordLayerHeaderSize) =
      (r.drop recordLayerHeaderSize).length := by
    have hlength : (m.header (UInt16.ofNat i) p).length = m.body.length := rfl
    rw [stop, hlength]
    omega
  rw [push, if_neg (by omega), hrh]
  simp only [htype, ne_eq, not_true_eq_false, if_false]
  rw [pushFragments_ok hread, hstop, List.take_length, List.drop_length, pushFragments_nil]
  have hdata : (r.drop recordLayerHeaderSize).drop handshakeHeaderLength = p.data := by
    rw [hdrop, ← (m.header (UInt16.ofNat i) p).length_bytes, List.drop_left]
  rw [hdata]
  rfl

end

/-! ## The receiver -/

/-- Every piece of the message is among those that came. -/
def AllGot (mtu : Nat) (msgs : List Msg) (got : Nat → Piece UInt8 → Prop) (i : Nat) : Prop :=
  ∀ m, msgs[i]? = some m → ∀ p, IsPiece mtu m.body p → got i p

/-- The buffer gave the first `k` messages and holds, of the others, the pieces that came. -/
structure Holds (mtu : Nat) (msgs : List Msg) (got : Nat → Piece UInt8 → Prop) (k : Nat)
    (fb : FragmentBuffer) : Prop where
  le : k ≤ msgs.length
  current : fb.currentMessageSequenceNumber = UInt16.ofNat k
  stored : ∀ i m, k ≤ i → msgs[i]? = some m → ∀ f ∈ fb.fragments (UInt16.ofNat i),
    FragmentOf mtu m (UInt16.ofNat i) f
  mem_iff : ∀ i m p, k ≤ i → msgs[i]? = some m →
    (p ∈ (fb.fragments (UInt16.ofNat i)).map Fragment.piece ↔ got i p)
  beyond : fb.fragments (UInt16.ofNat msgs.length) = []
  given : ∀ i, i < k → AllGot mtu msgs got i

section

variable {mtu : Nat} {msgs : List Msg} {m : Msg} {i k : Nat} {p : Piece UInt8} {r : List UInt8}
  {fb : FragmentBuffer} {got : Nat → Piece UInt8 → Prop}

theorem holds_new : Holds mtu msgs (fun _ _ => False) 0 .new where
  le := Nat.zero_le _
  current := rfl
  stored _ _ _ _ f hf := absurd hf (by simp [FragmentBuffer.fragments, FragmentBuffer.new])
  mem_iff _ _ _ _ _ := by simp [FragmentBuffer.fragments, FragmentBuffer.new]
  beyond := rfl
  given i hi := absurd hi (Nat.not_lt_zero i)

namespace Holds

theorem fragments_current (h : Holds mtu msgs got k fb) :
    fb.current = fb.fragments (UInt16.ofNat k) := by rw [FragmentBuffer.current, h.current]

/-- The next message is complete as soon as all its pieces came. -/
theorem complete_iff (h : Holds mtu msgs got k fb) (hm : msgs[k]? = some m) :
    Complete mtu m.body (fb.current.map Fragment.piece) ↔ AllGot mtu msgs got k := by
  rw [h.fragments_current]
  constructor
  · intro hall m' hm' p hp
    obtain rfl := Option.some.inj (hm.symm.trans hm')
    exact (h.mem_iff k m p (Nat.le_refl k) hm).mp (hall p hp)
  · intro hall p hp
    exact (h.mem_iff k m p (Nat.le_refl k) hm).mpr (hall m hm p hp)

/-- One message comes out. -/
theorem pop (hs : Sendable mtu msgs) (h : Holds mtu msgs got k fb) (hm : msgs[k]? = some m)
    (hall : AllGot mtu msgs got k) :
    ∃ fb', fb.pop = (fb', .ok (m.whole (UInt16.ofNat k))) ∧ Holds mtu msgs got (k + 1) fb' := by
  have hk := (List.getElem?_eq_some_iff.mp hm).1
  have hfew := hs.few
  have hpop := FragmentBuffer.pop_of_complete hs.mtu_pos (hs.short m (List.mem_of_getElem? hm))
    (by rw [h.fragments_current, h.current]; exact h.stored k m (Nat.le_refl k) hm)
    ((h.complete_iff hm).mpr hall)
  rw [h.current] at hpop
  -- the fragments of later messages stay as they are
  have hlater (i : Nat) (hi : k < i) (hle : i ≤ msgs.length) :
      FragmentBuffer.fragments ⟨fb.cache.erase (UInt16.ofNat k), UInt16.ofNat k + 1⟩
        (UInt16.ofNat i) = fb.fragments (UInt16.ofNat i) := by
    refine FragmentBuffer.fragments_erase _ fun heq => ?_
    have := ofNat_inj (by omega) (by omega) heq
    omega
  refine ⟨_, hpop, ?_⟩
  exact {
    le := hk
    current := by rw [UInt16.ofNat_add]; rfl
    stored := fun i m' hi hm' f hf => by
      rw [hlater i (by omega) (List.getElem?_eq_some_iff.mp hm').1.le] at hf
      exact h.stored i m' (by omega) hm' f hf
    mem_iff := fun i m' p hi hm' => by
      rw [hlater i (by omega) (List.getElem?_eq_some_iff.mp hm').1.le]
      exact h.mem_iff i m' p (by omega) hm'
    beyond := by rw [hlater _ (by omega) (Nat.le_refl _), h.beyond]
    given := fun i hi => by
      by_cases hik : i = k
      · exact hik ▸ hall
      · exact h.given i (by omega) }

/-- Nothing comes out while a piece of the next message is missing, or after the last one. -/
theorem pop_error (hs : Sendable mtu msgs) (h : Holds mtu msgs got k fb)
    (hwait : ∀ m, msgs[k]? = some m → ¬ AllGot mtu msgs got k) :
    fb.pop = (fb, .error (.err .emptyFragment)) := by
  cases hm : msgs[k]? with
  | none =>
      refine FragmentBuffer.pop_of_nil ?_
      have hk : k = msgs.length := Nat.le_antisymm h.le (List.getElem?_eq_none_iff.mp hm)
      rw [h.fragments_current, hk, h.beyond]
  | some m =>
      refine FragmentBuffer.pop_of_not_complete (m := m) hs.mtu_pos ?_ ?_
      · rw [h.fragments_current, h.current]
        exact h.stored k m (Nat.le_refl k) hm
      · rw [h.complete_iff hm]
        exact hwait m hm

end Holds

/-- The messages from number `k` up to number `j`. -/
def between (msgs : List Msg) (k j : Nat) : List (List UInt8 × UInt16) :=
  ((wholes msgs).drop k).take (j - k)

theorem between_append {a b c : Nat} (hab : a ≤ b) (hbc : b ≤ c) :
    between msgs a b ++ between msgs b c = between msgs a c := by
  have hsum : c - a = (b - a) + (c - b) := by omega
  have hstart : a + (b - a) = b := by omega
  rw [between, between, between, hsum, List.take_add, List.drop_drop, hstart]

theorem between_succ {j : Nat} (hm : msgs[k]? = some m) (hj : k < j) :
    between msgs k j = m.whole (UInt16.ofNat k) :: between msgs (k + 1) j := by
  have hsub : j - k = (j - (k + 1)) + 1 := by omega
  have hget := getElem?_wholes hm
  obtain ⟨hlt, hval⟩ := List.getElem?_eq_some_iff.mp hget
  rw [between, between, List.drop_eq_getElem_cons hlt, hsub, List.take_succ_cons, hval]

/-- The next messages come out as far as all pieces came, and no further. -/
theorem Holds.popAll (hs : Sendable mtu msgs) (h : Holds mtu msgs got k fb) :
    ∃ j, k ≤ j ∧ Holds mtu msgs got j fb.popAll.1 ∧ fb.popAll.2 = between msgs k j ∧
      ∀ m, msgs[j]? = some m → ¬ AllGot mtu msgs got j := by
  induction hn : msgs.length - k generalizing k fb with
  | zero =>
      have hnone : msgs[k]? = none := List.getElem?_eq_none_iff.mpr (by omega)
      have hwait : ∀ m, msgs[k]? = some m → ¬ AllGot mtu msgs got k := by simp [hnone]
      rw [FragmentBuffer.popAll_of_error (h.pop_error hs hwait)]
      exact ⟨k, Nat.le_refl k, h, by simp [between], hwait⟩
  | succ n ih =>
      obtain ⟨m, hm⟩ : ∃ m, msgs[k]? = some m :=
        ⟨_, List.getElem?_eq_getElem (show k < msgs.length by omega)⟩
      by_cases hall : AllGot mtu msgs got k
      · obtain ⟨fb', hpop, hnext⟩ := h.pop hs hm hall
        obtain ⟨j, hj, hholds, houts, hwait⟩ := ih hnext (by omega)
        rw [FragmentBuffer.popAll_of_ok hpop]
        exact ⟨j, by omega, hholds, by rw [houts, between_succ hm (by omega)], hwait⟩
      · rw [FragmentBuffer.popAll_of_error (h.pop_error hs fun _ _ => hall)]
        exact ⟨k, Nat.le_refl k, h, by simp [between], fun _ _ => hall⟩

/-- A stored fragment is one more piece that came. -/
theorem Holds.push {f : Fragment} (hs : Sendable mtu msgs) (h : Holds mtu msgs got k fb)
    (hm : msgs[i]? = some m) (hf : FragmentOf mtu m (UInt16.ofNat i) f) :
    Holds mtu msgs (fun j q => got j q ∨ (j = i ∧ q = f.piece)) k
      { fb with cache := fb.cache.push f } := by
  have hfew := hs.few
  have hi := (List.getElem?_eq_some_iff.mp hm).1
  have hseq : f.handshakeHeader.messageSequence = UInt16.ofNat i := by rw [hf.header]; rfl
  have hfragments (j : Nat) (hj : j ≤ msgs.length) :
      FragmentBuffer.fragments { fb with cache := fb.cache.push f } (UInt16.ofNat j) =
        if j = i then fb.fragments (UInt16.ofNat j) ++ [f] else fb.fragments (UInt16.ofNat j) := by
    rw [FragmentBuffer.fragments_push, hseq]
    by_cases hji : j = i
    · rw [if_pos hji, if_pos (by rw [hji])]
    · rw [if_neg hji, if_neg fun heq => hji (ofNat_inj (by omega) (by omega) heq)]
  exact {
    le := h.le
    current := h.current
    stored := fun j m' hj hm' g hg => by
      rw [hfragments j (List.getElem?_eq_some_iff.mp hm').1.le] at hg
      split at hg
      · next hji =>
          rcases List.mem_append.mp hg with hg | hg
          · exact h.stored j m' hj hm' g hg
          · obtain rfl := List.mem_singleton.mp hg
            subst hji
            rwa [← Option.some.inj (hm.symm.trans hm')]
      · exact h.stored j m' hj hm' g hg
    mem_iff := fun j m' p hj hm' => by
      rw [hfragments j (List.getElem?_eq_some_iff.mp hm').1.le]
      have hold := h.mem_iff j m' p hj hm'
      split
      · next hji =>
          rw [List.map_append, List.mem_append, hold]
          simp [hji]
      · next hji => simp only [hold, hji, false_and, or_false]
    beyond := by rw [hfragments _ (Nat.le_refl _), if_neg (by omega), h.beyond]
    given := fun j hj m' hm' p hp => .inl (h.given j hj m' hm' p hp) }

/-- The receiver between two packets. -/
structure Settled (mtu : Nat) (msgs : List Msg) (got : Nat → Piece UInt8 → Prop) (k : Nat)
    (fb : FragmentBuffer) : Prop where
  holds : Holds mtu msgs got k fb
  waits : ∀ m, msgs[k]? = some m → ¬ AllGot mtu msgs got k

/-- At the start every message lacks its first piece. -/
theorem settled_new : Settled mtu msgs (fun _ _ => False) 0 .new where
  holds := holds_new
  waits m hm hall := hall m hm _ (isPiece_pieceAt (Nat.dvd_zero mtu) (.inr rfl))

/-- One packet: it counts as come unless the buffer is full. -/
theorem Settled.receive (hs : Sendable mtu msgs) (h : Settled mtu msgs got k fb)
    (hr : Carried mtu msgs i p r) :
    ∃ (got' : Nat → Piece UInt8 → Prop) (j : Nat), k ≤ j ∧
      Settled mtu msgs got' j (fb.receive r).1 ∧ (fb.receive r).2 = between msgs k j ∧
      (∀ a q, got' a q → got a q ∨ Carried mtu msgs a q r) ∧
      (fb.size + r.length < fragmentBufferMaxSize →
        ∀ a q, got a q ∨ Carried mtu msgs a q r → got' a q) := by
  by_cases hroom : fb.size + r.length < fragmentBufferMaxSize
  · obtain ⟨m, f, hm, hf, hpiece, hpush⟩ := FragmentBuffer.push_of_carried hs hr hroom
    obtain ⟨j, hj, hholds, houts, hwait⟩ := (h.holds.push hs hm hf).popAll hs
    rw [FragmentBuffer.receive, hpush]
    refine ⟨_, j, hj, ⟨hholds, hwait⟩, houts, ?_, fun _ => ?_⟩
    · rintro a q (hgot | ⟨rfl, rfl⟩)
      · exact .inl hgot
      · exact .inr (hpiece ▸ hr)
    · rintro a q (hgot | hcarried)
      · exact .inl hgot
      · obtain ⟨rfl, rfl⟩ := hcarried.unique hs hr
        exact .inr ⟨rfl, hpiece.symm⟩
  · have hpush : fb.push r = (fb, .error (.err
        (.fragmentBufferOverflow (fb.size + r.length) fragmentBufferMaxSize))) := by
      rw [FragmentBuffer.push, if_pos (by omega)]
    rw [FragmentBuffer.receive, hpush]
    exact ⟨got, k, Nat.le_refl k, h, by simp [between], fun _ _ => .inl,
      fun hroom' => absurd hroom' hroom⟩

/-- None of the packets finds the buffer full. -/
def FragmentBuffer.HasRoom (fb : FragmentBuffer) : List (List UInt8) → Prop
  | [] => True
  | pkt :: pkts => fb.size + pkt.length < fragmentBufferMaxSize ∧ HasRoom (fb.receive pkt).1 pkts

theorem Settled.receiveAll (hs : Sendable mtu msgs) (rs : List (List UInt8))
    (h : Settled mtu msgs got k fb) (hrs : ∀ r ∈ rs, ∃ i p, Carried mtu msgs i p r) :
    ∃ (got' : Nat → Piece UInt8 → Prop) (j : Nat), k ≤ j ∧
      Settled mtu msgs got' j (fb.receiveAll rs).1 ∧ (fb.receiveAll rs).2 = between msgs k j ∧
      (∀ a q, got' a q → got a q ∨ ∃ r ∈ rs, Carried mtu msgs a q r) ∧
      (fb.HasRoom rs → ∀ a q, (got a q ∨ ∃ r ∈ rs, Carried mtu msgs a q r) → got' a q) := by
  induction rs generalizing got k fb with
  | nil =>
      exact ⟨got, k, Nat.le_refl k, h, by simp [FragmentBuffer.receiveAll, between],
        fun _ _ => .inl, by simp⟩
  | cons r rs ih =>
      obtain ⟨i, p, hr⟩ := hrs r (List.mem_cons_self ..)
      obtain ⟨got₁, j₁, hj₁, hsettled₁, houts₁, hupper₁, hlower₁⟩ := h.receive hs hr
      obtain ⟨got₂, j₂, hj₂, hsettled₂, houts₂, hupper₂, hlower₂⟩ :=
        ih hsettled₁ fun r hr => hrs r (List.mem_cons_of_mem _ hr)
      refine ⟨got₂, j₂, hj₁.trans hj₂, hsettled₂, ?_, ?_, ?_⟩
      · rw [← between_append hj₁ hj₂, ← houts₁, ← houts₂]
        rfl
      · intro a q hgot
        rcases hupper₂ a q hgot with hgot | ⟨s, hmem, hs⟩
        · rcases hupper₁ a q hgot with hgot | hcarried
          · exact .inl hgot
          · exact .inr ⟨r, List.mem_cons_self .., hcarried⟩
        · exact .inr ⟨s, List.mem_cons_of_mem _ hmem, hs⟩
      · rintro ⟨hroom, hrest⟩ a q hgot
        refine hlower₂ hrest a q ?_
        rcases hgot with hgot | ⟨s, hmem, hs⟩
        · exact .inl (hlower₁ hroom a q (.inl hgot))
        · rcases List.mem_cons.mp hmem with rfl | hmem
          · exact .inl (hlower₁ hroom a q (.inr hs))
          · exact .inr ⟨s, hmem, hs⟩

/-- **Handshake messages arrive whole and in order**, from whatever records with their pieces
come, in any order and as often as they come: what the buffer gives is the first messages of
the sender, of which every piece came.  Unless it was full at some point, the next message
lacks a piece. -/
theorem receiveAll_of_carried (hs : Sendable mtu msgs) (rs : List (List UInt8))
    (hrs : ∀ r ∈ rs, ∃ i p, Carried mtu msgs i p r) :
    ∃ k ≤ msgs.length, (FragmentBuffer.new.receiveAll rs).2 = (wholes msgs).take k ∧
      (∀ i < k, ∀ m, msgs[i]? = some m → ∀ p, IsPiece mtu m.body p →
        ∃ r ∈ rs, Carried mtu msgs i p r) ∧
      (FragmentBuffer.new.HasRoom rs → ∀ m, msgs[k]? = some m →
        ∃ p, IsPiece mtu m.body p ∧ ∀ r ∈ rs, ¬ Carried mtu msgs k p r) := by
  obtain ⟨got, k, -, hsettled, houts, hupper, hlower⟩ := settled_new.receiveAll hs rs hrs
  refine ⟨k, hsettled.holds.le, by simpa [between] using houts, ?_, ?_⟩
  · intro i hi m hm p hp
    rcases hupper i p (hsettled.holds.given i hi m hm p hp) with hfalse | hcarried
    · exact hfalse.elim
    · exact hcarried
  · intro hroom m hm
    by_contra hall
    refine hsettled.waits m hm fun m' hm' p hp => ?_
    obtain rfl := Option.some.inj (hm.symm.trans hm')
    refine hlower hroom k p (.inr ?_)
    by_contra hnone
    refine hall ⟨p, hp, fun r hr hcarried => hnone ⟨r, hr, hcarried⟩⟩

end

/-- Message number `i` as a record with its piece at `offset`. -/
def pieceRecord (mtu : Nat) (m : Msg) (i : Nat) (seq : Nat) (offset : Nat) : List UInt8 :=
  let p := pieceAt mtu m.body offset
  RecordLayerHeader.bytes ⟨.handshake, protocolVersion12, m.epoch, seq,
    UInt16.ofNat (handshakeHeaderLength + p.data.length)⟩ ++
      ((m.header (UInt16.ofNat i) p).bytes ++ p.data)

theorem carried_pieceRecord {mtu i seq offset : Nat} {msgs : List Msg} {m : Msg}
    (hm : msgs[i]? = some m) (hoffset : mtu ∣ offset) (hlt : offset < m.body.length ∨ offset = 0)
    (hseq : seq ≤ maxSequenceNumber) :
    Carried mtu msgs i (pieceAt mtu m.body offset) (pieceRecord mtu m i seq offset) :=
  ⟨m, _, hm, isPiece_pieceAt hoffset hlt, .inr rfl, hseq, rfl, rfl, rfl⟩

/-- A message in two pieces and an empty one. -/
def pieced : List Msg := [⟨.finished, [1, 2, 3], 0⟩, ⟨.serverHelloDone, [], 0⟩]

theorem sendable_pieced : Sendable 2 pieced := ⟨by decide, by decide, by decide⟩

/-- They come in the wrong order, and one of the pieces twice. -/
theorem receiveAll_of_carried_pieced :
    let rs := [pieceRecord 2 ⟨.serverHelloDone, [], 0⟩ 1 2 0,
      pieceRecord 2 ⟨.finished, [1, 2, 3], 0⟩ 0 1 2, pieceRecord 2 ⟨.finished, [1, 2, 3], 0⟩ 0 3 2,
      pieceRecord 2 ⟨.finished, [1, 2, 3], 0⟩ 0 0 0]
    (FragmentBuffer.new.receiveAll rs).2 = wholes pieced ∧
      ∃ k ≤ pieced.length, (FragmentBuffer.new.receiveAll rs).2 = (wholes pieced).take k ∧
        (∀ i < k, ∀ m, pieced[i]? = some m → ∀ p, IsPiece 2 m.body p →
          ∃ r ∈ rs, Carried 2 pieced i p r) ∧
        (FragmentBuffer.new.HasRoom rs → ∀ m, pieced[k]? = some m →
          ∃ p, IsPiece 2 m.body p ∧ ∀ r ∈ rs, ¬ Carried 2 pieced k p r) := by
  intro rs
  refine ⟨by decide +kernel, receiveAll_of_carried sendable_pieced rs ?_⟩
  intro r hr
  simp only [rs, List.mem_cons, List.not_mem_nil, or_false] at hr
  rcases hr with rfl | rfl | rfl | rfl
  · exact ⟨1, _, carried_pieceRecord rfl (by decide) (.inr rfl) (by decide)⟩
  · exact ⟨0, _, carried_pieceRecord rfl (by decide) (.inl (by decide)) (by decide)⟩
  · exact ⟨0, _, carried_pieceRecord rfl (by decide) (.inl (by decide)) (by decide)⟩
  · exact ⟨0, _, carried_pieceRecord rfl (by decide) (.inr rfl) (by decide)⟩

end RemoteBridge.Dtls
