import Mathlib.Data.List.AList
import RemoteBridge.Dtls.Handshake

/-!
# Dtls.Fragments

The fragments of handshake messages: how a message is split for sending, and the buffer
that puts the fragments of received records together, `fragment_buffer/mod.rs`.
-/

namespace RemoteBridge.Dtls

open Wire Bytes

/-! ## The buffer -/

/-- 2 mb max buffer size. -/
def fragmentBufferMaxSize : Nat := 2000000

structure Fragment where
  recordLayerHeader : RecordLayerHeader
  handshakeHeader : HandshakeHeader
  data : List UInt8
deriving DecidableEq, Repr

namespace Fragment

/-- Where the fragment starts in its message. -/
def offset (f : Fragment) : Nat := f.handshakeHeader.fragmentOffset

/-- `fragment_end`: both numbers have 24 bits, so the sum has no more than 25. -/
def fragmentEnd (f : Fragment) : Nat :=
  f.handshakeHeader.fragmentOffset + f.handshakeHeader.fragmentLength

end Fragment

/-- The furthest start of a fragment. -/
def furthest : List Fragment → Nat
  | [] => 0
  | f :: frags => max f.offset (furthest frags)

theorem le_furthest {f : Fragment} {frags : List Fragment} (h : f ∈ frags) :
    f.offset ≤ furthest frags := by
  induction frags with
  | nil => cases h
  | cons g frags ih =>
      rw [furthest]
      rcases List.mem_cons.mp h with rfl | h
      · exact Nat.le_max_left ..
      · exact (ih h).trans (Nat.le_max_right ..)

/-- `append_message`: the message from `targetOffset` on, `none` for `false`.  The loop looks
for the first fragment that starts there. -/
def appendMessage (targetOffset : Nat) (frags : List Fragment) : Option (List UInt8) :=
  match _h : frags.find? fun f => f.handshakeHeader.fragmentOffset == targetOffset with
  | none => none
  | some f =>
      if f.fragmentEnd ≠ f.handshakeHeader.length ∧ f.handshakeHeader.fragmentLength ≠ 0 then
        (appendMessage f.fragmentEnd frags).map (f.data ++ ·)
      else some f.data
termination_by furthest frags + 1 - targetOffset
decreasing_by
  have hle := le_furthest (List.mem_of_find?_eq_some _h)
  have hstart : f.handshakeHeader.fragmentOffset = targetOffset := by
    simpa using List.find?_some _h
  simp only [Fragment.offset, Fragment.fragmentEnd] at *
  omega

section

variable {frags : List Fragment} {f : Fragment} {targetOffset : Nat}

theorem appendMessage_none
    (h : (frags.find? fun f => f.handshakeHeader.fragmentOffset == targetOffset) = none) :
    appendMessage targetOffset frags = none := by
  rw [appendMessage]
  split
  · rfl
  · next h' => rw [h] at h'; cases h'

theorem appendMessage_some
    (h : (frags.find? fun f => f.handshakeHeader.fragmentOffset == targetOffset) = some f) :
    appendMessage targetOffset frags =
      if f.fragmentEnd ≠ f.handshakeHeader.length ∧ f.handshakeHeader.fragmentLength ≠ 0 then
        (appendMessage f.fragmentEnd frags).map (f.data ++ ·)
      else some f.data := by
  rw [appendMessage]
  split
  · next h' => rw [h] at h'; cases h'
  · next h' => rw [Option.some.inj (h.symm.trans h')]

end

/-- The fragments by their message's sequence number. -/
abbrev FragmentCache := AList fun _ : UInt16 => List Fragment

/-- `entry(seq).or_default()` and the push. -/
def FragmentCache.push (cache : FragmentCache) (f : Fragment) : FragmentCache :=
  cache.insert f.handshakeHeader.messageSequence
    ((cache.lookup f.handshakeHeader.messageSequence).getD [] ++ [f])

structure FragmentBuffer where
  cache : FragmentCache
  currentMessageSequenceNumber : UInt16

namespace FragmentBuffer

def new : FragmentBuffer := ⟨∅, 0⟩

/-- The bytes held for one sequence number. -/
def held (frags : List Fragment) : Nat := (frags.map fun f => f.data.length).sum

def size (fb : FragmentBuffer) : Nat := (fb.cache.entries.map fun e => held e.2).sum

/-- `end`: the whole message, or the rest of the record when it holds a part of it. -/
def stop (handshakeHeader : HandshakeHeader) (buf : List UInt8) : Nat :=
  min (handshakeHeaderLength + handshakeHeader.length) buf.length

/-- The loop of `push` over the handshake messages of one record.  What was stored before an
error stays stored. -/
def pushFragments (h : RecordLayerHeader) (cache : FragmentCache) (buf : List UInt8) :
    FragmentCache × Result Unit :=
  if buf = [] then (cache, .ok ())
  else
    match _hread : HandshakeHeader.unmarshal buf with
    | .error e => (cache, .error e)
    | .ok (handshakeHeader, _) =>
        let data := (buf.take (stop handshakeHeader buf)).drop handshakeHeaderLength
        pushFragments h (cache.push ⟨h, handshakeHeader, data⟩) (buf.drop (stop handshakeHeader buf))
termination_by buf.length
decreasing_by
  have htakes := (HandshakeHeader.takes_unmarshal _ _ _ _hread).1
  simp only [handshakeHeaderLength, stop] at *
  rw [List.length_drop]
  omega

theorem pushFragments_nil (h : RecordLayerHeader) (cache : FragmentCache) :
    pushFragments h cache [] = (cache, .ok ()) := by
  rw [pushFragments, if_pos rfl]

theorem pushFragments_error {h : RecordLayerHeader} {cache : FragmentCache} {buf : List UInt8}
    {e : Stop Error} (hne : buf ≠ []) (hread : HandshakeHeader.unmarshal buf = .error e) :
    pushFragments h cache buf = (cache, .error e) := by
  rw [pushFragments, if_neg hne]
  split
  · next hread' => rw [Except.error.inj (hread.symm.trans hread')]
  · next hread' => rw [hread] at hread'; cases hread'

theorem pushFragments_ok {h : RecordLayerHeader} {cache : FragmentCache} {buf tail : List UInt8}
    {hs : HandshakeHeader} (hread : HandshakeHeader.unmarshal buf = .ok (hs, tail)) :
    pushFragments h cache buf =
      pushFragments h (cache.push ⟨h, hs, (buf.take (stop hs buf)).drop handshakeHeaderLength⟩)
        (buf.drop (stop hs buf)) := by
  have hne : buf ≠ [] := fun hnil => by
    have := (HandshakeHeader.takes_unmarshal _ _ _ hread).1
    simp [hnil, handshakeHeaderLength] at this
  rw [pushFragments, if_neg hne]
  split
  · next hread' => rw [hread] at hread'; cases hread'
  · next hread' => rw [(Prod.mk.inj (Except.ok.inj (hread.symm.trans hread'))).1]

/-- `push`: whether the record was a handshake record. -/
def push (fb : FragmentBuffer) (buf : List UInt8) : FragmentBuffer × Result Bool :=
  let currentSize := fb.size
  if currentSize + buf.length ≥ fragmentBufferMaxSize then
    (fb, .error (.err
      (.fragmentBufferOverflow (currentSize + buf.length) fragmentBufferMaxSize)))
  else
    match RecordLayerHeader.unmarshal buf with
    | .error e => (fb, .error e)
    | .ok (recordLayerHeader, _) =>
        if recordLayerHeader.contentType ≠ .handshake then (fb, .ok false)
        else
          let (cache, result) :=
            pushFragments recordLayerHeader fb.cache (buf.drop recordLayerHeaderSize)
          ({ fb with cache }, result.map fun _ => true)

/-- The header a popped message gets: its fragment is the whole of it. -/
def wholeHeader (h : HandshakeHeader) : HandshakeHeader :=
  { h with fragmentOffset := 0, fragmentLength := h.length }

/-- `pop`: the next message with its header as if it had not been split, and the epoch of
its first fragment. -/
def pop (fb : FragmentBuffer) : FragmentBuffer × Result (List UInt8 × UInt16) :=
  let seqNum := fb.currentMessageSequenceNumber
  match fb.cache.lookup seqNum with
  | none => (fb, .error (.err .emptyFragment))
  | some frags =>
      match appendMessage 0 frags with
      | none => (fb, .error (.err .emptyFragment))
      | some rawMessage =>
          match frags with
          | [] => (fb, .error .panicked)
          | first :: _ =>
              match (wholeHeader first.handshakeHeader).marshal with
              | .error _ => (fb, .error (.err .emptyFragment))
              | .ok rawHeader =>
                  (⟨fb.cache.erase seqNum, seqNum + 1⟩,
                    .ok (rawHeader ++ rawMessage, first.recordLayerHeader.epoch))

/-- What a `pop` that gives a message does: the fragments of the current number make a
message, and are forgotten. -/
theorem pop_eq_ok {fb fb' : FragmentBuffer} {out : List UInt8 × UInt16}
    (h : fb.pop = (fb', .ok out)) :
    ∃ first rest rawMessage, fb.cache.lookup fb.currentMessageSequenceNumber = some (first :: rest) ∧
      appendMessage 0 (first :: rest) = some rawMessage ∧
      fb' = ⟨fb.cache.erase fb.currentMessageSequenceNumber,
        fb.currentMessageSequenceNumber + 1⟩ ∧
      out = ((wholeHeader first.handshakeHeader).bytes ++ rawMessage,
        first.recordLayerHeader.epoch) := by
  rw [pop] at h
  split at h
  · cases h
  · next frags hlookup =>
      split at h
      · cases h
      · next rawMessage hmessage =>
          split at h
          · cases h
          · next first rest =>
              split at h
              · cases h
              · next rawHeader hheader =>
                  obtain ⟨rfl, heq⟩ := Prod.mk.inj h
                  obtain rfl := Except.ok.inj heq
                  rw [(HandshakeHeader.marshal_eq_ok.mp hheader).2]
                  exact ⟨first, rest, rawMessage, hlookup, hmessage, rfl, rfl⟩

/-- A `pop` that gives nothing changes nothing. -/
theorem pop_eq_error {fb fb' : FragmentBuffer} {e : Stop Error} (h : fb.pop = (fb', .error e)) :
    fb' = fb := by
  rw [pop] at h
  split at h
  · exact (Prod.mk.inj h).1.symm
  · split at h
    · exact (Prod.mk.inj h).1.symm
    · split at h
      · exact (Prod.mk.inj h).1.symm
      · split at h
        · exact (Prod.mk.inj h).1.symm
        · cases h

/-- The entries of a cache around one of them. -/
theorem entries_erase {cache : FragmentCache} {seq : UInt16} {frags : List Fragment}
    (h : cache.lookup seq = some frags) :
    ∃ l₁ l₂, cache.entries = l₁ ++ ⟨seq, frags⟩ :: l₂ ∧ (cache.erase seq).entries = l₁ ++ l₂ := by
  have hmem : seq ∈ cache.entries.keys :=
    List.dlookup_isSome.mp (Option.isSome_iff_exists.mpr ⟨frags, h⟩)
  obtain ⟨frags', l₁, l₂, hnot, heq, herase⟩ := List.exists_of_kerase hmem
  have hfrags : frags' = frags := by
    have hin : (⟨seq, frags'⟩ : Sigma fun _ : UInt16 => List Fragment) ∈ cache.entries := by
      rw [heq]
      exact List.mem_append_right _ (List.mem_cons_self ..)
    have hlookup := List.mem_dlookup cache.nodupKeys hin
    exact Option.some.inj ((Option.mem_def.mp hlookup).symm.trans h)
  exact ⟨l₁, l₂, hfrags ▸ heq, herase⟩

/-- `while let Ok(..) = pop()`: the messages that are complete. -/
def popAll (fb : FragmentBuffer) : FragmentBuffer × List (List UInt8 × UInt16) :=
  match _h : fb.pop with
  | (fb', .error _) => (fb', [])
  | (fb', .ok out) =>
      let rest := popAll fb'
      (rest.1, out :: rest.2)
termination_by fb.cache.entries.length
decreasing_by
  obtain ⟨first, rest, _, hlookup, _, rfl, _⟩ := pop_eq_ok _h
  obtain ⟨l₁, l₂, heq, herase⟩ := entries_erase hlookup
  rw [heq, herase]
  simp

/-- One packet, as `handle_incoming_packet` hands it to the buffer: the messages that a
handshake record completes. -/
def receive (fb : FragmentBuffer) (pkt : List UInt8) :
    FragmentBuffer × List (List UInt8 × UInt16) :=
  match fb.push pkt with
  | (fb', .ok true) => fb'.popAll
  | (fb', _) => (fb', [])

def receiveAll (fb : FragmentBuffer) : List (List UInt8) → FragmentBuffer × List (List UInt8 × UInt16)
  | [] => (fb, [])
  | pkt :: pkts =>
      let r := fb.receive pkt
      let rest := r.1.receiveAll pkts
      (rest.1, r.2 ++ rest.2)

end FragmentBuffer

end RemoteBridge.Dtls
