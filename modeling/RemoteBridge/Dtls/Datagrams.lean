import Mathlib.Data.List.Induction
import RemoteBridge.Dtls

/-!
# Dtls.Datagrams

Records that share a datagram come apart again as they went in.
-/

namespace RemoteBridge.Dtls

open Wire Bytes

/-- A header and as many bytes as it announces. -/
def Whole (r : List UInt8) : Prop :=
  recordLayerHeaderSize ≤ r.length ∧
    r.length = recordLayerHeaderSize + bigEndian ((r.drop (recordLayerHeaderSize - 2)).take 2)

/-- A record that carries something. -/
def Carries (r : List UInt8) : Prop := recordLayerHeaderSize < r.length

section

variable {r buf : List UInt8} {rs : List (List UInt8)}

theorem unpackDatagram_nil : unpackDatagram [] = .ok [] := by
  rw [unpackDatagram, if_pos rfl]

/-- A first record is split off by the length in its header. -/
theorem unpackDatagram_append (hr : Whole r) (hlen : recordLayerHeaderSize < (r ++ buf).length) :
    unpackDatagram (r ++ buf) = (unpackDatagram buf).bind fun out => .ok (r :: out) := by
  have hne : r ++ buf ≠ [] := by
    intro h
    simp [h] at hlen
  have hfield : ((r ++ buf).drop (recordLayerHeaderSize - 2)).take 2 =
      (r.drop (recordLayerHeaderSize - 2)).take 2 := by
    have hle := hr.1
    simp only [recordLayerHeaderSize] at hle ⊢
    rw [List.drop_append_of_le_length (by omega), List.take_append_of_le_length]
    rw [List.length_drop]
    omega
  rw [unpackDatagram, if_neg hne, if_neg (Nat.not_le_of_lt hlen)]
  simp only [hfield, ← hr.2]
  rw [if_neg (by simp), List.drop_left, List.take_left]
  rfl

/-- What is unpacked are the records, end to end, the last one not empty. -/
theorem unpackDatagram_flatten (hwhole : ∀ r ∈ rs, Whole r)
    (hlast : ∀ r ∈ rs.getLast?, Carries r) : unpackDatagram rs.flatten = .ok rs := by
  induction rs with
  | nil => exact unpackDatagram_nil
  | cons r rs ih =>
      have hr := hwhole r (List.mem_cons_self ..)
      have hlen : recordLayerHeaderSize < (r ++ rs.flatten).length := by
        rw [List.length_append]
        rcases List.eq_nil_or_concat rs with rfl | ⟨init, last, rfl⟩
        · have := hlast r (by simp)
          rw [Carries] at this
          omega
        · have := hlast last (by
            rw [List.concat_eq_append, ← List.cons_append, List.getLast?_concat]; rfl)
          rw [Carries] at this
          simp only [List.concat_eq_append, List.flatten_append, List.length_append,
            List.flatten_singleton]
          omega
      have htail := ih (fun x hx => hwhole x (List.mem_cons_of_mem r hx)) fun x hx => by
        refine hlast x ?_
        cases rs with
        | nil => simp at hx
        | cons y rs => rwa [List.getLast?_cons_cons]
      rw [List.flatten_cons, unpackDatagram_append hr hlen, htail]
      rfl

/-- What a header announces, when it is there. -/
theorem whole_take {n : Nat}
    (hn : n = recordLayerHeaderSize + bigEndian ((buf.drop (recordLayerHeaderSize - 2)).take 2))
    (hfits : n ≤ buf.length) : Whole (buf.take n) := by
  have hlen : (buf.take n).length = n := by
    rw [List.length_take]
    omega
  have hfield : ((buf.take n).drop (recordLayerHeaderSize - 2)).take 2 =
      (buf.drop (recordLayerHeaderSize - 2)).take 2 := by
    rw [List.drop_take, List.take_take, Nat.min_eq_left]
    rw [hn]
    simp only [recordLayerHeaderSize]
    omega
  refine ⟨?_, ?_⟩
  · rw [hlen, hn]
    exact Nat.le_add_right ..
  · rw [hlen, hfield]
    exact hn

theorem unpackDatagram_sound (h : unpackDatagram buf = .ok rs) :
    buf = rs.flatten ∧ (∀ r ∈ rs, Whole r) ∧ ∀ r ∈ rs.getLast?, Carries r := by
  fun_induction unpackDatagram buf generalizing rs with
  | case1 =>
      cases h
      exact ⟨rfl, by simp, by simp⟩
  | case2 => cases h
  | case3 => cases h
  | case4 buf _ hshort pktLen hfits =>
      rename_i ih
      obtain ⟨out, hout, rfl⟩ : ∃ out, unpackDatagram (buf.drop pktLen) = .ok out ∧
          buf.take pktLen :: out = rs := by
        cases hrest : unpackDatagram (buf.drop pktLen) with
        | error e => rw [hrest] at h; cases h
        | ok out => rw [hrest] at h; cases h; exact ⟨out, rfl, rfl⟩
      obtain ⟨hflat, hwhole, hlast⟩ := ih hout
      have hrec : Whole (buf.take pktLen) := whole_take rfl (by omega)
      refine ⟨?_, ?_, ?_⟩
      · rw [List.flatten_cons, ← hflat, List.take_append_drop]
      · intro r hr
        rcases List.mem_cons.mp hr with rfl | hr
        · exact hrec
        · exact hwhole r hr
      · intro r hr
        cases out with
        | nil =>
            -- the only record is the whole buffer, which is long enough
            have hall : buf.drop pktLen = [] := hflat
            have hle := List.drop_eq_nil_iff.mp hall
            obtain rfl : buf.take pktLen = r := by simpa using hr
            rw [Carries, List.take_of_length_le hle]
            omega
        | cons x out => exact hlast r (by rwa [List.getLast?_cons_cons] at hr)

/-- **A datagram is accepted exactly when it is whole records end to end**, the last of
which carries something. -/
theorem unpackDatagram_eq_ok_iff :
    unpackDatagram buf = .ok rs ↔
      buf = rs.flatten ∧ (∀ r ∈ rs, Whole r) ∧ ∀ r ∈ rs.getLast?, Carries r := by
  constructor
  · exact unpackDatagram_sound
  · rintro ⟨rfl, hwhole, hlast⟩
    exact unpackDatagram_flatten hwhole hlast

end

/-! ## Filling datagrams -/

/-- The datagrams so far and the open one, as records. -/
structure Filled (mtu : Nat) (acc : List (List UInt8) × List UInt8)
    (groups : List (List (List UInt8))) (current : List (List UInt8)) : Prop where
  closed : acc.1 = groups.map List.flatten
  filling : acc.2 = current.flatten
  small : ∀ g ∈ groups, g.length ≤ 1 ∨ g.flatten.length < mtu
  room : current.length ≤ 1 ∨ current.flatten.length < mtu

/-- A packet goes into the open datagram or opens a new one. -/
theorem Filled.compactRawPacket {mtu : Nat} {acc : List (List UInt8) × List UInt8}
    {groups : List (List (List UInt8))} {current : List (List UInt8)}
    (h : Filled mtu acc groups current) (hne : ∀ r ∈ current, r ≠ []) (p : List UInt8) :
    ∃ groups' current', Filled mtu (compactRawPacket mtu acc p) groups' current' ∧
      groups'.flatten ++ current' = groups.flatten ++ current ++ [p] := by
  by_cases hfull : acc.2 ≠ [] ∧ acc.2.length + p.length ≥ mtu
  · refine ⟨groups ++ [current], [p], ⟨?_, ?_, ?_, .inl (by simp)⟩, by simp⟩
    · rw [Dtls.compactRawPacket, if_pos hfull, h.closed, h.filling]
      simp
    · rw [Dtls.compactRawPacket, if_pos hfull]
      simp
    · intro g hg
      rcases List.mem_append.mp hg with hg | hg
      · exact h.small g hg
      · obtain rfl := List.mem_singleton.mp hg
        exact h.room
  · refine ⟨groups, current ++ [p], ⟨?_, ?_, h.small, ?_⟩, by simp⟩
    · rw [Dtls.compactRawPacket, if_neg hfull, h.closed]
    · rw [Dtls.compactRawPacket, if_neg hfull, h.filling]
      simp
    · cases current with
      | nil => exact .inl (by simp)
      | cons r current =>
          have hopen : acc.2 ≠ [] := by
            rw [h.filling, List.flatten_cons]
            intro hnil
            exact hne r (by simp) (List.append_eq_nil_iff.mp hnil).1
          right
          have hlt : acc.2.length + p.length < mtu := by
            by_contra hge
            exact hfull ⟨hopen, by omega⟩
          rw [h.filling] at hlt
          simpa [Nat.add_assoc] using hlt

theorem exists_groups (mtu : Nat) {rawPackets : List (List UInt8)}
    (hne : ∀ r ∈ rawPackets, r ≠ []) :
    ∃ groups current, Filled mtu (rawPackets.foldl (compactRawPacket mtu) ([], [])) groups current ∧
      groups.flatten ++ current = rawPackets := by
  induction rawPackets using List.reverseRecOn with
  | nil => exact ⟨[], [], ⟨rfl, rfl, by simp, .inl (by simp)⟩, rfl⟩
  | append_singleton rawPackets p ih =>
      obtain ⟨groups, current, hfilled, heq⟩ := ih fun r hr => hne r (List.mem_append_left _ hr)
      have hcur : ∀ r ∈ current, r ≠ [] := fun r hr => by
        refine hne r (List.mem_append_left _ ?_)
        rw [← heq]
        exact List.mem_append_right _ hr
      obtain ⟨groups', current', hfilled', heq'⟩ := hfilled.compactRawPacket hcur p
      refine ⟨groups', current', ?_, by rw [heq', heq]⟩
      rw [List.foldl_append]
      exact hfilled'

/-- The datagrams are groups of the records, in order, and a group of more than one is below
the unit. -/
theorem compactRawPackets_eq (mtu : Nat) {rawPackets : List (List UInt8)}
    (hne : ∀ r ∈ rawPackets, r ≠ []) :
    ∃ groups : List (List (List UInt8)), compactRawPackets rawPackets mtu = groups.map List.flatten ∧
      groups.flatten = rawPackets ∧ ∀ g ∈ groups, g.length ≤ 1 ∨ g.flatten.length < mtu := by
  obtain ⟨groups, current, hfilled, heq⟩ := exists_groups mtu hne
  refine ⟨groups ++ [current], ?_, by simpa using heq, fun g hg => ?_⟩
  · rw [compactRawPackets, hfilled.closed, hfilled.filling]
    simp
  · rcases List.mem_append.mp hg with hg | hg
    · exact hfilled.small g hg
    · obtain rfl := List.mem_singleton.mp hg
      exact hfilled.room

/-- A record that carries something is not empty. -/
theorem Carries.ne_nil {r : List UInt8} (h : Carries r) : r ≠ [] := by
  rintro rfl
  simp [Carries] at h

/-- A group of records unpacks to these records. -/
theorem unpackDatagram_group {g : List (List UInt8)} (h : ∀ r ∈ g, Whole r ∧ Carries r) :
    unpackDatagram g.flatten = .ok g :=
  unpackDatagram_flatten (fun r hr => (h r hr).1) fun r hr => (h r (List.mem_of_getLast? hr)).2

/-- **Datagrams carry the records unchanged**: whatever the transmission unit, the datagrams
made of records unpack to these records, in order and none of them split, and a datagram of
more than one record is below the unit. -/
theorem unpack_compactRawPackets (rawPackets : List (List UInt8)) (mtu : Nat)
    (h : ∀ r ∈ rawPackets, Whole r ∧ Carries r) :
    ∃ groups : List (List (List UInt8)), compactRawPackets rawPackets mtu = groups.map List.flatten ∧
      groups.flatten = rawPackets ∧
      ∀ g ∈ groups, unpackDatagram g.flatten = .ok g ∧ (g.length ≤ 1 ∨ g.flatten.length < mtu) := by
  obtain ⟨groups, hcompact, hflatten, hsmall⟩ := compactRawPackets_eq mtu fun r hr =>
    (h r hr).2.ne_nil
  refine ⟨groups, hcompact, hflatten, fun g hg => ⟨unpackDatagram_group fun r hr => ?_, hsmall g hg⟩⟩
  exact h r (hflatten ▸ List.mem_flatten.mpr ⟨g, hg, hr⟩)

/-- Three changes of the cipher, of which two fit under a unit of 30 bytes. -/
theorem unpack_compactRawPackets_three :
    let rawPackets := List.replicate 3 [20, 0xfe, 0xfd, 0, 0, 0, 0, 0, 0, 0, 0, 0, 1, 1]
    (compactRawPackets rawPackets 30).map List.length = [28, 14] ∧
      ∃ groups : List (List (List UInt8)),
        compactRawPackets rawPackets 30 = groups.map List.flatten ∧ groups.flatten = rawPackets ∧
        ∀ g ∈ groups, unpackDatagram g.flatten = .ok g ∧
          (g.length ≤ 1 ∨ g.flatten.length < 30) :=
  ⟨by decide, unpack_compactRawPackets _ 30 (by unfold Whole Carries; decide)⟩

end RemoteBridge.Dtls
