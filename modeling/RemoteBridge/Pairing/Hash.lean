import Mathlib.Order.Bounds.Defs
import RemoteBridge.JsInteger
import RemoteBridge.Pairing.Page

/-!
# Pairing.Hash

The page's SHA-256 (`sha256` in `pairing.mjs`), which it writes out itself, and
that it is the standard's.

A `Uint32Array` holds words; a word that is read is a number, and a number that is
stored leaves its 32 bits.  A definition is `none` where the page would compute
with a rounded number or reach outside of a buffer.
-/

namespace RemoteBridge.Pairing.Page

open Bytes JsInteger Sha256

/-! ## Buffers -/

/-- `view.setUint32`. -/
def setUint32 (buffer : List UInt8) (offset : ℕ) (value : ℤ) : Option (List UInt8) :=
  if offset + 4 ≤ buffer.length then
    some (buffer.take offset ++ toBigEndian 4 (bits value).toNat ++ buffer.drop (offset + 4))
  else none

/-- `view.getUint32`. -/
def getUint32 (buffer : List UInt8) (offset : ℕ) : Option ℤ :=
  if offset + 4 ≤ buffer.length then some (bigEndian ((buffer.drop offset).take 4)) else none

/-! ## The hash -/

def K : List Word :=
  [0x428a2f98, 0x71374491, 0xb5c0fbcf, 0xe9b5dba5, 0x3956c25b, 0x59f111f1, 0x923f82a4, 0xab1c5ed5,
    0xd807aa98, 0x12835b01, 0x243185be, 0x550c7dc3, 0x72be5d74, 0x80deb1fe, 0x9bdc06a7, 0xc19bf174,
    0xe49b69c1, 0xefbe4786, 0x0fc19dc6, 0x240ca1cc, 0x2de92c6f, 0x4a7484aa, 0x5cb0a9dc, 0x76f988da,
    0x983e5152, 0xa831c66d, 0xb00327c8, 0xbf597fc7, 0xc6e00bf3, 0xd5a79147, 0x06ca6351, 0x14292967,
    0x27b70a85, 0x2e1b2138, 0x4d2c6dfc, 0x53380d13, 0x650a7354, 0x766a0abb, 0x81c2c92e, 0x92722c85,
    0xa2bfe8a1, 0xa81a664b, 0xc24b8b70, 0xc76c51a3, 0xd192e819, 0xd6990624, 0xf40e3585, 0x106aa070,
    0x19a4c116, 0x1e376c08, 0x2748774c, 0x34b0bcb5, 0x391c0cb3, 0x4ed8aa4a, 0x5b9cca4f, 0x682e6ff3,
    0x748f82ee, 0x78a5636f, 0x84c87814, 0x8cc70208, 0x90befffa, 0xa4506ceb, 0xbef9a3f7, 0xc67178f2]

/-- The padded message. -/
def padded (bytes : List UInt8) : Option (List UInt8) := do
  let bitLength ← exact (bytes.length * 8)
  -- `Math.ceil` of a quotient
  let size := (bytes.length + 9 + 63) / 64 * 64
  let padded := bytes ++ (List.replicate size 0).drop bytes.length
  let padded := padded.set bytes.length 0x80
  let padded ← setUint32 padded (size - 8) (bitLength / 2 ^ 32)
  setUint32 padded (size - 4) (shiftRight bitLength 0)

def rotr (x : ℤ) (n : ℕ) : ℤ := or (shiftRight x n) (shiftLeft x (32 - n))

/-- What `w[i]` becomes, from the words before it. -/
def scheduleWord (w : List Word) (i : ℕ) : Option Word := do
  let word (j : ℕ) : ℤ := (w.getD (i - j) 0).toNat
  let s0 := xor (xor (rotr (word 15) 7) (rotr (word 15) 18)) (shiftRight (word 15) 3)
  let s1 := xor (xor (rotr (word 2) 17) (rotr (word 2) 19)) (shiftRight (word 2) 10)
  return bits (← sum (word 16) [s0, word 7, s1])

/-- The loop that fills `w`, of which the words up to `i` are there; `n` are left. -/
def fill : (n : ℕ) → List Word → Option (List Word)
  | 0, w => some w
  | n + 1, w => do fill n (w ++ [← scheduleWord w w.length])

/-- The variables of the rounds. -/
structure Variables where
  a : ℤ
  b : ℤ
  c : ℤ
  d : ℤ
  e : ℤ
  f : ℤ
  g : ℤ
  hh : ℤ

/-- One round, with `K[i]` and `w[i]`. -/
def round (v : Variables) (kw : Word × Word) : Option Variables := do
  let t1 ← sum v.hh
    [xor (xor (rotr v.e 6) (rotr v.e 11)) (rotr v.e 25), xor (and v.e v.f) (and (not v.e) v.g),
      kw.1.toNat, kw.2.toNat]
  let t2 ← sum (xor (xor (rotr v.a 2) (rotr v.a 13)) (rotr v.a 22))
    [xor (xor (and v.a v.b) (and v.a v.c)) (and v.b v.c)]
  let e := shiftRight (← sum v.d [t1]) 0
  let a := shiftRight (← sum t1 [t2]) 0
  return { a, b := v.a, c := v.b, d := v.c, e, f := v.e, g := v.f, hh := v.g }

/-- `word += value`. -/
def addTo (word : Word) (value : ℤ) : Option Word := do return bits (← sum word.toNat [value])

/-- What `h` becomes with the block at `offset`. -/
def hashBlock (padded : List UInt8) (h : List Word) (offset : ℕ) : Option (List Word) := do
  let w ← (List.range 16).mapM fun i => do return bits (← getUint32 padded (offset + i * 4))
  let w ← fill 48 w
  match h with
  | [h0, h1, h2, h3, h4, h5, h6, h7] =>
      let v ← (K.zip w).foldlM round
        ⟨h0.toNat, h1.toNat, h2.toNat, h3.toNat, h4.toNat, h5.toNat, h6.toNat, h7.toNat⟩
      return [← addTo h0 v.a, ← addTo h1 v.b, ← addTo h2 v.c, ← addTo h3 v.d, ← addTo h4 v.e,
        ← addTo h5 v.f, ← addTo h6 v.g, ← addTo h7 v.hh]
  | _ => none

def initialHash : List Word :=
  [0x6a09e667, 0xbb67ae85, 0x3c6ef372, 0xa54ff53a, 0x510e527f, 0x9b05688c, 0x1f83d9ab, 0x5be0cd19]

/-- SHA-256 of a byte array. -/
def sha256 (bytes : List UInt8) : Option (List UInt8) := do
  let padded ← padded bytes
  let h ← (List.range ((padded.length + 63) / 64)).foldlM
    (fun h i => hashBlock padded h (i * 64)) initialHash
  h.zipIdx.foldlM (fun out word => setUint32 out (word.2 * 4) word.1.toNat) (List.replicate 32 0)

/-! ## Loops that do not fail -/

section

variable {α β γ : Type}

/-- A loop each turn of which does to what `r` makes of a value what `g` does to
the value. -/
theorem foldlM_eq_some {r : γ → β} {f : β → α → Option β} {g : γ → α → γ} {l : List α} {v : γ}
    (h : ∀ v, ∀ a ∈ l, f (r v) a = some (r (g v a))) : l.foldlM f (r v) = some (r (l.foldl g v)) := by
  induction l generalizing v with
  | nil => rfl
  | cons a l ih =>
      rw [List.foldlM_cons, h v a List.mem_cons_self, List.foldl_cons]
      exact ih fun v a ha => h v a (List.mem_cons_of_mem _ ha)

end

/-! ## Rounds -/

theorem bits_rotr {x : ℤ} {n : ℕ} (hpos : 0 < n) (hlt : n < 32) :
    bits (rotr x n) = (bits x).rotateRight n := by
  rw [rotr, bits_or, bits_shiftLeft, bits_shiftRight, BitVec.rotateRight_def,
    Nat.mod_eq_of_lt hlt, Nat.mod_eq_of_lt (by omega : 32 - n < 32)]

/-- The words of a hash value, as numbers. -/
def numbers (v : Hash) : Variables :=
  ⟨v.a.toNat, v.b.toNat, v.c.toNat, v.d.toNat, v.e.toNat, v.f.toNat, v.g.toNat, v.h.toNat⟩

/-- What a round adds to its last variable. -/
def terms1 (v : Hash) (kw : Word × Word) : List ℤ :=
  [xor (xor (rotr v.e.toNat 6) (rotr v.e.toNat 11)) (rotr v.e.toNat 25),
    xor (and v.e.toNat v.f.toNat) (and (not v.e.toNat) v.g.toNat), kw.1.toNat, kw.2.toNat]

/-- The first sum of a round, before it is cut to a word. -/
def t1 (v : Hash) (kw : Word × Word) : ℤ := v.h.toNat + (terms1 v kw).sum

theorem within_terms1 (v : Hash) (kw : Word × Word) : ∀ x ∈ terms1 v kw, Within 1 x := by
  simp [terms1, within_xor, within_toNat]

theorem bits_t1 (v : Hash) (kw : Word × Word) :
    bits (t1 v kw) = v.h + bigSigma1 v.e + ch v.e v.f v.g + kw.1 + kw.2 := by
  simp only [t1, terms1, List.sum_cons, List.sum_nil, add_zero, bits_add, bits_xor, bits_and,
    bits_not, bits_rotr, bits_toNat, Nat.reduceLT, bigSigma1, ch, BitVec.add_assoc]

/-- The second sum of a round. -/
def t2 (v : Hash) : ℤ :=
  xor (xor (rotr v.a.toNat 2) (rotr v.a.toNat 13)) (rotr v.a.toNat 22) +
    [xor (xor (and v.a.toNat v.b.toNat) (and v.a.toNat v.c.toNat)) (and v.b.toNat v.c.toNat)].sum

theorem bits_t2 (v : Hash) : bits (t2 v) = bigSigma0 v.a + maj v.a v.b v.c := by
  simp only [t2, List.sum_cons, List.sum_nil, add_zero, bits_add, bits_xor, bits_and, bits_rotr,
    bits_toNat, Nat.reduceLT, bigSigma0, maj]

/-- **A round of the page is one of the standard**, on any values. -/
theorem round_numbers (v : Hash) (kw : Word × Word) :
    round (numbers v) kw = some (numbers (Sha256.round v kw)) := by
  have ht1 : sum v.h.toNat (terms1 v kw) = some (t1 v kw) :=
    sum_eq_some within_toNat (within_terms1 v kw) (by simp [terms1])
  have ht2 : sum _ _ = some (t2 v) :=
    sum_eq_some (k := 1) (m := 1) within_xor (by simp [within_xor]) (by simp)
  have hwithin1 : Within 5 (t1 v kw) :=
    within_sum (k := 1) (m := 1) within_toNat (within_terms1 v kw)
  have hwithin2 : Within 2 (t2 v) :=
    within_sum (k := 1) (m := 1) within_xor (by simp [within_xor])
  have he : sum v.d.toNat [t1 v kw] = some (v.d.toNat + [t1 v kw].sum) :=
    sum_eq_some within_toNat (by simpa using hwithin1) (by simp)
  have ha : sum (t1 v kw) [t2 v] = some (t1 v kw + [t2 v].sum) :=
    sum_eq_some hwithin1 (by simpa using hwithin2) (by simp)
  simp only [terms1] at ht1
  simp only [round, numbers, ht1, ht2, he, ha, Option.bind_eq_bind, Option.bind_some,
    shiftRight_zero, bits_add, bits_t1, bits_t2, bits_toNat, List.sum_singleton, Sha256.round]
  rfl

theorem K_eq : K = constants := rfl

/-- All the rounds of a block. -/
theorem rounds_numbers (v : Hash) (kws : List (Word × Word)) :
    kws.foldlM round (numbers v) = some (numbers (kws.foldl Sha256.round v)) :=
  foldlM_eq_some fun v kw _ => round_numbers v kw

/-! ## The message schedule -/

theorem scheduleWord_eq (w : List Word) : scheduleWord w w.length = some (nextWord w) := by
  simp only [scheduleWord, nextWord, smallSigma0, smallSigma1]
  rw [sum_eq_some (k := 1) (m := 1) within_toNat]
  · simp only [Option.bind_eq_bind, Option.bind_some, Option.pure_def, Option.some_inj,
      List.sum_cons, List.sum_nil, add_zero, bits_add, bits_xor, bits_rotr, bits_shiftRight,
      bits_toNat, Nat.reduceLT, Nat.reduceMod]
    ac_rfl
  · simp [within_xor, within_toNat]
  · simp

theorem fill_eq (n : ℕ) (w : List Word) : fill n w = some (schedule n w) := by
  induction n generalizing w with
  | zero => rfl
  | succ n ih =>
      rw [fill, scheduleWord_eq, schedule, ← ih]
      rfl

/-! ## One block -/

/-- The words of a hash value, as the page keeps them. -/
def hashWords (v : Hash) : List Word := [v.a, v.b, v.c, v.d, v.e, v.f, v.g, v.h]

theorem addTo_eq (word x : Word) : addTo word x.toNat = some (word + x) := by
  rw [addTo, sum_eq_some (k := 1) (m := 1) within_toNat (by simp [within_toNat]) (by simp)]
  simp

/-- The words that are read from the block at `offset`. -/
theorem block_words {buffer : List UInt8} {i : ℕ} (hi : i * 64 + 64 ≤ buffer.length) :
    ((List.range 16).mapM fun j => do return bits (← getUint32 buffer (i * 64 + j * 4))) =
      some (((words buffer).drop (16 * i)).take 16) := by
  have hwords : ((words buffer).drop (16 * i)).take 16 = (List.range 16).map fun j =>
      BitVec.ofNat 32 (bigEndian ((buffer.drop (i * 64 + j * 4)).take 4)) := by
    refine List.ext_getElem ?_ fun j hj hj' => ?_
    · simp [length_words]
      omega
    · rw [List.getElem_take, List.getElem_drop, getElem_words, List.getElem_map,
        List.getElem_range]
      have hoffset : 4 * (16 * i + j) = i * 64 + j * 4 := by ring
      rw [hoffset]
  rw [hwords]
  refine Fields.mapM_eq_some fun j hj => ?_
  have hj : j < 16 := List.mem_range.mp hj
  rw [getUint32, if_pos (by omega)]
  exact congrArg some (BitVec.ofInt_natCast _ _)

/-- The page takes a block into account as the standard does. -/
theorem hashBlock_eq {buffer : List UInt8} {i : ℕ} (v : Hash)
    (hi : i * 64 + 64 ≤ buffer.length) :
    hashBlock buffer (hashWords v) (i * 64) =
      some (hashWords (compress v (((words buffer).drop (16 * i)).take 16))) := by
  have hrounds := rounds_numbers v
    (K.zip (schedule 48 (((words buffer).drop (16 * i)).take 16)))
  rw [numbers, numbers, K_eq] at hrounds
  simp only [hashBlock, hashWords, block_words hi]
  simp only [fill_eq, Option.bind_eq_bind, Option.bind_some, K_eq, hrounds, addTo_eq,
    Option.pure_def, compress]

/-! ## Padding -/

/-- Storing over four bytes. -/
theorem setUint32_append {xs old ys : List UInt8} {value : ℤ} (hold : old.length = 4) :
    setUint32 (xs ++ (old ++ ys)) xs.length value =
      some (xs ++ (toBigEndian 4 (bits value).toNat ++ ys)) := by
  rw [setUint32, if_pos (by simp [hold]), List.take_left, ← hold, ← List.drop_drop, List.drop_left,
    List.drop_left, List.append_assoc]

/-- The number of zero bytes. -/
def zeros (bytes : List UInt8) : ℕ := (119 - bytes.length % 64) % 64

theorem toBigEndian_bits (n : ℕ) : toBigEndian 4 (bits n).toNat = toBigEndian 4 n := by
  rw [bits, BitVec.ofInt_natCast, BitVec.toNat_ofNat]
  exact toBigEndian_mod (m := 4) le_rfl n

/-- The message before the length is written. -/
def marked (bytes : List UInt8) : List UInt8 := bytes ++ 0x80 :: List.replicate (zeros bytes) 0

theorem length_marked (bytes : List UInt8) :
    (bytes.length + 9 + 63) / 64 * 64 = (marked bytes).length + 8 := by
  simp only [marked, List.length_append, List.length_cons, List.length_replicate, zeros]
  omega

theorem set_marked (bytes : List UInt8) :
    (bytes ++ (List.replicate ((marked bytes).length + 8) 0).drop bytes.length).set
      bytes.length 0x80 = marked bytes ++ (List.replicate 4 0 ++ List.replicate 4 0) := by
  have hlen : (marked bytes).length + 8 = bytes.length + (zeros bytes + 8 + 1) := by
    simp only [marked, List.length_append, List.length_cons, List.length_replicate]
    omega
  rw [hlen, List.drop_replicate, Nat.add_sub_cancel_left, List.set_append_right _ _ le_rfl,
    Nat.sub_self, List.replicate_succ, List.set_cons_zero, ← List.replicate_append_replicate,
    marked, List.append_assoc, List.cons_append]
  rfl

/-- Storing the two words of the length. -/
theorem setUint32_twice (xs : List UInt8) (upper lower : ℤ) :
    (do
      let buffer ← setUint32 (xs ++ (List.replicate 4 0 ++ List.replicate 4 0)) xs.length upper
      setUint32 buffer (xs.length + 4) lower) =
      some (xs ++ (toBigEndian 4 (bits upper).toNat ++ toBigEndian 4 (bits lower).toNat)) := by
  have hlen : xs.length + 4 = (xs ++ toBigEndian 4 (bits upper).toNat).length := by simp
  have hnil : List.replicate 4 (0 : UInt8) = List.replicate 4 0 ++ [] := (List.append_nil _).symm
  rw [setUint32_append List.length_replicate, Option.bind_eq_bind, Option.bind_some, hlen,
    ← List.append_assoc, hnil, setUint32_append List.length_replicate, List.append_nil,
    List.append_assoc]

/-- **What the page hashes is the padded message** of the standard. -/
theorem padded_eq {bytes : List UInt8} (h : bytes.length < 2 ^ 50) :
    padded bytes = some (pad bytes) := by
  have hexact : exact (bytes.length * 8) = some ((8 * bytes.length : ℕ) : ℤ) := by
    rw [exact, if_pos (by omega), Nat.cast_mul, mul_comm]
    rfl
  have hupper : ((8 * bytes.length : ℕ) : ℤ) / 2 ^ 32 = ((8 * bytes.length / 256 ^ 4 : ℕ) : ℤ) := by
    norm_num
  have hlower : bits (shiftRight (8 * bytes.length : ℕ) 0) = bits (8 * bytes.length : ℕ) :=
    bits_toNat
  have hoffset : (marked bytes).length + 8 - 4 = (marked bytes).length + 4 := by omega
  have hstore := setUint32_twice (marked bytes) (8 * bytes.length / 256 ^ 4 : ℕ)
    (shiftRight (8 * bytes.length : ℕ) 0)
  rw [hlower, toBigEndian_bits, toBigEndian_bits, ← toBigEndian_add] at hstore
  simp only [padded, hexact, Option.bind_eq_bind, Option.bind_some, length_marked, set_marked,
    Nat.add_sub_cancel, hoffset, hupper]
  exact hstore

/-- The numbers of bytes that fill the last block, with the mark and the length. -/
def Fills (bytes : List UInt8) (k : ℕ) : Prop := (bytes.length + 1 + k + 8) % 64 = 0

/-- They are the fewest. -/
theorem isLeast_zeros (bytes : List UInt8) : IsLeast {k | Fills bytes k} (zeros bytes) := by
  constructor
  · simp only [Set.mem_ofPred_eq, Fills, zeros]
    omega
  · intro k hk
    simp only [Set.mem_ofPred_eq, Fills] at hk
    rw [zeros]
    omega

/-! ## The digest -/

/-- Storing words one after the other. -/
theorem store_words (ws : List Word) {done : List UInt8} {n : ℕ} (hdone : done.length = n * 4) :
    (ws.zipIdx n).foldlM (fun out word => setUint32 out (word.2 * 4) word.1.toNat)
      (done ++ List.replicate (ws.length * 4) 0) =
        some (done ++ ws.flatMap fun w => toBigEndian 4 w.toNat) := by
  induction ws generalizing done n with
  | nil => simp
  | cons w ws ih =>
      have hlen : (w :: ws).length * 4 = 4 + ws.length * 4 := by
        rw [List.length_cons]
        omega
      have hnext : (done ++ toBigEndian 4 w.toNat).length = (n + 1) * 4 := by
        rw [List.length_append, length_toBigEndian, hdone]
        omega
      rw [List.zipIdx_cons, List.foldlM_cons, hlen, ← List.replicate_append_replicate, ← hdone,
        setUint32_append List.length_replicate, bits_toNat, Option.bind_eq_bind, Option.bind_some,
        ← List.append_assoc, ih hnext, List.flatMap_cons, List.append_assoc]

theorem store_hash (v : Hash) :
    (hashWords v).zipIdx.foldlM (fun out word => setUint32 out (word.2 * 4) word.1.toNat)
      (List.replicate 32 0) = some v.bytes := by
  have hstore := store_words (hashWords v) (n := 0) (List.length_nil (α := UInt8))
  rwa [List.nil_append, List.nil_append] at hstore

theorem sha256_eq {bytes : List UInt8} (h : bytes.length < 2 ^ 50) :
    sha256 bytes = some (digest bytes) := by
  have hlen := length_pad bytes
  have hblocks : (List.range (((pad bytes).length + 63) / 64)).foldlM
      (fun h i => hashBlock (pad bytes) h (i * 64)) initialHash =
        some (hashWords ((blocks ((pad bytes).length / 64) (words (pad bytes))).foldl
          compress initial)) := by
    have hcount : ((pad bytes).length + 63) / 64 = (pad bytes).length / 64 := by omega
    rw [blocks_eq, List.foldl_map, hcount]
    refine foldlM_eq_some (r := hashWords) (v := initial)
      (g := fun v i => compress v (((words (pad bytes)).drop (16 * i)).take 16))
      fun v i hi => hashBlock_eq v ?_
    have hi := List.mem_range.mp hi
    omega
  rw [sha256, padded_eq h, Option.bind_eq_bind, Option.bind_some, hblocks, Option.bind_eq_bind,
    Option.bind_some, store_hash]
  rfl

/-- **The page's SHA-256 is SHA-256**: what it hashes is the padded message, with
the fewest zero bytes, each of its rounds is one of the standard, and so is the
digest; no sum it computes on the way is rounded. -/
theorem sha256_is_standard (bytes : List UInt8) (h : bytes.length < 2 ^ 50) :
    (∃ k, IsLeast {k | Fills bytes k} k ∧ padded bytes =
      some (bytes ++ 0x80 :: List.replicate k 0 ++ toBigEndian 8 (8 * bytes.length))) ∧
    (∀ v kw, round (numbers v) kw = some (numbers (Sha256.round v kw))) ∧
    sha256 bytes = some (digest bytes) :=
  ⟨⟨zeros bytes, isLeast_zeros bytes, padded_eq h⟩, round_numbers, sha256_eq h⟩

theorem sha256_abc : sha256 [0x61, 0x62, 0x63] = some
    [0xba, 0x78, 0x16, 0xbf, 0x8f, 0x01, 0xcf, 0xea, 0x41, 0x41, 0x40, 0xde, 0x5d, 0xae, 0x22, 0x23,
      0xb0, 0x03, 0x61, 0xa3, 0x96, 0x17, 0x7a, 0x9c, 0xb4, 0x10, 0xff, 0x61, 0xf2, 0x00, 0x15,
      0xad] := by
  have h := (sha256_is_standard [0x61, 0x62, 0x63] (by decide)).2.2
  rw [h]
  decide +kernel

end RemoteBridge.Pairing.Page
