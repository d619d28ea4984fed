import RemoteBridge.Bytes

/-!
# Sha256

SHA-256 as FIPS 180-4 defines it, over lists of bytes.  Section numbers are the
standard's.
-/

namespace Sha256

open Bytes

/-- A 32-bit word; `+` is addition modulo `2 ^ 32`. -/
abbrev Word := BitVec 32

/-! ## Functions (4.1.2) -/

def ch (x y z : Word) : Word := (x &&& y) ^^^ (~~~x &&& z)

def maj (x y z : Word) : Word := (x &&& y) ^^^ (x &&& z) ^^^ (y &&& z)

def bigSigma0 (x : Word) : Word := x.rotateRight 2 ^^^ x.rotateRight 13 ^^^ x.rotateRight 22

def bigSigma1 (x : Word) : Word := x.rotateRight 6 ^^^ x.rotateRight 11 ^^^ x.rotateRight 25

def smallSigma0 (x : Word) : Word := x.rotateRight 7 ^^^ x.rotateRight 18 ^^^ x >>> 3

def smallSigma1 (x : Word) : Word := x.rotateRight 17 ^^^ x.rotateRight 19 ^^^ x >>> 10

/-- The constants of the rounds (4.2.2). -/
def constants : List Word :=
  [0x428a2f98, 0x71374491, 0xb5c0fbcf, 0xe9b5dba5, 0x3956c25b, 0x59f111f1, 0x923f82a4, 0xab1c5ed5,
    0xd807aa98, 0x12835b01, 0x243185be, 0x550c7dc3, 0x72be5d74, 0x80deb1fe, 0x9bdc06a7, 0xc19bf174,
    0xe49b69c1, 0xefbe4786, 0x0fc19dc6, 0x240ca1cc, 0x2de92c6f, 0x4a7484aa, 0x5cb0a9dc, 0x76f988da,
    0x983e5152, 0xa831c66d, 0xb00327c8, 0xbf597fc7, 0xc6e00bf3, 0xd5a79147, 0x06ca6351, 0x14292967,
    0x27b70a85, 0x2e1b2138, 0x4d2c6dfc, 0x53380d13, 0x650a7354, 0x766a0abb, 0x81c2c92e, 0x92722c85,
    0xa2bfe8a1, 0xa81a664b, 0xc24b8b70, 0xc76c51a3, 0xd192e819, 0xd6990624, 0xf40e3585, 0x106aa070,
    0x19a4c116, 0x1e376c08, 0x2748774c, 0x34b0bcb5, 0x391c0cb3, 0x4ed8aa4a, 0x5b9cca4f, 0x682e6ff3,
    0x748f82ee, 0x78a5636f, 0x84c87814, 0x8cc70208, 0x90befffa, 0xa4506ceb, 0xbef9a3f7, 0xc67178f2]

/-! ## Padding and parsing (5.1, 5.2) -/

/-- The padded message: a one bit, the least number of zero bits and the length
in bits fill the last block. -/
def pad (message : List UInt8) : List UInt8 :=
  message ++ 0x80 :: List.replicate ((119 - message.length % 64) % 64) 0 ++
    toBigEndian 8 (8 * message.length)

/-- A list of bytes as words. -/
def words : List UInt8 → List Word
  | b₀ :: b₁ :: b₂ :: b₃ :: rest => BitVec.ofNat 32 (bigEndian [b₀, b₁, b₂, b₃]) :: words rest
  | _ => []

/-- A list of words as blocks of 16 words; `n` is how many. -/
def blocks : (n : Nat) → List Word → List (List Word)
  | 0, _ => []
  | n + 1, ws => ws.take 16 :: blocks n (ws.drop 16)

/-! ## The hash computation (6.2) -/

/-- The eight working variables. -/
structure Hash where
  a : Word
  b : Word
  c : Word
  d : Word
  e : Word
  f : Word
  g : Word
  h : Word
deriving DecidableEq

/-- The initial hash value (5.3.3). -/
def initial : Hash :=
  ⟨0x6a09e667, 0xbb67ae85, 0x3c6ef372, 0xa54ff53a, 0x510e527f, 0x9b05688c, 0x1f83d9ab, 0x5be0cd19⟩

/-- The word the message schedule `ws` continues with. -/
def nextWord (ws : List Word) : Word :=
  let w (i : Nat) := ws.getD (ws.length - i) 0
  smallSigma1 (w 2) + w 7 + smallSigma0 (w 15) + w 16

/-- The message schedule of a block, `n` words longer. -/
def schedule : (n : Nat) → List Word → List Word
  | 0, ws => ws
  | n + 1, ws => schedule n (ws ++ [nextWord ws])

/-- One round, with its constant and its word of the schedule. -/
def round (v : Hash) (kw : Word × Word) : Hash :=
  let t₁ := v.h + bigSigma1 v.e + ch v.e v.f v.g + kw.1 + kw.2
  let t₂ := bigSigma0 v.a + maj v.a v.b v.c
  ⟨t₁ + t₂, v.a, v.b, v.c, v.d + t₁, v.e, v.f, v.g⟩

/-- The hash value after one more block. -/
def compress (v : Hash) (block : List Word) : Hash :=
  let r := (constants.zip (schedule 48 block)).foldl round v
  ⟨v.a + r.a, v.b + r.b, v.c + r.c, v.d + r.d, v.e + r.e, v.f + r.f, v.g + r.g, v.h + r.h⟩

/-- The bytes of a hash value. -/
def Hash.bytes (v : Hash) : List UInt8 :=
  [v.a, v.b, v.c, v.d, v.e, v.f, v.g, v.h].flatMap fun w => toBigEndian 4 w.toNat

/-- The digest of a message. -/
def digest (message : List UInt8) : List UInt8 :=
  let padded := pad message
  ((blocks (padded.length / 64) (words padded)).foldl compress initial).bytes

@[simp] theorem length_digest (message : List UInt8) : (digest message).length = 32 := by
  simp [digest, Hash.bytes]

/-- A padded message is a whole number of blocks. -/
theorem length_pad (message : List UInt8) : (pad message).length % 64 = 0 := by
  simp only [pad, List.length_append, List.length_cons, List.length_replicate, length_toBigEndian]
  omega

theorem length_words (bytes : List UInt8) : (words bytes).length = bytes.length / 4 := by
  induction bytes using words.induct with
  | case1 b₀ b₁ b₂ b₃ rest ih =>
      simp only [words, List.length_cons, ih]
      omega
  | case2 bytes hshort =>
      have hlen : bytes.length < 4 := by
        match bytes, hshort with
        | [], _ | [_], _ | [_, _], _ | [_, _, _], _ => simp
        | b₀ :: b₁ :: b₂ :: b₃ :: rest, hshort => exact absurd rfl (hshort b₀ b₁ b₂ b₃ rest)
      rw [words, List.length_nil, Nat.div_eq_of_lt hlen]
      exact hshort

/-- Word `j` is read from four bytes. -/
theorem getElem_words {bytes : List UInt8} {j : Nat} (hj : j < (words bytes).length) :
    (words bytes)[j] = BitVec.ofNat 32 (bigEndian ((bytes.drop (4 * j)).take 4)) := by
  induction bytes using words.induct generalizing j with
  | case1 b₀ b₁ b₂ b₃ rest ih =>
      simp only [words]
      cases j with
      | zero => rfl
      | succ j =>
          rw [List.getElem_cons_succ, ih, Nat.mul_succ]
          rfl
  | case2 bytes hshort =>
      rw [words] at hj
      · contradiction
      · exact hshort

theorem blocks_eq (n : Nat) (ws : List Word) :
    blocks n ws = (List.range n).map fun i => (ws.drop (16 * i)).take 16 := by
  induction n generalizing ws with
  | zero => rfl
  | succ n ih =>
      rw [blocks, ih, List.range_succ_eq_map, List.map_cons, List.map_map]
      refine congrArg _ (List.map_congr_left fun i _ => ?_)
      rw [List.drop_drop, Function.comp_apply, Nat.mul_succ, Nat.add_comm]

-- the standard's one-block example, "abc"
example : digest [0x61, 0x62, 0x63] =
    [0xba, 0x78, 0x16, 0xbf, 0x8f, 0x01, 0xcf, 0xea, 0x41, 0x41, 0x40, 0xde, 0x5d, 0xae, 0x22, 0x23,
      0xb0, 0x03, 0x61, 0xa3, 0x96, 0x17, 0x7a, 0x9c, 0xb4, 0x10, 0xff, 0x61, 0xf2, 0x00, 0x15,
      0xad] := by
  decide +kernel

end Sha256
