import Mathlib.Data.List.Basic
import RemoteBridge.Sha256
import RemoteBridge.Unicode

/-!
# Pairing

The host's side of `pairing.rs`: the fingerprint an SDP announces and the code
both sides show on first pairing.
-/

namespace RemoteBridge.Pairing

open Bytes Fields Unicode

/-! ## Fingerprints -/

/-- What a fingerprint line starts with. -/
def fingerprintPrefix : Text := text "a=fingerprint:"

/-- The loop of `fingerprint_from_sdp`, with what was found so far. -/
def fingerprintFromLines (found : Option Text) : List Text → Option Text
  | [] => found
  | line :: rest =>
      match List.dropPrefix? (trim isWhiteSpace line) fingerprintPrefix with
      | none => fingerprintFromLines found rest
      | some announced => do
          let (algorithm, value) ← splitOnce 0x20 announced
          if ¬ EqIgnoreAsciiCase algorithm (text "sha-256") then none
          else
            let value := toAsciiLowercase (trim isWhiteSpace value)
            match found with
            | some existing =>
                if existing ≠ value then none else fingerprintFromLines (some value) rest
            | none => fingerprintFromLines (some value) rest

/-- The SHA-256 DTLS fingerprint an SDP announces, lowercased
(`fingerprint_from_sdp`). -/
def fingerprintFromSdp (sdp : Text) : Option Text := fingerprintFromLines none (lines sdp)

/-! ## The pairing code -/

/-- Crockford base32: no I, L, O or U. -/
def codeAlphabet : Text := text "0123456789ABCDEFGHJKMNPQRSTVWXYZ"

/-- Twelve symbols of the alphabet in three groups, "XXXX-XXXX-XXXX": the loop
that ends both `pairing_code` and the page's `pairingCode`, over the index each
computes for symbol `i`. -/
def writeCode (index : Nat → Nat) : Text :=
  (List.range 12).flatMap fun i =>
    (if i > 0 ∧ i % 4 = 0 then text "-" else []) ++ [codeAlphabet.getD (index i) 0]

/-- What the code is a hash of, up to the two fingerprints. -/
def codeLabel : Text := text "remotebridge pairing v1\n"

/-- The bytes the host hashes. -/
def codeInput (hostFp viewerFp : Text) : List UInt8 :=
  encodeUtf8 codeLabel ++ encodeUtf8 (toAsciiLowercase hostFp) ++ encodeUtf8 (text "\n") ++
    encodeUtf8 (toAsciiLowercase viewerFp)

/-- The code the host shows on first pairing (`pairing_code`). -/
def pairingCode (hostFp viewerFp : Text) : Text :=
  let digest := Sha256.digest (codeInput hostFp viewerFp)
  let bits : UInt64 := UInt64.ofNat (bigEndian (digest.take 8)) >>> 4
  writeCode fun i => ((bits >>> UInt64.ofNat (55 - 5 * i)) &&& 31).toNat

/-- The 60 bits a code spells. -/
def codeBits (input : List UInt8) : Nat := bigEndian ((Sha256.digest input).take 8) >>> 4

/-- The index of symbol `i`, of twelve. -/
def codeIndex (bits i : Nat) : Nat := (bits >>> (55 - 5 * i)) &&& 31

theorem pairingCode_eq (hostFp viewerFp : Text) :
    pairingCode hostFp viewerFp = writeCode (codeIndex (codeBits (codeInput hostFp viewerFp))) := by
  have hlt := bigEndian_lt ((Sha256.digest (codeInput hostFp viewerFp)).take 8)
  rw [List.length_take, Sha256.length_digest] at hlt
  refine congrArg writeCode (funext fun i => ?_)
  have hshift : (UInt64.ofNat (55 - 5 * i)).toNat % 64 = 55 - 5 * i := by
    rw [UInt64.toNat_ofNat']
    omega
  rw [UInt64.toNat_and, UInt64.toNat_shiftRight, UInt64.toNat_shiftRight, hshift,
    UInt64.toNat_ofNat', Nat.mod_eq_of_lt (by simpa using hlt)]
  rfl

-- the vector of the host's and the page's tests
example :
    pairingCode
        (text "AA:BB:CC:DD:EE:FF:00:11:22:33:44:55:66:77:88:99:AA:BB:CC:DD:EE:FF:00:11:22:33:44:55:66:77:88:99")
        (text "01:23:45:67:89:ab:cd:ef:01:23:45:67:89:ab:cd:ef:01:23:45:67:89:ab:cd:ef:01:23:45:67:89:ab:cd:ef") =
      text "3ES8-F2PT-1MEY" := by
  decide +kernel

end RemoteBridge.Pairing
