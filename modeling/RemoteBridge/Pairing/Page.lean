import Mathlib.Tactic.SplitIfs
import RemoteBridge.Pairing

/-!
# Pairing.Page

The page's side of pairing, `pairing.mjs`, less its SHA-256.  Strings are
JavaScript's: they may hold lone surrogates, white space and lower case are
those of `trim` and `toLowerCase`.
-/

namespace RemoteBridge.Pairing.Page

open Bytes Fields Unicode

variable [FinalSigma]

/-- The loop of `fingerprintFromSdp`, with what was found so far. -/
def fingerprintFromLines (found : Option Text) : List Text → Option Text
  | [] => found
  | raw :: rest =>
      match List.dropPrefix? (trim isJsWhiteSpace raw) fingerprintPrefix with
      | none => fingerprintFromLines found rest
      | some announced =>
          match announced.splitOn 0x20 with
          | algorithm :: value :: _ =>
              if value = [] ∨ toLowerCase algorithm ≠ text "sha-256" then none
              else
                let normalized := toLowerCase value
                if found ≠ none ∧ found ≠ some normalized then none
                else fingerprintFromLines (some normalized) rest
          -- no space: `value` is undefined
          | _ => none

/-- The SHA-256 DTLS fingerprint an SDP announces, lowercased, or null. -/
def fingerprintFromSdp (sdp : Text) : Option Text := fingerprintFromLines none (sdp.splitOn 0x0A)

/-- The bytes the page hashes. -/
def codeInput (hostFp viewerFp : Text) : List UInt8 :=
  encodeUtf8 (codeLabel ++ toLowerCase hostFp ++ text "\n" ++ toLowerCase viewerFp)

/-- The code the page shows (`pairingCode`), by the page's own hash function.
`bits` is a BigInt. -/
def pairingCode (sha256 : List UInt8 → List UInt8) (hostFp viewerFp : Text) : Text :=
  let digest := sha256 (codeInput hostFp viewerFp)
  let bits := (digest.take 8).foldl (fun bits byte => (bits <<< 8) ||| byte.toNat) 0 >>> 4
  writeCode fun i => (bits >>> (55 - 5 * i)) &&& 31

theorem pairingCode_eq (hostFp viewerFp : Text) :
    pairingCode Sha256.digest hostFp viewerFp =
      writeCode (codeIndex (codeBits (codeInput hostFp viewerFp))) := by
  refine congrArg writeCode (funext fun i => ?_)
  rw [foldl_shiftLeft_or, Nat.mul_zero, Nat.zero_add]
  rfl

/-- One turn of the loop keeps what was found or finds the lower case of a part
of the line. -/
theorem fingerprintFromLines_cons {found : Option Text} {raw : Text} {rest : List Text} {fp : Text}
    (h : fingerprintFromLines found (raw :: rest) = some fp) :
    ∃ found', fingerprintFromLines found' rest = some fp ∧
      (found' = found ∨ ∃ value ⊆ raw, found' = some (toLowerCase value)) := by
  rw [fingerprintFromLines] at h
  cases hpre : List.dropPrefix? (trim isJsWhiteSpace raw) fingerprintPrefix with
  | none => exact ⟨found, by simpa only [hpre] using h, .inl rfl⟩
  | some announced =>
      simp only [hpre] at h
      obtain ⟨p, hraw, -⟩ := List.dropPrefix?_eq_some_iff.mp hpre
      have hsub : announced ⊆ raw := fun x hx =>
        (trim_sublist isJsWhiteSpace raw).subset (hraw ▸ List.mem_append_right p hx)
      split at h
      · next algorithm value _ hsplit =>
        have hpiece : value ∈ announced.splitOn 0x20 := by simp [hsplit]
        have hvalue : value ⊆ raw := fun x hx => hsub (mem_of_mem_splitOn hpiece hx)
        split_ifs at h
        exact ⟨_, h, .inr ⟨value, hvalue, rfl⟩⟩
      · contradiction

/-- What `fingerprintFromSdp` extracts is the lower case of text from one line. -/
theorem fingerprintFromSdp_spec {sdp fp : Text} (h : fingerprintFromSdp sdp = some fp) :
    ∃ value, fp = toLowerCase value ∧ 0x0A ∉ value := by
  suffices hgen : ∀ ls : List Text, (∀ l ∈ ls, 0x0A ∉ l) → ∀ found,
      fingerprintFromLines found ls = some fp →
        found = some fp ∨ ∃ value, fp = toLowerCase value ∧ 0x0A ∉ value by
    simpa using hgen _ (fun l hl => notMem_of_mem_splitOn hl) none h
  intro ls
  induction ls with
  | nil => exact fun _ found h => .inl h
  | cons raw rest ih =>
      intro hls found h
      obtain ⟨found', h', rfl | ⟨value, hsub, rfl⟩⟩ := fingerprintFromLines_cons h
      · exact ih (fun l hl => hls l (List.mem_cons_of_mem _ hl)) _ h'
      · rcases ih (fun l hl => hls l (List.mem_cons_of_mem _ hl)) _ h' with heq | hvalue
        · exact .inr ⟨value, (Option.some.inj heq).symm,
            fun h => hls raw List.mem_cons_self (hsub h)⟩
        · exact .inr hvalue

end RemoteBridge.Pairing.Page
