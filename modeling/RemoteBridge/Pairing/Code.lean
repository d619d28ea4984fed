import Mathlib.Tactic.IntervalCases
import RemoteBridge.Pairing.Page

/-!
# Pairing.Code

What equal codes say.  The twelve symbols spell 60 bits and no fewer, the bytes
that are hashed determine the two fingerprints, and so the codes of the two
sides are equal when both saw the same fingerprints and otherwise only by a
collision of truncated digests.
-/

namespace RemoteBridge.Pairing

open Bytes Fields Unicode

/-! ## The symbols -/

/-- Different indices have different symbols. -/
theorem codeAlphabet_inj : ∀ i < 32, ∀ j < 32, codeAlphabet.getD i 0 = codeAlphabet.getD j 0 →
    i = j := by
  decide +kernel

/-- The dashes stand in fixed places: a code determines its twelve indices. -/
theorem writeCode_inj {f g : Nat → Nat} (hf : ∀ i, f i < 32) (hg : ∀ i, g i < 32)
    (h : writeCode f = writeCode g) : ∀ i < 12, f i = g i := by
  have hrange : List.range 12 = [0, 1, 2, 3, 4, 5, 6, 7, 8, 9, 10, 11] := rfl
  have hsymbol : ∀ i < 12, codeAlphabet.getD (f i) 0 = codeAlphabet.getD (g i) 0 := by
    simp [writeCode, hrange, text, -List.getD_eq_getElem?_getD] at h
    intro i hi
    interval_cases i <;> simp only [h]
  exact fun i hi => codeAlphabet_inj _ (hf i) _ (hg i) (hsymbol i hi)

theorem codeIndex_lt (bits i : Nat) : codeIndex bits i < 32 :=
  Nat.lt_of_le_of_lt Nat.and_le_right (by omega)

theorem codeBits_lt (input : List UInt8) : codeBits input < 2 ^ 60 := by
  have hlt := bigEndian_lt ((Sha256.digest input).take 8)
  rw [List.length_take, Sha256.length_digest] at hlt
  rw [codeBits, Nat.shiftRight_eq_div_pow]
  exact Nat.div_lt_of_lt_mul (by simpa using hlt)

/-- The code carries all 60 bits. -/
theorem eq_of_writeCode_codeIndex {m n : Nat} (hm : m < 2 ^ 60) (hn : n < 2 ^ 60)
    (h : writeCode (codeIndex m) = writeCode (codeIndex n)) : m = n := by
  have hindex := writeCode_inj (codeIndex_lt m) (codeIndex_lt n) h
  refine eq_of_groups_eq (w := 5) (n := 12) (by omega) hm hn fun i hi => ?_
  have hi' := hindex (11 - i) (by omega)
  have hplace : 55 - 5 * (11 - i) = 5 * i := by omega
  have hmask : ∀ v : Nat, v &&& 31 = v % 2 ^ 5 := fun v => Nat.and_two_pow_sub_one_eq_mod v 5
  simpa only [codeIndex, hplace, hmask] using hi'

/-- Equal codes are spelled by digests with the same first 60 bits. -/
theorem firstBits_digest_of_code_eq {input input' : List UInt8}
    (h : writeCode (codeIndex (codeBits input)) = writeCode (codeIndex (codeBits input'))) :
    firstBits 60 (Sha256.digest input) = firstBits 60 (Sha256.digest input') := by
  have hbits := eq_of_writeCode_codeIndex (codeBits_lt input) (codeBits_lt input') h
  rw [firstBits_take (m := 8) (by omega), firstBits_take (m := 8) (by omega)]
  have hlen : ∀ m : List UInt8, ((Sha256.digest m).take 8).length = 8 := fun m => by simp
  have := firstBits_eq_of_shiftRight_eq ((hlen input).trans (hlen input').symm) hbits
  rwa [hlen input] at this

/-! ## The bytes that are hashed -/

/-- A certificate's fingerprint in SDP form, `ab:cd:...`: ASCII, on one line. -/
structure IsFingerprint (fp : Text) : Prop where
  ascii : IsAscii fp
  oneLine : 0x0A ∉ fp

section

variable [FinalSigma]

/-- Fingerprints that agree up to ASCII case are hashed alike on both sides. -/
theorem codeInput_eq {H V H' V' : Text} (hH : IsAscii H) (hV : IsAscii V)
    (hHH' : EqIgnoreAsciiCase H' H) (hVV' : EqIgnoreAsciiCase V' V) :
    Page.codeInput H' V = codeInput H V' := by
  have hH' : IsAscii H' := isAscii_toAsciiLowercase.mp (hHH' ▸ isAscii_toAsciiLowercase.mpr hH)
  rw [Page.codeInput, codeInput, toLowerCase_of_isAscii hH', toLowerCase_of_isAscii hV, hHH',
    ← show toAsciiLowercase V' = toAsciiLowercase V from hVV']
  simp only [encodeUtf8_append]

/-- The line feed frames the bytes: equal inputs come from fingerprints that
agree up to ASCII case. -/
theorem eq_of_codeInput_eq {H V H' V' value : Text} (hH : IsFingerprint H) (hV : IsAscii V)
    (hH' : H' = toLowerCase value) (hvalue : 0x0A ∉ value)
    (h : Page.codeInput H' V = codeInput H V') :
    EqIgnoreAsciiCase H' H ∧ EqIgnoreAsciiCase V' V := by
  have hpage : (10 : UInt8) ∉ encodeUtf8 (toLowerCase H') := by
    rw [ten_mem_encodeUtf8]
    exact fun hmem => hvalue (ten_mem_of_mem_toLowerCase (hH' ▸ ten_mem_of_mem_toLowerCase hmem))
  have hhost : (10 : UInt8) ∉ encodeUtf8 (toAsciiLowercase H) := by
    rw [ten_mem_encodeUtf8, ten_mem_toAsciiLowercase]
    exact hH.oneLine
  have hnewline : ∀ t : Text, encodeUtf8 (text "\n") ++ encodeUtf8 t = 10 :: encodeUtf8 t :=
    fun _ => rfl
  simp only [Page.codeInput, codeInput, encodeUtf8_append, List.append_assoc, hnewline] at h
  obtain ⟨hhosts, hviewers⟩ := (append_cons_inj hpage hhost).mp (List.append_cancel_left h)
  have hlower : toLowerCase H' = toAsciiLowercase H :=
    eq_of_encodeUtf8_eq (isAscii_toAsciiLowercase.mpr hH.ascii) hhosts
  have hascii : IsAscii H' := by
    refine isAscii_of_toLowerCase (hlower ▸ isAscii_toAsciiLowercase.mpr hH.ascii) ?_
    exact hH' ▸ kelvin_notMem_toLowerCase value
  constructor
  · rw [EqIgnoreAsciiCase, ← hlower, toLowerCase_of_isAscii hascii]
  · rw [toLowerCase_of_isAscii hV] at hviewers
    exact eq_of_encodeUtf8_eq (isAscii_toAsciiLowercase.mpr hV) hviewers.symm

/-! ## Equal codes -/

/-- **The pairing code detects every rewriting of the two SDPs, and nothing
else.**  `H` and `V` are the two sides' own fingerprints, `H'` is what the page
extracted from the offer it received and `V'` what the host extracted from the
answer.  Fingerprints that came through give equal codes; equal codes mean that
they came through, or that the two byte strings hashed are different with
digests that agree in their first 60 bits. -/
theorem code_detects {H V H' V' offer answer : Text} (hH : IsFingerprint H)
    (hV : IsFingerprint V) (hoffer : Page.fingerprintFromSdp offer = some H')
    (_hanswer : fingerprintFromSdp answer = some V') :
    (EqIgnoreAsciiCase H' H → EqIgnoreAsciiCase V' V →
      Page.pairingCode Sha256.digest H' V = pairingCode H V') ∧
    (Page.pairingCode Sha256.digest H' V = pairingCode H V' →
      (EqIgnoreAsciiCase H' H ∧ EqIgnoreAsciiCase V' V) ∨
      (Page.codeInput H' V ≠ codeInput H V' ∧
        firstBits 60 (Sha256.digest (Page.codeInput H' V)) =
          firstBits 60 (Sha256.digest (codeInput H V')))) := by
  rw [Page.pairingCode_eq, pairingCode_eq]
  constructor
  · intro hHH' hVV'
    rw [codeInput_eq hH.ascii hV.ascii hHH' hVV']
  · intro hcode
    obtain ⟨value, heq, hvalue⟩ := Page.fingerprintFromSdp_spec hoffer
    by_cases hinput : Page.codeInput H' V = codeInput H V'
    · exact .inl (eq_of_codeInput_eq hH hV.ascii heq hvalue hinput)
    · exact .inr ⟨hinput, firstBits_digest_of_code_eq hcode⟩

end

/-- `code_detects` for an offer and an answer that came through. -/
theorem code_detects_example :
    letI : FinalSigma := ⟨fun _ _ => false⟩
    Page.pairingCode Sha256.digest (text "0a:b1") (text "c2:3d") =
      pairingCode (text "0A:B1") (text "c2:3d") :=
  letI : FinalSigma := ⟨fun _ _ => false⟩
  have hoffer : Page.fingerprintFromSdp (text "v=0\r\na=fingerprint:sha-256 0A:B1\r\n") =
      some (text "0a:b1") := by decide +kernel
  have hanswer : fingerprintFromSdp (text "v=0\r\na=fingerprint:SHA-256 C2:3D\r\n") =
      some (text "c2:3d") := by decide +kernel
  (code_detects (H := text "0A:B1") (V := text "c2:3d") ⟨by decide, by decide⟩
    ⟨by decide, by decide⟩ hoffer hanswer).1 (by decide) (by decide)

end RemoteBridge.Pairing
