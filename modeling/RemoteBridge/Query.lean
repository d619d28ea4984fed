import RemoteBridge.Fields

/-!
# Query

Percent-encoding and the parameters in the query of a URL, on bytes.

A writer escapes all bytes but those it keeps, and may keep what it likes but the bytes that
mean something in a query.  Then the reader finds the parameters as they were written, whatever
bytes are in them.
-/

namespace Query

open Fields

/-! ## Percent-encoding -/

/-- `%` -/
def percent : UInt8 := 37

/-- `+`, which stands for a space. -/
def plus : UInt8 := 43

/-- `&` -/
def ampersand : UInt8 := 38

/-- `;` -/
def semicolon : UInt8 := 59

/-- `=` -/
def equals : UInt8 := 61

def hexDigit (n : Nat) : UInt8 := UInt8.ofNat (if n < 10 then 48 + n else 55 + n)

def hexValue (b : UInt8) : Option Nat :=
  if 48 ≤ b.toNat ∧ b.toNat ≤ 57 then some (b.toNat - 48)
  else if 97 ≤ b.toNat ∧ b.toNat ≤ 102 then some (b.toNat - 87)
  else if 65 ≤ b.toNat ∧ b.toNat ≤ 70 then some (b.toNat - 55)
  else none

def escapeByte (b : UInt8) : List UInt8 :=
  [percent, hexDigit (b.toNat / 16), hexDigit (b.toNat % 16)]

/-- The bytes that are not kept, escaped. -/
def escape (keep : UInt8 → Bool) (bs : List UInt8) : List UInt8 :=
  bs.flatMap fun b => if keep b then [b] else escapeByte b

/-- Escapes and `+` undone, `none` where a `%` has no two digits after it. -/
def unescape : List UInt8 → Option (List UInt8)
  | [] => some []
  | b :: bs =>
      if b = percent then
        match bs with
        | hi :: lo :: rest =>
            match hexValue hi, hexValue lo with
            | some hi, some lo => (unescape rest).map (UInt8.ofNat (16 * hi + lo) :: ·)
            | _, _ => none
        | _ => none
      else (unescape bs).map ((if b = plus then 32 else b) :: ·)

theorem hexValue_hexDigit {n : Nat} (h : n < 16) : hexValue (hexDigit n) = some n := by
  have hall : ∀ n < 16, hexValue (hexDigit n) = some n := by decide
  exact hall n h

theorem unescape_escapeByte (b : UInt8) (bs : List UInt8) :
    unescape (escapeByte b ++ bs) = (unescape bs).map (b :: ·) := by
  have hlt := b.toNat_lt
  have hhi := hexValue_hexDigit (n := b.toNat / 16) (by omega)
  have hlo := hexValue_hexDigit (n := b.toNat % 16) (by omega)
  have hsum : UInt8.ofNat (16 * (b.toNat / 16) + b.toNat % 16) = b := by
    rw [Nat.div_add_mod, UInt8.ofNat_toNat]
  show unescape (percent :: hexDigit (b.toNat / 16) :: hexDigit (b.toNat % 16) :: bs) = _
  rw [unescape, if_pos rfl]
  simp only [hhi, hlo, hsum]

theorem unescape_cons {b : UInt8} {bs : List UInt8} (hpercent : b ≠ percent) (hplus : b ≠ plus) :
    unescape (b :: bs) = (unescape bs).map (b :: ·) := by
  rw [unescape.eq_def]
  simp only [if_neg hpercent, if_neg hplus]

section

variable {keep : UInt8 → Bool} {bs : List UInt8}

/-- **Escaping is undone**, as long as `%` and `+` are escaped themselves. -/
theorem unescape_escape (hpercent : keep percent = false) (hplus : keep plus = false) :
    unescape (escape keep bs) = some bs := by
  induction bs with
  | nil => rfl
  | cons b bs ih =>
      have hcons : escape keep (b :: bs) =
          (if keep b then [b] else escapeByte b) ++ escape keep bs := List.flatMap_cons
      rw [hcons]
      split
      · next hkeep =>
          have hb (c : UInt8) (hc : keep c = false) : b ≠ c := fun heq => by
            rw [heq, hc] at hkeep
            contradiction
          rw [List.singleton_append, unescape_cons (hb _ hpercent) (hb _ hplus), ih,
            Option.map_some]
      · rw [unescape_escapeByte, ih, Option.map_some]

theorem escape_of_kept (h : ∀ b ∈ bs, keep b) : escape keep bs = bs := by
  induction bs with
  | nil => rfl
  | cons b bs ih =>
      have hb := h b (List.mem_cons_self ..)
      have hrest := ih fun c hc => h c (List.mem_cons_of_mem b hc)
      rw [escape, List.flatMap_cons, if_pos hb]
      exact congrArg (b :: ·) hrest

theorem escape_append (bs cs : List UInt8) :
    escape keep (bs ++ cs) = escape keep bs ++ escape keep cs := List.flatMap_append

/-- Escaping again what was escaped, the bytes of escapes kept. -/
theorem escape_escape {keep' : UInt8 → Bool}
    (h : ∀ b, b = percent ∨ (hexValue b).isSome → keep' b) :
    escape keep' (escape keep bs) = escape (fun b => keep b && keep' b) bs := by
  have hdigit (n : Nat) (hn : n < 16) : keep' (hexDigit n) := by
    refine h _ (.inr ?_)
    rw [hexValue_hexDigit hn, Option.isSome_some]
  induction bs with
  | nil => rfl
  | cons b bs ih =>
      have hcons (k : UInt8 → Bool) : escape k (b :: bs) =
          (if k b then [b] else escapeByte b) ++ escape k bs := List.flatMap_cons
      rw [hcons, escape_append, ih, hcons]
      congr 1
      cases hkeep : keep b with
      | true => simp [escape]
      | false =>
          have hlt := b.toNat_lt
          rw [Bool.false_and, if_neg (by decide)]
          refine escape_of_kept fun c hc => ?_
          simp only [escapeByte, List.mem_cons, List.not_mem_nil, or_false] at hc
          rcases hc with rfl | rfl | rfl
          · exact h _ (.inl rfl)
          · exact hdigit _ (by omega)
          · exact hdigit _ (by omega)

/-- A byte that is neither kept nor used for escapes is not in what was escaped. -/
theorem notMem_escape {sep : UInt8} (hkeep : keep sep = false) (hpercent : sep ≠ percent)
    (hhex : hexValue sep = none) : sep ∉ escape keep bs := by
  intro hmem
  obtain ⟨b, -, hmem⟩ := List.mem_flatMap.mp hmem
  have hdigit (n : Nat) (hn : n < 16) : sep ≠ hexDigit n := fun heq => by
    rw [heq, hexValue_hexDigit hn] at hhex
    contradiction
  split at hmem
  · next hb =>
      rw [List.mem_singleton.mp hmem, hb] at hkeep
      contradiction
  · have hlt := b.toNat_lt
    simp only [escapeByte, List.mem_cons, List.not_mem_nil, or_false] at hmem
    rcases hmem with h | h | h
    · exact hpercent h
    · exact hdigit _ (by omega) h
    · exact hdigit _ (by omega) h

end

/-! ## Parameters -/

/-- A parameter as it stands between two `&`, `none` where the reader skips it. -/
def readPair (piece : List UInt8) : Option (List UInt8 × List UInt8) :=
  if semicolon ∈ piece ∨ piece = [] then none
  else
    let (key, value) := (splitOnce equals piece).getD (piece, [])
    match unescape key, unescape value with
    | some key, some value => some (key, value)
    | _, _ => none

/-- The parameters of a query, in their order. -/
def parse (query : List UInt8) : List (List UInt8 × List UInt8) :=
  (query.splitOn ampersand).filterMap readPair

/-- The first value of a parameter, empty where there is none. -/
def get (params : List (List UInt8 × List UInt8)) (key : List UInt8) : List UInt8 :=
  ((params.find? (·.1 == key)).map (·.2)).getD []

def writePair (keep : UInt8 → Bool) (p : List UInt8 × List UInt8) : List UInt8 :=
  escape keep p.1 ++ equals :: escape keep p.2

def write (keep : UInt8 → Bool) (params : List (List UInt8 × List UInt8)) : List UInt8 :=
  [ampersand].intercalate (params.map (writePair keep))

/-- The bytes that mean something in a query are escaped. -/
structure Safe (keep : UInt8 → Bool) : Prop where
  percent : keep percent = false
  plus : keep plus = false
  ampersand : keep ampersand = false
  semicolon : keep semicolon = false
  equals : keep equals = false

section

variable {keep : UInt8 → Bool} {params : List (List UInt8 × List UInt8)}

theorem readPair_writePair (h : Safe keep) (p : List UInt8 × List UInt8) :
    readPair (writePair keep p) = some p := by
  have hsemicolon (bs : List UInt8) : semicolon ∉ escape keep bs :=
    notMem_escape h.semicolon (by decide) (by decide)
  have hequals : equals ∉ escape keep p.1 := notMem_escape h.equals (by decide) (by decide)
  have hread : ¬ (semicolon ∈ writePair keep p ∨ writePair keep p = []) := by
    have hne : semicolon ≠ equals := by decide
    simp [writePair, hsemicolon, hne]
  have hsplit : splitOnce equals (writePair keep p) = some (escape keep p.1, escape keep p.2) :=
    splitOnce_eq_some_iff.mpr ⟨rfl, hequals⟩
  rw [readPair, if_neg hread, hsplit]
  simp only [Option.getD_some, unescape_escape h.percent h.plus]

theorem notMem_writePair (h : Safe keep) (p : List UInt8 × List UInt8) :
    ampersand ∉ writePair keep p := by
  have hescape (bs : List UInt8) : ampersand ∉ escape keep bs :=
    notMem_escape h.ampersand (by decide) (by decide)
  have hne : ampersand ≠ equals := by decide
  simp [writePair, hescape, hne]

/-- A query that is escaped once more, as a URL is when it is parsed. -/
theorem escape_write {keep' : UInt8 → Bool} (h : ∀ b, b = percent ∨ (hexValue b).isSome → keep' b)
    (hampersand : keep' ampersand) (hequals : keep' equals) :
    escape keep' (write keep params) = write (fun b => keep b && keep' b) params := by
  have hpair (p : List UInt8 × List UInt8) : escape keep' (writePair keep p) =
      writePair (fun b => keep b && keep' b) p := by
    have hsep : escape keep' [equals] = [equals] := escape_of_kept (by simpa using hequals)
    rw [writePair, escape_append, escape_escape h, writePair, ← List.singleton_append,
      escape_append, escape_escape h, hsep, List.singleton_append]
  induction params with
  | nil => rfl
  | cons p params ih =>
      cases params with
      | nil => simpa [write] using hpair p
      | cons q params =>
          have hcons (k : UInt8 → Bool) : write k (p :: q :: params) =
              writePair k p ++ [ampersand] ++ write k (q :: params) := by
            simp [write]
          have hsep : escape keep' [ampersand] = [ampersand] :=
            escape_of_kept (by simpa using hampersand)
          rw [hcons, escape_append, escape_append, hpair, hsep, ih, hcons]

/-- **Parameters are read as they were written.** -/
theorem parse_write (h : Safe keep) : parse (write keep params) = params := by
  cases params with
  | nil => rfl
  | cons p params =>
      rw [parse, write, List.splitOn_intercalate ampersand ?_ (by simp), List.filterMap_map]
      · have hread : readPair ∘ writePair keep = some := funext fun p => readPair_writePair h p
        rw [hread, List.filterMap_some]
      · intro piece hpiece
        obtain ⟨p, -, rfl⟩ := List.mem_map.mp hpiece
        exact notMem_writePair h p

end

end Query
