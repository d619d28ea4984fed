import Mathlib.Data.List.Nodup
import Mathlib.Data.Nat.Prime.Basic
import RemoteBridge.Binary64
import RemoteBridge.Unicode

/-!
# Json

JSON texts as the values they write, how a program in JavaScript writes one
(`JSON.stringify`) and how a program in Rust reads one (serde_json, and the readers that
serde derives).

An object is the list of its entries: a text may repeat a key, and a derived reader then
fails.  A number is kept as it is written, since readers differ in what they make of it.
-/

open Unicode (Text WellFormed)

/-- A number as it is written: its digits without the point, how many of them stand behind the
point, and the exponent. -/
structure Numeral where
  digits : ℤ
  fraction : Nat
  exponent : Option ℤ
deriving DecidableEq

namespace Numeral

def value (x : Numeral) : ℚ := x.digits * 10 ^ (x.exponent.getD 0 - x.fraction : ℤ)

def ofInt (n : ℤ) : Numeral := ⟨n, 0, none⟩

@[simp] theorem value_ofInt (n : ℤ) : (ofInt n).value = n := by simp [value, ofInt]

/-- Written as an integer of 64 bits, with or without a sign. -/
def isInteger (x : Numeral) : Bool :=
  x.fraction = 0 ∧ x.exponent = none ∧ -2 ^ 63 ≤ x.digits ∧ x.digits < 2 ^ 64

theorem isInteger_toNat (n : UInt32) : (ofInt n.toNat).isInteger := by
  have hlt := n.toNat_lt
  exact decide_eq_true ⟨rfl, rfl, by simp only [ofInt]; omega, by simp only [ofInt]; omega⟩

/-- All decimals of a dyadic number. -/
def exact (q : ℚ) : Numeral := ⟨q.num * 5 ^ q.den.log2, q.den.log2, none⟩

theorem value_exact {q : ℚ} {k : Nat} (h : q.den = 2 ^ k) : (exact q).value = q := by
  have hpow : ((5 : ℚ) ^ k) * 10 ^ (-(k : ℤ)) = ((2 : ℚ) ^ k)⁻¹ := by
    rw [zpow_neg, zpow_natCast, ← div_eq_mul_inv, ← div_pow, ← inv_pow]
    norm_num
  rw [value, exact, h, Nat.log2_two_pow]
  simp only [Option.getD_none, zero_sub, Int.cast_mul, Int.cast_pow, Int.cast_ofNat]
  rw [mul_assoc, hpow, ← div_eq_mul_inv]
  nth_rewrite 2 [← Rat.num_div_den q]
  rw [h, Nat.cast_pow, Nat.cast_ofNat]

theorem exact_natCast (n : Nat) : exact n = ofInt n := by
  have hlog : Nat.log2 1 = 0 := rfl
  rw [exact, Rat.num_natCast, Rat.den_natCast, hlog, pow_zero, mul_one, ofInt]

end Numeral

/-- How serde_json reads a number as an `f64`: none if the number is out of range.  Without its
feature `float_roundtrip` it does not promise the double that is nearest. -/
class SerdeJson where
  number : Numeral → Option Binary64

/-- A reader that rounds to the nearest double. -/
@[reducible] def SerdeJson.nearest : SerdeJson where
  number x := if (Binary64.nearest x.value).isFinite then some (.nearest x.value) else none

inductive Json where
  | null
  | bool (value : Bool)
  | number (numeral : Numeral)
  | string (value : Text)
  | array (items : List Json)
  | object (entries : List (Text × Json))

namespace Json

variable {tag name : Text} {entries : List (Text × Json)} {names : List Text} {items : List Json}

/-! ## Numbers -/

/-- How JavaScript writes doubles: in decimals to which no other double is as near. -/
structure Decimals where
  print : ℚ → Numeral
  nearest_print : ∀ q h, Binary64.nearest (print q).value = .finite q h

/-- The denominator of a double is a power of two. -/
theorem exists_den_eq {q : ℚ} (h : Binary64.Representable q) : ∃ k, q.den = 2 ^ k := by
  obtain ⟨-, m, e, -, -, rfl⟩ := h
  cases e with
  | ofNat n =>
      have hint : (m : ℚ) * 2 ^ Int.ofNat n = ((m * 2 ^ n : ℤ) : ℚ) := by simp
      exact ⟨0, by rw [hint, Rat.den_intCast, pow_zero]⟩
  | negSucc n =>
      have hdiv : (m : ℚ) * 2 ^ Int.negSucc n = Rat.divInt m (2 ^ (n + 1)) := by
        rw [Rat.divInt_eq_div, zpow_negSucc, ← div_eq_mul_inv]
        push_cast
        rfl
      have hdvd : (Rat.divInt m (2 ^ (n + 1))).den ∣ 2 ^ (n + 1) := by
        exact_mod_cast Rat.den_dvd m (2 ^ (n + 1))
      obtain ⟨k, -, hk⟩ := (Nat.dvd_prime_pow Nat.prime_two).mp hdvd
      exact ⟨k, by rw [hdiv, hk]⟩

/-- Every digit of every double. -/
def Decimals.exact : Decimals where
  print := .exact
  nearest_print q h := by
    obtain ⟨k, hk⟩ := exists_den_eq h
    rw [Numeral.value_exact hk, Binary64.nearest_of_representable h]

/-- A number as `JSON.stringify` writes it: null if it is not finite. -/
def ofNumber (decimals : Decimals) : Binary64 → Json
  | .finite x _ => .number (decimals.print x)
  | _ => .null

/-! ## What can be read -/

/-- A string without lone surrogates, or a number in range. -/
def readableScalar [SerdeJson] : Json → Bool
  | .string t => WellFormed t
  | .number x => x.isInteger || (SerdeJson.number x).isSome
  | _ => true

/-- Whether serde_json reads a value, which is nested at most `depth` deep. -/
def readable [SerdeJson] : Nat → Json → Bool
  | 0, .array _ | 0, .object _ => false
  | depth + 1, .array items => items.all (readable depth)
  | depth + 1, .object entries =>
      entries.all fun e => decide (WellFormed e.1) && readable depth e.2
  | _, json => json.readableScalar

/-- The depth up to which serde_json reads. -/
def depthLimit : Nat := 127

@[simp] theorem readable_null [SerdeJson] {depth : Nat} : readable depth .null = true := by
  cases depth <;> rfl

@[simp] theorem readable_string [SerdeJson] {depth : Nat} {t : Text} :
    readable depth (.string t) = decide (WellFormed t) := by
  cases depth <;> rfl

@[simp] theorem readable_number [SerdeJson] {depth : Nat} {x : Numeral} :
    readable depth (.number x) = (x.isInteger || (SerdeJson.number x).isSome) := by
  cases depth <;> rfl

theorem readable_object [SerdeJson] {depth : Nat} : readable (depth + 1) (.object entries) ↔
    ∀ e ∈ entries, WellFormed e.1 ∧ readable depth e.2 := by
  rw [readable, List.all_eq_true]
  simp only [Bool.and_eq_true, decide_eq_true_eq]

theorem readable_array [SerdeJson] {depth : Nat} :
    readable (depth + 1) (.array items) ↔ ∀ item ∈ items, readable depth item := by
  rw [readable, List.all_eq_true]

/-! ## Readers -/

/-- `f64`. -/
def f64 [SerdeJson] : Json → Option Binary64
  | .number x => SerdeJson.number x
  | _ => none

/-- `String`. -/
def toText : Json → Option Text
  | .string t => some t
  | _ => none

/-- `u32`, of a number that is written without a point or an exponent. -/
def u32 : Json → Option UInt32
  | .number x =>
      if x.fraction = 0 ∧ x.exponent = none ∧ 0 ≤ x.digits ∧ x.digits < 2 ^ 32 then
        some (UInt32.ofNat x.digits.toNat)
      else none
  | _ => none

/-- `Option`. -/
def toOption {α : Type} (read : Json → Option α) : Json → Option (Option α)
  | .null => some none
  | json => (read json).map some

/-- `Vec`. -/
def toList {α : Type} (read : Json → Option α) : Json → Option (List α)
  | .array items => items.mapM read
  | _ => none

/-- The name of a variant without fields: a string, or the one key of an object that holds
nothing. -/
def unitVariant : Json → Option Text
  | .string name => some name
  | .object [(name, .null)] | .object [(name, .object [])] => some name
  | _ => none

/-- What there is besides the tag of a tagged value. -/
inductive Body where
  | map (entries : List (Text × Json))
  | seq (items : List Json)

/-- An internally tagged value, as the name in its tag and the rest.  The tag of a sequence
is its first item. -/
def tagged (tag : Text) : Json → Option (Text × Body)
  | .object entries =>
      match entries.filter (·.1 = tag) with
      | [(_, .string name)] => some (name, .map (entries.filter (·.1 ≠ tag)))
      | _ => none
  | .array (.string name :: items) => some (name, .seq items)
  | _ => none

/-- What a struct is read from. -/
def body : Json → Option Body
  | .object entries => some (.map entries)
  | .array items => some (.seq items)
  | _ => none

/-- The value of a field, if it is there; none if it is there twice. -/
def field (entries : List (Text × Json)) (name : Text) : Option (Option Json) :=
  match entries.filter (·.1 = name) with
  | [] => some none
  | [(_, value)] => some (some value)
  | _ => none

/-- The values of the named fields.  Other entries of an object are ignored; the items of a
sequence are the fields in their order, and there are no more of them. -/
def Body.fields (names : List Text) : Body → Option (List (Option Json))
  | .map entries => names.mapM (field entries)
  | .seq items =>
      if items.length ≤ names.length then
        some (items.map some ++ List.replicate (names.length - items.length) none)
      else none

/-! ## Reading what was written -/

/-- What serde_json makes of a number that JavaScript writes. -/
def reread [SerdeJson] (decimals : Decimals) (x : Binary64) : Option Binary64 :=
  (ofNumber decimals x).f64

theorem reread_eq_none [SerdeJson] (decimals : Decimals) {x : Binary64} (h : x.isFinite = false) :
    reread decimals x = none := by
  cases x with
  | finite => contradiction
  | nan | infinite => rfl

/-- A value with a number that is not read is not read. -/
theorem readable_ofNumber [SerdeJson] {decimals : Decimals} {depth : Nat} {x y : Binary64}
    (h : reread decimals x = some y) : readable depth (ofNumber decimals x) := by
  cases x with
  | finite x hx =>
      have hsome : (SerdeJson.number (decimals.print x)).isSome := Option.isSome_of_eq_some h
      rw [ofNumber, readable_number, hsome, Bool.or_true]
  | nan | infinite => contradiction

theorem u32_toNat (n : UInt32) : u32 (.number (.ofInt n.toNat)) = some n := by
  have hlt : (n.toNat : ℤ) < 2 ^ 32 := by exact_mod_cast n.toNat_lt
  have hnonneg : (0 : ℤ) ≤ n.toNat := Int.natCast_nonneg _
  rw [Numeral.ofInt, u32, if_pos ⟨rfl, rfl, hnonneg, hlt⟩, Int.toNat_natCast, UInt32.ofNat_toNat]

theorem toList_map {α : Type} {read : Json → Option α} {write : α → Json} {xs : List α}
    (h : ∀ x ∈ xs, read (write x) = some x) : toList read (.array (xs.map write)) = some xs := by
  rw [toList, List.mapM_map, Fields.mapM_eq_some (f := read ∘ write) h, List.map_id']

theorem filter_absent (h : name ∉ entries.map Prod.fst) :
    entries.filter (·.1 = name) = [] := by
  rw [List.filter_eq_nil_iff]
  intro e he heq
  exact h (of_decide_eq_true heq ▸ List.mem_map_of_mem he)

/-- An object that has its tag first. -/
theorem tagged_cons (h : tag ∉ entries.map Prod.fst) :
    tagged tag (.object ((tag, .string name) :: entries)) = some (name, .map entries) := by
  have hrest : entries.filter (·.1 ≠ tag) = entries := by
    rw [List.filter_eq_self]
    intro e he
    exact decide_eq_true fun heq => h (heq ▸ List.mem_map_of_mem he)
  rw [tagged, List.filter_cons_of_pos (by simp), filter_absent h,
    List.filter_cons_of_neg (by simp), hrest]

theorem field_of_mem {value : Json} (hnodup : (entries.map Prod.fst).Nodup)
    (h : (name, value) ∈ entries) : field entries name = some (some value) := by
  induction entries with
  | nil => contradiction
  | cons e entries ih =>
      rw [List.map_cons, List.nodup_cons] at hnodup
      obtain ⟨hhead, hnodup⟩ := hnodup
      rw [field, List.filter_cons]
      obtain rfl | h := List.mem_cons.mp h
      · rw [if_pos (by simp), filter_absent hhead]
      · have hne : e.1 ≠ name := fun heq => hhead (heq ▸ List.mem_map_of_mem h)
        rw [if_neg (by simpa using hne)]
        exact ih hnodup h

/-- The fields of an object that has exactly these. -/
theorem fields_map (h : (entries.map Prod.fst).Nodup) :
    (Body.map entries).fields (entries.map Prod.fst) = some (entries.map fun e => some e.2) := by
  rw [Body.fields, List.mapM_map]
  exact Fields.mapM_eq_some fun e he => field_of_mem h he

/-! ## JavaScript -/

/-- `json[name]`, none where it is undefined: the last entry of the name. -/
def property (name : Text) : Json → Option Json
  | .object entries => (entries.findRev? (·.1 = name)).map (·.2)
  | _ => none

/-- `json || other` -/
def orElse (json : Option Json) (other : Json) : Json :=
  match json with
  | none | some .null | some (.bool false) | some (.string []) => other
  | some (.number x) => if Binary64.nearest x.value = Binary64.ofInt 0 then other else .number x
  | some json => json

/-- A value other than an array or an object that was read by `JSON.parse`, as
`JSON.stringify` writes it. -/
def stringified (decimals : Decimals) : Json → Json
  | .number x => ofNumber decimals (.nearest x.value)
  | json => json

end Json
