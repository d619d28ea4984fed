import Mathlib.Data.Vector.Defs
import RemoteBridge.Bytes

/-!
# Wire

Readers that take values off the front of a byte string.

A reader stops when the bytes run out, with an error of its own, or in a panic.
What was written for it is stated with `Reads`: the reader takes exactly the
written bytes, whatever follows them, so the law of a message is put together
from the laws of its fields.
-/

namespace Wire

open Bytes

variable {ε α β : Type}

/-- Why a reader or a writer stops. -/
inductive Stop (ε : Type)
  | eof
  | err (e : ε)
  | panicked
  deriving DecidableEq, Repr

/-- A reader of values from the front of a byte string. -/
abbrev Reader (ε α : Type) := StateT (List UInt8) (Except (Stop ε)) α

/-! ## Readers -/

/-- One byte. -/
def byte : Reader ε UInt8 := fun bs =>
  match bs with
  | [] => .error .eof
  | b :: bs => .ok (b, bs)

/-- Exactly `n` bytes. -/
def exactly (n : Nat) : Reader ε (List UInt8) := fun bs =>
  if n ≤ bs.length then .ok (bs.take n, bs.drop n) else .error .eof

/-- An array of `n` bytes. -/
def array (n : Nat) : Reader ε (List.Vector UInt8 n) := fun bs =>
  if h : n ≤ bs.length then .ok (⟨bs.take n, List.length_take_of_le h⟩, bs.drop n) else .error .eof

/-- A number in `n` bytes, most significant first. -/
def uint (n : Nat) : Reader ε Nat := do
  let bs ← exactly n
  pure (bigEndian bs)

/-- A 16-bit number. -/
def u16 : Reader ε UInt16 := do
  let v ← uint 2
  pure (UInt16.ofNat v)

/-- All the bytes there are. -/
def toEnd : Reader ε (List UInt8) := fun bs => .ok (bs, [])

/-- The reader's own error. -/
def fail (e : ε) : Reader ε α := throw (.err e)

/-- The same value `n` times. -/
def times (r : Reader ε α) : Nat → Reader ε (List α)
  | 0 => pure []
  | n + 1 => do
      let a ← r
      let as ← times r n
      pure (a :: as)

/-! ## What a reader makes of written bytes -/

/-- The reader takes exactly `w` and gives `a`, whatever follows. -/
def Reads (r : Reader ε α) (w : List UInt8) (a : α) : Prop :=
  ∀ tail, r (w ++ tail) = .ok (a, tail)

section

variable {r : Reader ε α} {f : α → Reader ε β} {w w' : List UInt8} {a : α} {b : β}

theorem bind_apply (r : Reader ε α) (f : α → Reader ε β) (bs : List UInt8) :
    (r >>= f) bs = (r bs).bind fun p => f p.1 p.2 := rfl

/-- A sequence that succeeded: its first part did, and the rest on what it left. -/
theorem bind_eq_ok {bs : List UInt8} {p : β × List UInt8} :
    (r >>= f) bs = .ok p ↔ ∃ a tail, r bs = .ok (a, tail) ∧ f a tail = .ok p := by
  rw [bind_apply]
  cases h : r bs with
  | error e => simp [Except.bind]
  | ok q =>
      obtain ⟨a, tail⟩ := q
      simp only [Except.bind, Except.ok.injEq, Prod.mk.injEq]
      exact ⟨fun h => ⟨a, tail, ⟨rfl, rfl⟩, h⟩, fun ⟨_, _, ⟨ha, ht⟩, h⟩ => ha ▸ ht ▸ h⟩

theorem pure_eq_ok {bs : List UInt8} {p : α × List UInt8} :
    (pure a : Reader ε α) bs = .ok p ↔ p = (a, bs) := by
  show Except.ok (a, bs) = .ok p ↔ _
  rw [Except.ok.injEq, eq_comm]

theorem reads_pure (a : α) : Reads (pure a : Reader ε α) [] a := fun _ => rfl

theorem reads_lift {x : Except (Stop ε) α} (h : x = .ok a) :
    Reads (StateT.lift x : Reader ε α) [] a := by
  intro tail
  rw [h]
  rfl

theorem Reads.bind (h : Reads r w a) (h' : Reads (f a) w' b) : Reads (r >>= f) (w ++ w') b := by
  intro tail
  rw [List.append_assoc, bind_eq_ok]
  exact ⟨a, w' ++ tail, h _, h' tail⟩

/-- The last field of a message. -/
theorem Reads.bind_pure {g : α → β} (h : Reads r w a) :
    Reads (r >>= fun a => pure (g a)) w (g a) := by
  have := h.bind (f := fun a => pure (g a)) (reads_pure (g a))
  rwa [List.append_nil] at this

/-- A first byte. -/
theorem Reads.byte_bind {f : UInt8 → Reader ε β} {x : UInt8} (h : Reads (f x) w b) :
    Reads (byte >>= f) (x :: w) b := fun tail => h tail

end

/-! ## The laws of the readers -/

theorem reads_exactly (w : List UInt8) : Reads (exactly w.length : Reader ε _) w w := by
  intro tail
  rw [exactly, if_pos (by simp), List.take_left, List.drop_left]

theorem reads_array {n : Nat} (w : List.Vector UInt8 n) :
    Reads (array n : Reader ε _) w.toList w := by
  intro tail
  obtain ⟨w, rfl⟩ := w
  show array _ (w ++ tail) = _
  rw [array, dif_pos (by simp)]
  simp

theorem bigEndian_toBigEndian (n : Nat) {v : Nat} (h : v < 256 ^ n) :
    bigEndian (toBigEndian n v) = v := by
  induction n generalizing v with
  | zero => simp [toBigEndian, bigEndian]; omega
  | succ n ih =>
      have hpos : 0 < 256 ^ n := Nat.pow_pos (by omega)
      have hdiv : v / 256 ^ n < 256 := Nat.div_lt_of_lt_mul (by rw [← Nat.pow_succ]; exact h)
      have hlow : bigEndian (toBigEndian n v) = v % 256 ^ n := by
        rw [← toBigEndian_mod (Nat.le_refl n), ih (Nat.mod_lt _ hpos)]
      rw [toBigEndian, bigEndian, length_toBigEndian, hlow, UInt8.toNat_ofNat',
        Nat.mod_eq_of_lt hdiv, Nat.pow_mul]
      exact Nat.div_add_mod v (256 ^ n)

theorem reads_uint {n v : Nat} (h : v < 256 ^ n) :
    Reads (uint n : Reader ε Nat) (toBigEndian n v) v := by
  have hread := (reads_exactly (ε := ε) (toBigEndian n v)).bind_pure (g := bigEndian)
  rw [length_toBigEndian, bigEndian_toBigEndian n h] at hread
  exact hread

theorem reads_u16 (v : UInt16) : Reads (u16 : Reader ε UInt16) (toBigEndian 2 v.toNat) v := by
  have hread := (reads_uint (ε := ε) (n := 2) v.toNat_lt).bind_pure (g := UInt16.ofNat)
  rwa [UInt16.ofNat_toNat] at hread

/-- Items written one after the other are read one after the other. -/
theorem reads_times {r : Reader ε α} {write : β → List UInt8} {value : β → α} {items : List β}
    (h : ∀ x ∈ items, Reads r (write x) (value x)) :
    Reads (times r items.length) (items.flatMap write) (items.map value) := by
  induction items with
  | nil => exact reads_pure []
  | cons x items ih =>
      have hx := h x (List.mem_cons_self ..)
      have hrest := ih fun y hy => h y (List.mem_cons_of_mem x hy)
      rw [List.flatMap_cons, List.length_cons, List.map_cons]
      exact hx.bind hrest.bind_pure

/-! ## What a reader that succeeded did -/

/-- When the reader succeeds, it took the first `n` bytes, and saw no others. -/
def Takes (r : Reader ε α) (n : Nat) : Prop :=
  ∀ bs a tail, r bs = .ok (a, tail) → n ≤ bs.length ∧ tail = bs.drop n ∧ Reads r (bs.take n) a

/-- When the reader succeeds, its value satisfies `P`. -/
def Gives (r : Reader ε α) (P : α → Prop) : Prop :=
  ∀ bs a tail, r bs = .ok (a, tail) → P a

section

variable {r r' : Reader ε α} {f : α → Reader ε β} {n m : Nat} {P : α → Prop} {Q : β → Prop}

theorem takes_pure (a : α) : Takes (pure a : Reader ε α) 0 := by
  intro bs b tail h
  obtain ⟨rfl, rfl⟩ := Prod.mk.inj (pure_eq_ok.mp h)
  exact ⟨Nat.zero_le _, rfl, reads_pure b⟩

theorem takes_fail (e : ε) (n : Nat) : Takes (fail e : Reader ε α) n := by
  intro bs a tail h
  cases h

theorem takes_exactly (n : Nat) : Takes (exactly n : Reader ε _) n := by
  intro bs a tail h
  rw [exactly] at h
  split at h
  · next hn =>
      cases h
      have hread := reads_exactly (ε := ε) (bs.take n)
      rw [List.length_take, Nat.min_eq_left hn] at hread
      exact ⟨hn, rfl, hread⟩
  · cases h

theorem takes_byte : Takes (byte : Reader ε _) 1 := by
  intro bs a tail h
  cases bs with
  | nil => cases h
  | cons b bs =>
      cases h
      exact ⟨by simp, rfl, fun _ => rfl⟩

theorem Takes.bind (h : Takes r n) (h' : ∀ a, Takes (f a) m) : Takes (r >>= f) (n + m) := by
  intro bs b tail hread
  obtain ⟨a, rest, hr, hf⟩ := bind_eq_ok.mp hread
  obtain ⟨hn, rfl, hreads⟩ := h bs a rest hr
  obtain ⟨hm, rfl, hreads'⟩ := h' a _ b tail hf
  rw [List.length_drop] at hm
  refine ⟨by omega, List.drop_drop .., ?_⟩
  rw [List.take_add]
  exact hreads.bind hreads'

theorem takes_uint (n : Nat) : Takes (uint n : Reader ε _) n :=
  (takes_exactly n).bind fun _ => takes_pure _

theorem takes_u16 : Takes (u16 : Reader ε _) 2 := (takes_uint 2).bind fun _ => takes_pure _

theorem Takes.ite {c : Prop} [Decidable c] (h : Takes r n) (h' : Takes r' n) :
    Takes (if c then r else r') n := by
  split
  · exact h
  · exact h'

theorem gives_pure {a : α} (h : P a) : Gives (pure a : Reader ε α) P := by
  intro bs b tail hread
  obtain ⟨rfl, -⟩ := Prod.mk.inj (pure_eq_ok.mp hread)
  exact h

theorem gives_fail (e : ε) (P : α → Prop) : Gives (fail e : Reader ε α) P := by
  intro bs a tail h
  cases h

theorem Gives.bind (h : Gives r P) (h' : ∀ a, P a → Gives (f a) Q) : Gives (r >>= f) Q := by
  intro bs b tail hread
  obtain ⟨a, rest, hr, hf⟩ := bind_eq_ok.mp hread
  exact h' a (h bs a rest hr) rest b tail hf

theorem gives_trivial (r : Reader ε α) : Gives r fun _ => True := fun _ _ _ _ => trivial

/-- A number read from `n` bytes fits them. -/
theorem gives_uint (n : Nat) : Gives (uint n : Reader ε _) fun v => v < 256 ^ n := by
  intro bs v tail h
  obtain ⟨a, rest, hr, hv⟩ := bind_eq_ok.mp h
  obtain ⟨rfl, -⟩ := Prod.mk.inj (pure_eq_ok.mp hv)
  rw [exactly] at hr
  split at hr
  · next hn =>
      obtain ⟨rfl, -⟩ := Prod.mk.inj (Except.ok.inj hr)
      have hlt := bigEndian_lt (bs.take n)
      rwa [List.length_take, Nat.min_eq_left hn, Nat.pow_mul] at hlt
  · cases hr

end

/-! ## Readers that do not panic -/

/-- The reader never panics, whatever the bytes. -/
def Calm (r : Reader ε α) : Prop := ∀ bs, r bs ≠ .error .panicked

section

variable {r : Reader ε α} {f : α → Reader ε β}

theorem calm_pure (a : α) : Calm (pure a : Reader ε α) := nofun

theorem calm_byte : Calm (byte : Reader ε _) := by
  rintro (_ | _) h <;> cases h

theorem calm_exactly (n : Nat) : Calm (exactly n : Reader ε _) := by
  intro bs h
  rw [exactly] at h
  split at h <;> cases h

theorem calm_array (n : Nat) : Calm (array n : Reader ε _) := by
  intro bs h
  rw [array] at h
  split at h <;> cases h

theorem Calm.bind (h : Calm r) (h' : ∀ a, Calm (f a)) : Calm (r >>= f) := by
  intro bs hpanic
  rw [bind_apply] at hpanic
  cases hr : r bs with
  | error e =>
      rw [hr] at hpanic
      obtain rfl : e = .panicked := Except.error.inj hpanic
      exact h bs hr
  | ok p =>
      rw [hr] at hpanic
      exact h' p.1 p.2 hpanic

theorem calm_u16 : Calm (u16 : Reader ε _) :=
  ((calm_exactly 2).bind fun _ => calm_pure _).bind fun _ => calm_pure _

theorem calm_times (h : Calm r) (n : Nat) : Calm (times r n) := by
  induction n with
  | zero => exact calm_pure _
  | succ n ih => exact h.bind fun _ => ih.bind fun _ => calm_pure _

end

end Wire
