import RemoteBridge.Machine

/-!
# Viewer.Certificate

The certificate by which a browser is known to the host, over all visits of the page
(`loadCertificate`).  It is kept in IndexedDB, which any number of open pages share; each call
for it may fail.

Times are in milliseconds.
-/

namespace RemoteBridge

/-- An `RTCCertificate`: its key, by a number of its own, and when it expires. -/
structure RtcCertificate where
  key : Nat
  expires : Nat
deriving DecidableEq

/-- A page, at what its `loadCertificate` waits for. -/
inductive Visit where
  | opening
  | getting
  | generating (db : Bool)
  | storing (certificate : RtcCertificate) (chosen : Nat)
  /-- it has its certificate, chosen at this time -/
  | loaded (certificate : RtcCertificate) (chosen : Nat)
  /-- no certificate could be generated -/
  | failed
deriving DecidableEq

/-- A browser: the stored certificate, the pages, and how many keys were generated. -/
structure Browser where
  clock : Nat
  stored : Option RtcCertificate
  visits : List Visit
  generated : Nat
deriving DecidableEq

namespace Browser

def certLifetimeMs : Nat := 365 * 24 * 3600 * 1000

def dayMs : Nat := 24 * 3600 * 1000

def init : Browser := ⟨0, none, [], 0⟩

inductive Event where
  | wait (d : Nat)
  | visit
  /-- `openKeyStore` -/
  | opened (i : Nat) (ok : Bool)
  /-- the `get` of the certificate -/
  | got (i : Nat) (ok : Bool)
  /-- `generateCertificate` -/
  | generated (i : Nat) (ok : Bool)
  /-- the `put` of the certificate -/
  | put (i : Nat) (ok : Bool)

/-- What a page goes on with once it has read the store. -/
def choose (b : Browser) : Visit :=
  match b.stored with
  | some stored =>
      if stored.expires > b.clock + dayMs then .loaded stored b.clock else .generating true
  | none => .generating true

def set (b : Browser) (i : Nat) (v : Visit) : Browser := { b with visits := b.visits.set i v }

def step (b : Browser) : Event → Option Browser
  | .wait d => some { b with clock := b.clock + d }
  | .visit => some { b with visits := b.visits ++ [.opening] }
  | .opened i ok =>
      match b.visits[i]? with
      | some .opening => some (b.set i (if ok then .getting else .generating false))
      | _ => none
  | .got i ok =>
      match b.visits[i]? with
      | some .getting => some (b.set i (if ok then b.choose else .generating true))
      | _ => none
  | .generated i ok =>
      match b.visits[i]? with
      | some (.generating db) =>
          if ok then
            let certificate : RtcCertificate := ⟨b.generated, b.clock + certLifetimeMs⟩
            let visit : Visit :=
              if db then .storing certificate b.clock else .loaded certificate b.clock
            some { b.set i visit with generated := b.generated + 1 }
          else some (b.set i .failed)
      | _ => none
  | .put i ok =>
      match b.visits[i]? with
      | some (.storing certificate chosen) =>
          some { b.set i (.loaded certificate chosen) with
            stored := if ok then some certificate else b.stored }
      | _ => none

def machine : Machine Browser Event := ⟨step⟩

/-! ## What a page has -/

variable {b b' : Browser} {e : Event} {es es' : List Event} {c : RtcCertificate}

/-- What a step does. -/
inductive Step (b : Browser) : Event → Browser → Prop
  | waited {d} : Step b (.wait d) { b with clock := b.clock + d }
  | visited : Step b .visit { b with visits := b.visits ++ [.opening] }
  | opened {i} (hv : b.visits[i]? = some .opening) : Step b (.opened i true) (b.set i .getting)
  | unopened {i} (hv : b.visits[i]? = some .opening) :
      Step b (.opened i false) (b.set i (.generating false))
  | got {i} (hv : b.visits[i]? = some .getting) : Step b (.got i true) (b.set i b.choose)
  | ungot {i} (hv : b.visits[i]? = some .getting) :
      Step b (.got i false) (b.set i (.generating true))
  | generated {i} (hv : b.visits[i]? = some (.generating true)) :
      Step b (.generated i true)
        { b.set i (.storing ⟨b.generated, b.clock + certLifetimeMs⟩ b.clock) with
          generated := b.generated + 1 }
  | unkept {i} (hv : b.visits[i]? = some (.generating false)) :
      Step b (.generated i true)
        { b.set i (.loaded ⟨b.generated, b.clock + certLifetimeMs⟩ b.clock) with
          generated := b.generated + 1 }
  | failed {i db} (hv : b.visits[i]? = some (.generating db)) :
      Step b (.generated i false) (b.set i .failed)
  | put {i ok certificate chosen} (hv : b.visits[i]? = some (.storing certificate chosen)) :
      Step b (.put i ok)
        { b.set i (.loaded certificate chosen) with
          stored := if ok then some certificate else b.stored }

theorem Step.of_step (h : b.step e = some b') : Step b e b' := by
  cases e with
  | wait d => exact Option.some.inj h ▸ .waited
  | visit => exact Option.some.inj h ▸ .visited
  | opened i ok =>
      simp only [step] at h
      split at h
      · next hv =>
          cases ok
          · exact Option.some.inj h ▸ .unopened hv
          · exact Option.some.inj h ▸ .opened hv
      · contradiction
  | got i ok =>
      simp only [step] at h
      split at h
      · next hv =>
          cases ok
          · exact Option.some.inj h ▸ .ungot hv
          · exact Option.some.inj h ▸ .got hv
      · contradiction
  | generated i ok =>
      simp only [step] at h
      split at h
      · next db hv =>
          cases ok
          · exact Option.some.inj h ▸ .failed hv
          · cases db
            · exact Option.some.inj h ▸ .unkept hv
            · exact Option.some.inj h ▸ .generated hv
      · contradiction
  | put i ok =>
      simp only [step] at h
      split at h
      · next hv => exact Option.some.inj h ▸ .put hv
      · contradiction

/-- The page's certificate did not expire for more than a day when it was chosen. -/
def Lasts : Visit → Prop
  | .storing certificate chosen | .loaded certificate chosen => chosen + dayMs < certificate.expires
  | _ => True

theorem lasts_choose (b : Browser) : Lasts b.choose := by
  unfold choose
  split
  · split
    · next hlasts => exact hlasts
    · trivial
  · trivial

theorem lasts_generated (b : Browser) : b.clock + dayMs < b.clock + certLifetimeMs :=
  Nat.add_lt_add_left (by decide) _

theorem Step.lasts (h : ∀ v ∈ b.visits, Lasts v) (hstep : Step b e b') :
    ∀ v ∈ b'.visits, Lasts v := by
  have hset {i : Nat} {v' : Visit} (hv' : Lasts v') : ∀ v ∈ b.visits.set i v', Lasts v :=
    fun v hv => (List.mem_or_eq_of_mem_set hv).elim (h v) fun heq => heq ▸ hv'
  cases hstep with
  | waited => exact h
  | visited =>
      rw [List.forall_mem_append, List.forall_mem_singleton]
      exact ⟨h, trivial⟩
  | opened | unopened | ungot | failed => exact hset trivial
  | got => exact hset b.lasts_choose
  | generated | unkept => exact hset b.lasts_generated
  | put hv =>
      have hlasts := h _ (List.mem_of_getElem? hv)
      refine hset ?_
      exact hlasts

/-! ## Who stays who -/

/-- No page is about to have another certificate than the stored one. -/
def Calm (b : Browser) : Prop :=
  ∀ v ∈ b.visits, ∀ db certificate chosen,
    v ≠ .generating db ∧ v ≠ .storing certificate chosen

/-- The `i`-th page, which was there in `b` or came later. -/
def Kept (b : Browser) (c : RtcCertificate) (es : List Event) (i : Nat) : Visit → Prop
  | .opening | .getting | .failed => True
  | .generating db => db = false ∧ .opened i false ∈ es
  | .storing _ _ => False
  | .loaded certificate chosen =>
      b.visits[i]? = some (.loaded certificate chosen) ∨ certificate = c ∨ .opened i false ∈ es

theorem Kept.append {i : Nat} {v : Visit} (h : Kept b c es i v) : Kept b c (es ++ es') i v := by
  cases v with
  | opening | getting | failed => trivial
  | generating db => exact ⟨h.1, List.mem_append_left _ h.2⟩
  | storing => exact h.elim
  | loaded => exact h.imp_right (.imp_right (List.mem_append_left _))

/-- The certificate is stored, and the pages have it. -/
structure Keeps (b : Browser) (c : RtcCertificate) (es : List Event) (b' : Browser) : Prop where
  stored : b'.stored = some c
  visits : ∀ i v, b'.visits[i]? = some v → Kept b c es i v

theorem keeps_nil (hstored : b.stored = some c) (hcalm : b.Calm) : Keeps b c [] b := by
  refine ⟨hstored, fun i v hv => ?_⟩
  have hcalm := hcalm v (List.mem_of_getElem? hv)
  cases v with
  | opening | getting | failed => trivial
  | generating db => exact absurd rfl (hcalm db c 0).1
  | storing certificate chosen => exact absurd rfl (hcalm true certificate chosen).2
  | loaded => exact .inl hv

/-- A step in which no `get` fails, more than a day before the certificate expires. -/
theorem Keeps.step {b₀ : Browser} (h : Keeps b₀ c es b) (hstep : Step b e b')
    (hget : ∀ i, e ≠ .got i false) (hclock : b.clock + dayMs < c.expires) :
    Keeps b₀ c (es ++ [e]) b' := by
  have hold (j : Nat) (v : Visit) (hv : b.visits[j]? = some v) : Kept b₀ c (es ++ [e]) j v :=
    (h.visits j v hv).append
  have hset {i : Nat} {v' : Visit} (hv' : Kept b₀ c (es ++ [e]) i v') (j : Nat) (v : Visit)
      (hv : (b.visits.set i v')[j]? = some v) : Kept b₀ c (es ++ [e]) j v := by
    rw [List.getElem?_set] at hv
    split at hv
    · next heq =>
        split at hv
        · rw [← heq, ← Option.some.inj hv]
          exact hv'
        · contradiction
    · exact hold j v hv
  cases hstep with
  | waited => exact ⟨h.stored, hold⟩
  | visited =>
      refine ⟨h.stored, fun j v hv => ?_⟩
      rw [List.getElem?_append] at hv
      split at hv
      · exact hold j v hv
      · rw [List.mem_singleton.mp (List.mem_of_getElem? hv)]
        trivial
  | opened => exact ⟨h.stored, hset trivial⟩
  | unopened => exact ⟨h.stored, hset ⟨rfl, List.mem_append_right _ List.mem_cons_self⟩⟩
  | got hv =>
      have hchoose : b.choose = .loaded c b.clock := by
        rw [choose, h.stored]
        exact if_pos hclock
      refine ⟨h.stored, hset ?_⟩
      rw [hchoose]
      exact .inr (.inl rfl)
  | @ungot i => exact absurd rfl (hget i)
  | generated hv =>
      have hdb := (h.visits _ _ hv).1
      contradiction
  | unkept hv => exact ⟨h.stored, hset (.inr (.inr (List.mem_append_left _ (h.visits _ _ hv).2)))⟩
  | failed => exact ⟨h.stored, hset trivial⟩
  | put hv => exact (h.visits _ _ hv).elim

theorem clock_le (h : b.step e = some b') : b.clock ≤ b'.clock := by
  cases Step.of_step h with
  | waited => exact Nat.le_add_right _ _
  | _ => exact Nat.le_refl _

/-- **A browser keeps its certificate.**  Every certificate that a page has did not expire for
more than a day when it was chosen; and from a state in which one is stored and no page is about
to make another, it stays stored for as long as it does not expire within a day and no `get`
fails, and every page that comes to have a certificate has that one, unless it could not open
the store. -/
theorem certificate_kept (hrun : machine.Run init es b) :
    (∀ v ∈ b.visits, Lasts v) ∧
    ∀ c es' b', b.stored = some c → b.Calm → machine.Run b es' b' →
      (∀ i, .got i false ∉ es') → b'.clock + dayMs < c.expires → Keeps b c es' b' := by
  refine ⟨hrun.invariant (fun _ h => nomatch h) fun b e b' h hstep => (Step.of_step hstep).lasts h,
    fun c es' b' hstored hcalm hrun' => ?_⟩
  refine hrun'.rec_snoc (P := fun es' b' => (∀ i, .got i false ∉ es') →
    b'.clock + dayMs < c.expires → Keeps b c es' b') (fun _ _ => keeps_nil hstored hcalm)
    fun es' e b₁ b' _ ih hstep hget hclock => ?_
  have hearlier : b₁.clock + dayMs < c.expires :=
    Nat.lt_of_le_of_lt (Nat.add_le_add_right (clock_le hstep) _) hclock
  have hkeeps := ih (fun i hmem => hget i (List.mem_append_left _ hmem)) hearlier
  refine hkeeps.step (.of_step hstep) (fun i heq => hget i ?_) hearlier
  rw [heq]
  exact List.mem_append_right _ List.mem_cons_self

/-- A first visit, a second a month later that finds the certificate, and a third for which the
store does not open. -/
theorem certificate_kept_visits :
    ∃ b, machine.Run init [.visit, .opened 0 true, .got 0 true, .generated 0 true, .put 0 true] b ∧
      ∃ b', machine.Run b [.wait (30 * dayMs), .visit, .opened 1 true, .visit, .got 1 true,
          .opened 2 false, .generated 2 true] b' ∧
        Keeps b ⟨0, certLifetimeMs⟩ [.wait (30 * dayMs), .visit, .opened 1 true, .visit,
          .got 1 true, .opened 2 false, .generated 2 true] b' := by
  obtain ⟨b, hrun, hb⟩ := machine.exists_run init
    [.visit, .opened 0 true, .got 0 true, .generated 0 true, .put 0 true]
    (fun b => decide (b = ⟨0, some ⟨0, certLifetimeMs⟩, [.loaded ⟨0, certLifetimeMs⟩ 0], 1⟩))
    (by decide +kernel)
  obtain rfl := of_decide_eq_true hb
  refine ⟨_, hrun, _, rfl, (certificate_kept hrun).2 _ _ _ rfl ?_ rfl ?_ (by decide)⟩
  · rw [Calm, List.forall_mem_singleton]
    exact fun _ _ _ => ⟨nofun, nofun⟩
  · intro i hmem
    simp at hmem

end Browser

end RemoteBridge
