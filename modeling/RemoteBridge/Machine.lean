import Mathlib.Algebra.Group.Basic
import Mathlib.Data.List.Induction
import Mathlib.Tactic.Push

/-!
# Machine

Labelled state machines: a step function saying which events can happen and
what they do, the runs it generates, and the rules that carry a fact about one
step to every run.

A run is the list of its events, so it is also an executable test: `exec`
computes the state it ends in.  Facts about the *past* of a run are stated with
`Occurs` (some step of the run, seen with the state it was taken in) and `Since`
(and which events came after it), conditions on all its steps with `Along`, on
all its states with `Throughout`.

Nothing here is about a particular machine.
-/

universe u v w

/-- A labelled state machine.  `step s e` is the state after the event `e`, or
`none` when `e` cannot happen in `s`. -/
structure Machine (σ : Type u) (ε : Type v) where
  step : σ → ε → Option σ

namespace Machine

variable {σ : Type u} {ε : Type v} {M : Machine σ ε} {s₀ s s' : σ} {es es' : List ε} {e : ε}

/-! ## Runs -/

/-- The state a list of events leads to, `none` if one of them cannot happen. -/
def exec (M : Machine σ ε) (s : σ) : List ε → Option σ
  | [] => some s
  | e :: es => (M.step s e).bind fun s' => M.exec s' es

/-- `M.Run s₀ es s`: the events `es` can happen from `s₀`, in this order, and
lead to `s`. -/
def Run (M : Machine σ ε) (s₀ : σ) (es : List ε) (s : σ) : Prop := M.exec s₀ es = some s

/-- A state some run from `s₀` leads to. -/
def Reachable (M : Machine σ ε) (s₀ s : σ) : Prop := ∃ es, M.Run s₀ es s

theorem run_nil : M.Run s₀ [] s ↔ s₀ = s := by simp [Run, exec]

theorem run_cons : M.Run s₀ (e :: es) s ↔ ∃ s₁, M.step s₀ e = some s₁ ∧ M.Run s₁ es s := by
  simp [Run, exec, Option.bind_eq_some_iff]

/-- Runs compose. -/
theorem run_append : M.Run s₀ (es ++ es') s ↔ ∃ s₁, M.Run s₀ es s₁ ∧ M.Run s₁ es' s := by
  induction es generalizing s₀ with
  | nil => simp [run_nil]
  | cons e es ih =>
      simp only [List.cons_append, run_cons, ih]
      constructor
      · rintro ⟨t, ht, s₁, h₁, h₂⟩
        exact ⟨s₁, ⟨t, ht, h₁⟩, h₂⟩
      · rintro ⟨s₁, ⟨t, ht, h₁⟩, h₂⟩
        exact ⟨t, ht, s₁, h₁, h₂⟩

theorem run_snoc : M.Run s₀ (es ++ [e]) s' ↔ ∃ s, M.Run s₀ es s ∧ M.step s e = some s' := by
  simp [run_append, run_cons, run_nil]

/-- A run leads to one state. -/
theorem Run.unique (h : M.Run s₀ es s) (h' : M.Run s₀ es s') : s = s' :=
  Option.some.inj (h.symm.trans h')

/-- A run exists if executing its events says so. -/
theorem exists_run (M : Machine σ ε) (s₀ : σ) (es : List ε) (p : σ → Bool)
    (h : (M.exec s₀ es).any p) : ∃ s, M.Run s₀ es s ∧ p s := by
  obtain ⟨s, hs, hp⟩ := (Option.any_eq_true _ _).mp h
  exact ⟨s, hs, hp⟩

/-- Induction on a run by its last step. -/
theorem Run.rec_snoc {P : List ε → σ → Prop} (h : M.Run s₀ es s) (nil : P [] s₀)
    (snoc : ∀ es e s s', M.Run s₀ es s → P es s → M.step s e = some s' → P (es ++ [e]) s') :
    P es s := by
  induction es using List.reverseRecOn generalizing s with
  | nil => rw [run_nil] at h; exact h ▸ nil
  | append_singleton es e ih =>
      obtain ⟨s₁, h₁, hstep⟩ := run_snoc.mp h
      exact snoc es e s₁ s h₁ (ih h₁) hstep

/-! ## The past of a run -/

/-- Some step of the run satisfies `P`, as a pair of the state it was taken in
and its event. -/
def Occurs (M : Machine σ ε) (s₀ : σ) (es : List ε) (P : σ → ε → Prop) : Prop :=
  ∃ es₁ e es₂ s, es = es₁ ++ e :: es₂ ∧ M.Run s₀ es₁ s ∧ P s e

/-- Some step of the run satisfies `P`, and every event after it satisfies `K`. -/
def Since (M : Machine σ ε) (s₀ : σ) (es : List ε) (P : σ → ε → Prop) (K : ε → Prop) : Prop :=
  ∃ es₁ e es₂ s, es = es₁ ++ e :: es₂ ∧ M.Run s₀ es₁ s ∧ P s e ∧ ∀ e ∈ es₂, K e

/-- Every step of the run satisfies `C`. -/
def Along (M : Machine σ ε) (s₀ : σ) (es : List ε) (C : σ → ε → Prop) : Prop :=
  ∀ es₁ e es₂ s, es = es₁ ++ e :: es₂ → M.Run s₀ es₁ s → C s e

/-- Every state of the run satisfies `I`. -/
def Throughout (M : Machine σ ε) (s₀ : σ) (es : List ε) (I : σ → Prop) : Prop :=
  ∀ es₁ es₂ s, es = es₁ ++ es₂ → M.Run s₀ es₁ s → I s

theorem not_occurs_nil {P : σ → ε → Prop} : ¬ M.Occurs s₀ [] P := by
  rintro ⟨es₁, e, es₂, s, h, -⟩
  simp at h

theorem occurs_snoc {P : σ → ε → Prop} (h : M.Run s₀ es s) :
    M.Occurs s₀ (es ++ [e]) P ↔ M.Occurs s₀ es P ∨ P s e := by
  constructor
  · rintro ⟨es₁, e', es₂, t, heq, hrun, hP⟩
    rcases List.eq_nil_or_concat es₂ with rfl | ⟨es₃, e₃, rfl⟩
    · obtain ⟨rfl, he⟩ := List.append_inj' heq rfl
      obtain rfl : e = e' := by simpa using he
      exact .inr (h.unique hrun ▸ hP)
    · rw [List.concat_eq_append, ← List.cons_append, ← List.append_assoc] at heq
      obtain ⟨rfl, -⟩ := List.append_inj' heq rfl
      exact .inl ⟨es₁, e', es₃, t, rfl, hrun, hP⟩
  · rintro (⟨es₁, e', es₂, t, rfl, hrun, hP⟩ | hP)
    · exact ⟨es₁, e', es₂ ++ [e], t, by simp, hrun, hP⟩
    · exact ⟨es, e, [], s, rfl, h, hP⟩

/-- What occurred stays in the past. -/
theorem Occurs.append {P : σ → ε → Prop} (h : M.Occurs s₀ es P) : M.Occurs s₀ (es ++ es') P := by
  obtain ⟨es₁, e, es₂, s, rfl, hrun, hP⟩ := h
  exact ⟨es₁, e, es₂ ++ es', s, by simp, hrun, hP⟩

theorem Since.occurs {P : σ → ε → Prop} {K : ε → Prop} (h : M.Since s₀ es P K) :
    M.Occurs s₀ es P := by
  obtain ⟨es₁, e, es₂, s, heq, hrun, hP, -⟩ := h
  exact ⟨es₁, e, es₂, s, heq, hrun, hP⟩

theorem since_last {P : σ → ε → Prop} {K : ε → Prop} (h : M.Run s₀ es s) (hP : P s e) :
    M.Since s₀ (es ++ [e]) P K :=
  ⟨es, e, [], s, rfl, h, hP, by simp⟩

theorem Since.snoc {P : σ → ε → Prop} {K : ε → Prop} (h : M.Since s₀ es P K) (he : K e) :
    M.Since s₀ (es ++ [e]) P K := by
  obtain ⟨es₁, e₁, es₂, s, rfl, hrun, hP, hK⟩ := h
  refine ⟨es₁, e₁, es₂ ++ [e], s, by simp, hrun, hP, ?_⟩
  intro e' he'
  rcases List.mem_append.mp he' with hmem | hmem
  · exact hK e' hmem
  · rw [List.mem_singleton.mp hmem]
    exact he

theorem along_iff_not_occurs {C : σ → ε → Prop} :
    M.Along s₀ es C ↔ ¬ M.Occurs s₀ es fun s e => ¬ C s e := by
  simp only [Along, Occurs]
  push Not
  rfl

theorem along_nil {C : σ → ε → Prop} : M.Along s₀ [] C :=
  along_iff_not_occurs.mpr not_occurs_nil

theorem along_snoc {C : σ → ε → Prop} (h : M.Run s₀ es s) :
    M.Along s₀ (es ++ [e]) C ↔ M.Along s₀ es C ∧ C s e := by
  rw [along_iff_not_occurs, along_iff_not_occurs, occurs_snoc h, not_or, not_not]

theorem along_cons {C : σ → ε → Prop} :
    M.Along s₀ (e :: es) C ↔ C s₀ e ∧ ∀ s ∈ M.step s₀ e, M.Along s es C := by
  constructor
  · intro h
    refine ⟨h [] e es s₀ rfl (run_nil.mpr rfl), fun s hs es₁ e' es₂ t heq hrun => ?_⟩
    exact h (e :: es₁) e' es₂ t (by rw [heq, List.cons_append]) (run_cons.mpr ⟨s, hs, hrun⟩)
  · rintro ⟨he, hes⟩ es₁ e' es₂ t heq hrun
    cases es₁ with
    | nil =>
        obtain ⟨rfl, -⟩ := List.cons.inj heq
        exact run_nil.mp hrun ▸ he
    | cons e₁ es₁ =>
        obtain ⟨rfl, htail⟩ := List.cons.inj heq
        obtain ⟨s, hs, hrun⟩ := run_cons.mp hrun
        exact hes s hs es₁ e' es₂ t htail hrun

/-- A condition on the steps of a run is one on those of its first part. -/
theorem Along.left {C : σ → ε → Prop} (h : M.Along s₀ (es ++ es') C) : M.Along s₀ es C := by
  intro es₁ e es₂ t heq ht
  exact h es₁ e (es₂ ++ es') t (by simp [heq]) ht

/-- A condition on the steps of a run is one on those of its second part. -/
theorem Along.right {C : σ → ε → Prop} (h : M.Along s₀ (es ++ es') C) (hrun : M.Run s₀ es s) :
    M.Along s es' C := by
  intro es₁ e es₂ t heq ht
  exact h (es ++ es₁) e es₂ t (by rw [heq, List.append_assoc]) (run_append.mpr ⟨s, hrun, ht⟩)

/-- Conditions on the steps of a run can be tested by executing it. -/
instance decidableAlong {C : σ → ε → Prop} [∀ s e, Decidable (C s e)] (s₀ : σ) :
    ∀ es, Decidable (M.Along s₀ es C)
  | [] => isTrue along_nil
  | _ :: es =>
      haveI (s : σ) := decidableAlong (C := C) s es
      decidable_of_iff _ along_cons.symm

instance decidableOccurs {P : σ → ε → Prop} [∀ s e, Decidable (P s e)] (s₀ : σ) (es : List ε) :
    Decidable (M.Occurs s₀ es P) :=
  decidable_of_iff (¬ M.Along s₀ es fun s e => ¬ P s e) (by simp [along_iff_not_occurs])

theorem throughout_nil {I : σ → Prop} : M.Throughout s₀ [] I ↔ I s₀ := by
  constructor
  · intro h
    exact h [] [] s₀ rfl (run_nil.mpr rfl)
  · intro h es₁ es₂ s heq hrun
    obtain ⟨rfl, -⟩ := List.append_eq_nil_iff.mp heq.symm
    rwa [← run_nil.mp hrun]

theorem throughout_snoc {I : σ → Prop} (h : M.Run s₀ (es ++ [e]) s') :
    M.Throughout s₀ (es ++ [e]) I ↔ M.Throughout s₀ es I ∧ I s' := by
  constructor
  · intro hI
    exact ⟨fun es₁ es₂ s heq => hI es₁ (es₂ ++ [e]) s (by simp [heq]),
      hI (es ++ [e]) [] s' (by simp) h⟩
  · rintro ⟨hes, hs'⟩ es₁ es₂ s heq hrun
    rcases List.eq_nil_or_concat es₂ with rfl | ⟨es₃, e₃, rfl⟩
    · rw [List.append_nil] at heq
      exact h.unique (heq ▸ hrun) ▸ hs'
    · rw [List.concat_eq_append, ← List.append_assoc] at heq
      exact hes es₁ es₃ s (List.append_inj' heq rfl).1 hrun

theorem throughout_cons {I : σ → Prop} :
    M.Throughout s₀ (e :: es) I ↔ I s₀ ∧ ∀ s ∈ M.step s₀ e, M.Throughout s es I := by
  constructor
  · intro h
    refine ⟨h [] (e :: es) s₀ rfl (run_nil.mpr rfl), fun s hs es₁ es₂ t heq hrun => ?_⟩
    exact h (e :: es₁) es₂ t (by rw [heq, List.cons_append]) (run_cons.mpr ⟨s, hs, hrun⟩)
  · rintro ⟨he, hes⟩ es₁ es₂ t heq hrun
    cases es₁ with
    | nil => exact run_nil.mp hrun ▸ he
    | cons e₁ es₁ =>
        obtain ⟨rfl, htail⟩ := List.cons.inj heq
        obtain ⟨s, hs, hrun⟩ := run_cons.mp hrun
        exact hes s hs es₁ es₂ t htail hrun

/-- So can conditions on its states. -/
instance decidableThroughout {I : σ → Prop} [∀ s, Decidable (I s)] (s₀ : σ) :
    ∀ es, Decidable (M.Throughout s₀ es I)
  | [] => decidable_of_iff _ throughout_nil.symm
  | _ :: es =>
      haveI (s : σ) := decidableThroughout (I := I) s es
      decidable_of_iff _ throughout_cons.symm

/-- Induction on a run all of whose states satisfy `I`. -/
theorem Run.rec_throughout {I : σ → Prop} {P : List ε → σ → Prop} (h : M.Run s₀ es s)
    (hI : M.Throughout s₀ es I) (nil : P [] s₀)
    (snoc : ∀ es e s s', M.Run s₀ es s → I s → I s' → P es s → M.step s e = some s' →
      P (es ++ [e]) s') : P es s := by
  refine h.rec_snoc (P := fun es s => M.Throughout s₀ es I → P es s) (fun _ => nil) ?_ hI
  intro es e s s' hs ih hstep hI
  rw [throughout_snoc (run_snoc.mpr ⟨s, hs, hstep⟩)] at hI
  have hbefore := hI.1 es [] s (List.append_nil es).symm hs
  exact snoc es e s s' hs hbefore hI.2 (ih hI.1) hstep

/-- What holds throughout a run does throughout its second part. -/
theorem Throughout.right {I : σ → Prop} (h : M.Throughout s₀ (es ++ es') I)
    (hrun : M.Run s₀ es s) : M.Throughout s es' I := by
  intro es₁ es₂ t heq ht
  exact h (es ++ es₁) es₂ t (by rw [heq, List.append_assoc]) (run_append.mpr ⟨s, hrun, ht⟩)

/-! ## Sums over a run -/

/-- What `f` gives for the steps of a run, added up. -/
def total {A : Type w} [AddMonoid A] (M : Machine σ ε) (f : σ → ε → A) (s : σ) : List ε → A
  | [] => 0
  | e :: es => f s e + ((M.step s e).map fun s' => M.total f s' es).getD 0

theorem total_snoc {A : Type w} [AddMonoid A] {f : σ → ε → A} (h : M.Run s₀ es s) :
    M.total f s₀ (es ++ [e]) = M.total f s₀ es + f s e := by
  induction es generalizing s₀ with
  | nil =>
      rw [run_nil] at h
      subst h
      cases hstep : M.step s₀ e <;> simp [total, hstep]
  | cons e' es ih =>
      obtain ⟨s₁, hstep, hrun⟩ := run_cons.mp h
      simp only [List.cons_append, total, hstep, Option.map_some, Option.getD_some, ih hrun,
        add_assoc]

/-! ## Invariants -/

/-- **Invariants**: what holds at the start and is kept by every step that meets
the condition `C` holds after every run whose steps meet `C`. -/
theorem Run.invariant_along {I : σ → Prop} {C : σ → ε → Prop} (h : M.Run s₀ es s)
    (hC : M.Along s₀ es C) (init : I s₀)
    (keep : ∀ s e s', I s → C s e → M.step s e = some s' → I s') : I s := by
  refine h.rec_snoc (P := fun es s => M.Along s₀ es C → I s) (fun _ => init) ?_ hC
  intro es e s s' hrun ih hstep hC
  obtain ⟨hes, he⟩ := (along_snoc hrun).mp hC
  exact keep s e s' (ih hes) he hstep

/-- What holds at the start and is kept by every step holds after every run. -/
theorem Run.invariant {I : σ → Prop} (h : M.Run s₀ es s) (init : I s₀)
    (keep : ∀ s e s', I s → M.step s e = some s' → I s') : I s :=
  h.invariant_along (C := fun _ _ => True) (fun _ _ _ _ _ _ => trivial) init
    fun s e s' hI _ hstep => keep s e s' hI hstep

/-- **Simulation**: if every step that meets `C` is matched by a run of another
machine, a run whose steps meet `C` is. -/
theorem Run.simulated {τ : Type*} {δ : Type*} {M' : Machine τ δ} {R : σ → τ → Prop} {t₀ : τ}
    {C : σ → ε → Prop} (h : M.Run s₀ es s) (hC : M.Along s₀ es C) (init : R s₀ t₀)
    (matched : ∀ s e s' t, R s t → C s e → M.step s e = some s' →
      ∃ es' t', M'.Run t es' t' ∧ R s' t') :
    ∃ es' t, M'.Run t₀ es' t ∧ R s t := by
  refine h.invariant_along (I := fun s => ∃ es' t, M'.Run t₀ es' t ∧ R s t) hC
    ⟨[], t₀, run_nil.mpr rfl, init⟩ fun s e s' hI hC hstep => ?_
  obtain ⟨es', t, hrun, hR⟩ := hI
  obtain ⟨es'', t', hrun', hR'⟩ := matched s e s' t hR hC hstep
  exact ⟨es' ++ es'', t', run_append.mpr ⟨t, hrun, hrun'⟩, hR'⟩

/-- **Exactness**: if what is kept up to a step is kept by the step exactly when
the step meets `C`, it is kept throughout a run exactly when all steps meet `C`. -/
theorem Run.throughout_iff_along {I : σ → Prop} {C : σ → ε → Prop} (h : M.Run s₀ es s)
    (init : I s₀)
    (keep : ∀ es s e s', M.Run s₀ es s → M.Throughout s₀ es I → M.Along s₀ es C →
      M.step s e = some s' → (I s' ↔ C s e)) :
    M.Throughout s₀ es I ↔ M.Along s₀ es C := by
  refine h.rec_snoc (P := fun es _ => M.Throughout s₀ es I ↔ M.Along s₀ es C) ?_ ?_
  · rw [throughout_nil]
    simp [along_nil, init]
  · intro es e s s' hs ih hstep
    rw [throughout_snoc (run_snoc.mpr ⟨s, hs, hstep⟩), along_snoc hs, ih]
    exact and_congr_right fun hes => keep es s e s' hs (ih.mpr hes) hes hstep

/-- **Exactness, step by step**: if in the states that satisfy `I` a step does `P`
exactly when it meets `C`, and one that meets `C` keeps `I`, all steps of a run do `P`
exactly when they all meet `C`. -/
theorem Run.along_iff_along {I : σ → Prop} {P C : σ → ε → Prop} (h : M.Run s₀ es s)
    (init : I s₀)
    (keep : ∀ s e s', I s → M.step s e = some s' → (P s e ↔ C s e) ∧ (C s e → I s')) :
    M.Along s₀ es P ↔ M.Along s₀ es C := by
  suffices hgen : (M.Along s₀ es P ↔ M.Along s₀ es C) ∧ (M.Along s₀ es C → I s) from hgen.1
  refine h.rec_snoc
    (P := fun es s => (M.Along s₀ es P ↔ M.Along s₀ es C) ∧ (M.Along s₀ es C → I s)) ?_ ?_
  · exact ⟨iff_of_true along_nil along_nil, fun _ => init⟩
  · intro es e s s' hs ih hstep
    rw [along_snoc hs, along_snoc hs, ih.1]
    refine ⟨and_congr_right fun hes => (keep s e s' (ih.2 hes) hstep).1, fun hes => ?_⟩
    exact (keep s e s' (ih.2 hes.1) hstep).2 hes.2

/-- **Origin**: a fact that is absent at the start and that a step can only bring
about if it satisfies `P`, in a run whose steps meet `C`, has such a step in its
past. -/
theorem Run.origin_along {Q : σ → Prop} {P C : σ → ε → Prop} (h : M.Run s₀ es s)
    (hC : M.Along s₀ es C) (hQ : Q s)
    (cause : ∀ es s e s', M.Run s₀ es s → M.Along s₀ es C → C s e → M.step s e = some s' →
      Q s' → Q s ∨ P s e) :
    Q s₀ ∨ M.Occurs s₀ es P := by
  refine h.rec_snoc (P := fun es s => M.Along s₀ es C → Q s → Q s₀ ∨ M.Occurs s₀ es P)
    (fun _ => .inl) ?_ hC hQ
  intro es e s s' hrun ih hstep hC hQ
  obtain ⟨hes, he⟩ := (along_snoc hrun).mp hC
  rcases cause es s e s' hrun hes he hstep hQ with hs | hP
  · exact (ih hes hs).imp_right Occurs.append
  · exact .inr ((occurs_snoc hrun).mpr (.inr hP))

/-- Likewise in any run. -/
theorem Run.origin {Q : σ → Prop} {P : σ → ε → Prop} (h : M.Run s₀ es s) (hQ : Q s)
    (cause : ∀ s e s', M.Reachable s₀ s → M.step s e = some s' → Q s' → Q s ∨ P s e) :
    Q s₀ ∨ M.Occurs s₀ es P :=
  h.origin_along (C := fun _ _ => True) (fun _ _ _ _ _ _ => trivial) hQ
    fun es s e s' hrun _ _ hstep hQ => cause s e s' ⟨es, hrun⟩ hstep hQ

/-- A fact that is absent at the start, and that a step either brings about with
`P` or finds there and keeps with an event of `K`, was brought about by a step
since which there were only events of `K`. -/
theorem Run.since {Q : σ → Prop} {P : σ → ε → Prop} {K : ε → Prop} (h : M.Run s₀ es s) (hQ : Q s)
    (init : ¬ Q s₀)
    (cause : ∀ s e s', M.Reachable s₀ s → M.step s e = some s' → Q s' → (Q s ∧ K e) ∨ P s e) :
    M.Since s₀ es P K := by
  refine h.rec_snoc (P := fun es s => Q s → M.Since s₀ es P K) (fun hQ => absurd hQ init) ?_ hQ
  intro es e s s' hrun ih hstep hQ
  rcases cause s e s' ⟨es, hrun⟩ hstep hQ with ⟨hs, he⟩ | hP
  · exact (ih hs).snoc he
  · exact since_last hrun hP

/-- A fact that a step with `P` brings about and every event of `K` keeps holds
since such a step. -/
theorem Run.of_since {Q : σ → Prop} {P : σ → ε → Prop} {K : ε → Prop} (h : M.Run s₀ es s)
    (hsince : M.Since s₀ es P K)
    (brings : ∀ s e s', P s e → M.step s e = some s' → Q s')
    (keeps : ∀ s e s', Q s → K e → M.step s e = some s' → Q s') : Q s := by
  obtain ⟨es₁, e, es₂, s₁, rfl, hs₁, hP, hK⟩ := hsince
  obtain ⟨s₁', hs₁', hrun⟩ := run_append.mp h
  obtain rfl := hs₁.unique hs₁'
  obtain ⟨s₂, hstep, hrun⟩ := run_cons.mp hrun
  refine hrun.rec_snoc (P := fun es s => (∀ e ∈ es, K e) → Q s)
    (fun _ => brings s₁ e s₂ hP hstep) ?_ hK
  intro es e s s' _ ih hstep hK
  exact keeps s e s' (ih fun e he => hK e (List.mem_append_left _ he))
    (hK e (List.mem_append_right _ (List.mem_singleton.mpr rfl))) hstep

end Machine
