import Mathlib.Tactic.Common

/-!
# Runs of a transition system

A system is given by an executable step function `step : S → A → Option S`, where
`step s a = none` means that the action `a` is not enabled in `s`. All the choices of the
environment (scheduling, answers of callbacks, values read) are part of the action, so a list
of actions determines a run.
-/

namespace Disruptor.Core

variable {S A : Type*}

/-- One step that was taken: the state before, the action and the state after. -/
structure Transition (S A : Type*) where
  pre : S
  act : A
  post : S

/-- Take the actions of a list in order; `none` as soon as one of them is not enabled. -/
def run (step : S → A → Option S) : S → List A → Option S
  | s, [] => some s
  | s, a :: as => (step s a).bind fun s' => run step s' as

/-- The steps taken along a list of actions, up to the first action that is not enabled. -/
def transitions (step : S → A → Option S) : S → List A → List (Transition S A)
  | _, [] => []
  | s, a :: as =>
    match step s a with
    | none => []
    | some s' => ⟨s, a, s'⟩ :: transitions step s' as

variable {step : S → A → Option S} {s t : S} {as : List A}

@[simp] lemma run_nil : run step s [] = some s := rfl

lemma run_cons {a : A} : run step s (a :: as) = (step s a).bind fun s' => run step s' as := rfl

lemma run_cons_eq_some {a : A} :
    run step s (a :: as) = some t ↔ ∃ s', step s a = some s' ∧ run step s' as = some t := by
  simp [run_cons, Option.bind_eq_some_iff]

lemma run_append {bs : List A} :
    run step s (as ++ bs) = (run step s as).bind fun s' => run step s' bs := by
  induction as generalizing s with
  | nil => rfl
  | cons a as ih =>
    simp only [List.cons_append, run_cons]
    cases step s a with
    | none => rfl
    | some s' => exact ih

lemma transitions_cons_of_some {a : A} {s' : S} (h : step s a = some s') :
    transitions step s (a :: as) = ⟨s, a, s'⟩ :: transitions step s' as := by
  simp [transitions, h]

lemma transitions_cons_of_none {a : A} (h : step s a = none) :
    transitions step s (a :: as) = [] := by
  simp [transitions, h]

lemma transitions_append {bs : List A} (h : run step s as = some t) :
    transitions step s (as ++ bs) = transitions step s as ++ transitions step t bs := by
  induction as generalizing s with
  | nil =>
    obtain rfl : s = t := by simpa using h
    rfl
  | cons a as ih =>
    obtain ⟨s', hs, hr⟩ := run_cons_eq_some.mp h
    simp only [List.cons_append, transitions_cons_of_some hs, ih hr]

/-- What holds at first and is kept by every step holds at the end of every run. -/
theorem run_invariant (Inv : S → Prop)
    (hstep : ∀ s a s', Inv s → step s a = some s' → Inv s')
    (hinit : Inv s) (h : run step s as = some t) : Inv t := by
  induction as generalizing s with
  | nil =>
    obtain rfl : s = t := by simpa using h
    exact hinit
  | cons a as ih =>
    obtain ⟨s', hs, hr⟩ := run_cons_eq_some.mp h
    exact ih (hstep s a s' hinit hs) hr

/-- An invariant that needs a condition on every step: it holds before and after each step
when all steps meet the condition. -/
theorem transitions_invariant (Inv : S → Prop) (C : Transition S A → Prop)
    (hstep : ∀ s a s', Inv s → step s a = some s' → C ⟨s, a, s'⟩ → Inv s')
    (hinit : Inv s) (hC : ∀ x ∈ transitions step s as, C x) :
    ∀ x ∈ transitions step s as, Inv x.pre ∧ Inv x.post := by
  induction as generalizing s with
  | nil => simp [transitions]
  | cons a as ih =>
    cases hs : step s a with
    | none => simp [transitions_cons_of_none hs]
    | some s' =>
      rw [transitions_cons_of_some hs] at hC ⊢
      obtain ⟨hc, hcs⟩ := List.forall_mem_cons.mp hC
      have hpost : Inv s' := hstep s a s' hinit hs hc
      exact List.forall_mem_cons.mpr ⟨⟨hinit, hpost⟩, ih hpost hcs⟩

/-- An invariant holds before and after each step. -/
theorem transitions_invariant_of_step (Inv : S → Prop)
    (hstep : ∀ s a s', Inv s → step s a = some s' → Inv s') (hinit : Inv s) :
    ∀ x ∈ transitions step s as, Inv x.pre ∧ Inv x.post :=
  transitions_invariant Inv (fun _ => True) (fun s a s' h hs _ => hstep s a s' h hs) hinit
    fun _ _ => trivial

/-- When a step keeps the invariant and has the property exactly if it meets the condition, a
whole run has the property exactly if all of its steps meet the condition. -/
theorem transitions_forall_iff (Inv : S → Prop) {P C : Transition S A → Prop}
    (hgood : ∀ s a s', Inv s → step s a = some s' → C ⟨s, a, s'⟩ →
      Inv s' ∧ P ⟨s, a, s'⟩)
    (hbad : ∀ s a s', Inv s → step s a = some s' → P ⟨s, a, s'⟩ → C ⟨s, a, s'⟩)
    (hinit : Inv s) :
    (∀ x ∈ transitions step s as, P x) ↔ ∀ x ∈ transitions step s as, C x := by
  induction as generalizing s with
  | nil => simp [transitions]
  | cons a as ih =>
    cases hs : step s a with
    | none => simp [transitions_cons_of_none hs]
    | some s' =>
      simp only [transitions_cons_of_some hs, List.forall_mem_cons]
      constructor
      · rintro ⟨hp, hps⟩
        have hc := hbad s a s' hinit hs hp
        exact ⟨hc, (ih (hgood s a s' hinit hs hc).1).mp hps⟩
      · rintro ⟨hc, hcs⟩
        obtain ⟨hinv, hp⟩ := hgood s a s' hinit hs hc
        exact ⟨hp, (ih hinv).mpr hcs⟩

/-- When every step of one system is answered by steps of another, every run of the one is
answered by a run of the other. -/
theorem run_simulation {S' A' : Type*} {step' : S' → A' → Option S'} (R : S → S' → Prop)
    (hstep : ∀ s a s₁ s', R s s' → step s a = some s₁ →
      ∃ bs s₁', run step' s' bs = some s₁' ∧ R s₁ s₁')
    {s' : S'} (hR : R s s') (h : run step s as = some t) :
    ∃ bs t', run step' s' bs = some t' ∧ R t t' := by
  induction as generalizing s s' with
  | nil =>
    obtain rfl : s = t := by simpa using h
    exact ⟨[], s', rfl, hR⟩
  | cons a as ih =>
    obtain ⟨s₁, hs, hr⟩ := run_cons_eq_some.mp h
    obtain ⟨bs, s₁', hbs, hR₁⟩ := hstep s a s₁ s' hR hs
    obtain ⟨bs', t', hbs', hRt⟩ := ih hR₁ hr
    refine ⟨bs ++ bs', t', ?_, hRt⟩
    rw [run_append, hbs]
    exact hbs'

/-- A step that was taken is one of the system, with an action of the list. -/
lemma mem_transitions {x : Transition S A} (h : x ∈ transitions step s as) :
    x.act ∈ as ∧ step x.pre x.act = some x.post := by
  induction as generalizing s with
  | nil => simp [transitions] at h
  | cons a as ih =>
    cases hs : step s a with
    | none => simp [transitions_cons_of_none hs] at h
    | some s' =>
      rw [transitions_cons_of_some hs] at h
      rcases List.mem_cons.mp h with rfl | h
      · exact ⟨List.mem_cons_self, hs⟩
      · exact ⟨List.mem_cons_of_mem _ (ih h).1, (ih h).2⟩

/-- The last state of a run is the first one or the one after its last step. -/
lemma eq_or_mem_of_run (h : run step s as = some t) :
    t = s ∨ ∃ x ∈ transitions step s as, x.post = t := by
  induction as generalizing s with
  | nil => exact Or.inl (by simpa [eq_comm] using h)
  | cons a as ih =>
    obtain ⟨s', hs, hr⟩ := run_cons_eq_some.mp h
    rw [transitions_cons_of_some hs]
    rcases ih hr with rfl | ⟨x, hx, rfl⟩
    · exact Or.inr ⟨_, List.mem_cons_self, rfl⟩
    · exact Or.inr ⟨x, List.mem_cons_of_mem _ hx, rfl⟩

/-- The same at the end of a run: what is kept by every step that meets a condition. -/
theorem run_invariant_of_forall (Inv : S → Prop) (C : Transition S A → Prop)
    (hstep : ∀ s a s', Inv s → step s a = some s' → C ⟨s, a, s'⟩ → Inv s')
    (hinit : Inv s) (h : run step s as = some t) (hC : ∀ x ∈ transitions step s as, C x) :
    Inv t := by
  rcases eq_or_mem_of_run h with rfl | ⟨x, hx, rfl⟩
  · exact hinit
  · exact (transitions_invariant Inv C hstep hinit hC x hx).2

end Disruptor.Core
