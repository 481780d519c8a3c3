import Disruptor.Core.ThreadPool
import Mathlib.Logic.Relation

/-!
# Where a system can still get to

A state reaches another one when some run leads there; the steps of the run may be restricted to
those that meet a condition. In a pool, what a thread reaches by its own steps the pool reaches.
-/

namespace Disruptor.Core

variable {S A : Type*} {step : S → A → Option S} {s t u : S}

/-- Some run leads from one state to the other. -/
def Reaches (step : S → A → Option S) (s t : S) : Prop := ∃ as, run step s as = some t

lemma Reaches.refl (step : S → A → Option S) (s : S) : Reaches step s s := ⟨[], rfl⟩

lemma Reaches.trans (h : Reaches step s t) (h' : Reaches step t u) : Reaches step s u := by
  obtain ⟨as, has⟩ := h
  obtain ⟨bs, hbs⟩ := h'
  refine ⟨as ++ bs, ?_⟩
  simp [run_append, has, hbs]

lemma Reaches.single {a : A} (h : step s a = some t) : Reaches step s t :=
  ⟨[a], by simp [run_cons, h]⟩

/-- Take one step, and go on from there. -/
lemma Reaches.head {a : A} (h : step s a = some t) (h' : Reaches step t u) : Reaches step s u :=
  (Reaches.single h).trans h'

/-- What every step keeps holds of what can be reached. -/
lemma Reaches.invariant (Inv : S → Prop) (hstep : ∀ s a s', Inv s → step s a = some s' → Inv s')
    (hs : Inv s) (h : Reaches step s t) : Inv t := by
  obtain ⟨as, has⟩ := h
  exact run_invariant Inv hstep hs has

/-! ### By steps that meet a condition -/

section

variable {C C' : Transition S A → Prop}

/-- A step that meets the condition leads from one state to the other. -/
def StepBy (step : S → A → Option S) (C : Transition S A → Prop) (s t : S) : Prop :=
  ∃ a, step s a = some t ∧ C ⟨s, a, t⟩

/-- Some run of steps that meet the condition leads from one state to the other. -/
abbrev ReachesBy (step : S → A → Option S) (C : Transition S A → Prop) : S → S → Prop :=
  Relation.ReflTransGen (StepBy step C)

lemma ReachesBy.mono (h : ReachesBy step C s t) (hC : ∀ x, C x → C' x) : ReachesBy step C' s t :=
  Relation.ReflTransGen.mono (fun _ _ ⟨a, hs, hx⟩ => ⟨a, hs, hC _ hx⟩) _ _ h

/-- What every step that meets the condition keeps holds of what is reached. -/
lemma ReachesBy.invariant (Inv : S → Prop)
    (hstep : ∀ s a s', Inv s → step s a = some s' → C ⟨s, a, s'⟩ → Inv s')
    (hs : Inv s) (h : ReachesBy step C s t) : Inv t := by
  induction h with
  | refl => exact hs
  | tail _ hlast ih =>
    obtain ⟨a, hs', hx⟩ := hlast
    exact hstep _ a _ ih hs' hx

/-- What is reached is reached by a run. -/
lemma ReachesBy.exists_run (h : ReachesBy step C s t) :
    ∃ as, run step s as = some t ∧ ∀ x ∈ transitions step s as, C x := by
  induction h using Relation.ReflTransGen.head_induction_on with
  | refl => exact ⟨[], rfl, by simp [transitions]⟩
  | head hfirst _ ih =>
    obtain ⟨a, hs, hx⟩ := hfirst
    obtain ⟨as, has, hall⟩ := ih
    refine ⟨a :: as, run_cons_eq_some.mpr ⟨_, hs, has⟩, ?_⟩
    rw [transitions_cons_of_some hs]
    exact List.forall_mem_cons.mpr ⟨hx, hall⟩

end

/-! ### How many steps it takes -/

/-- A run takes no more of the steps that bring a measure down than the measure is at first. -/
theorem countP_transitions_le (Inv : S → Prop) (measure : S → Nat) (counts : Transition S A → Bool)
    (hstep : ∀ s a s', Inv s → step s a = some s' →
      Inv s' ∧ measure s' + (if counts ⟨s, a, s'⟩ then 1 else 0) ≤ measure s)
    (hs : Inv s) (as : List A) : (transitions step s as).countP counts ≤ measure s := by
  induction as generalizing s with
  | nil => exact Nat.zero_le _
  | cons a as ih =>
    cases hnext : step s a with
    | none => simp [transitions_cons_of_none hnext]
    | some s' =>
      obtain ⟨hs', hle⟩ := hstep s a s' hs hnext
      rw [transitions_cons_of_some hnext, List.countP_cons]
      have hrest := ih hs'
      exact Nat.le_trans (Nat.add_le_add_right hrest _) hle

namespace ThreadPool

variable {T S : Type*} {L A : T → Type*} [DecidableEq T] {pool : ThreadPool T S L A}

/-- The steps of one thread, with the shared state and its own. -/
def solo (pool : ThreadPool T S L A) (t : T) (x : S × L t) (a : A t) : Option (S × L t) :=
  pool.step t x.1 x.2 a

/-- What a thread reaches on its own, the pool reaches while the other threads rest. -/
lemma reaches_of_solo {c : Config S L} {t : T} {x : S × L t}
    (h : Reaches (pool.solo t) (c.shared, c.threads t) x) :
    Reaches pool.next c ⟨x.1, Function.update c.threads t x.2⟩ := by
  obtain ⟨as, has⟩ := h
  refine ⟨as.map fun a => ⟨t, a⟩, ?_⟩
  induction as generalizing c with
  | nil =>
    obtain rfl : (c.shared, c.threads t) = x := by simpa using has
    simp
  | cons a as ih =>
    obtain ⟨⟨s, l⟩, hs, hr⟩ := run_cons_eq_some.mp has
    have hnext : pool.next c ⟨t, a⟩ = some ⟨s, Function.update c.threads t l⟩ :=
      pool.next_eq_some.mpr ⟨s, l, hs, rfl⟩
    have hrest := ih (c := ⟨s, Function.update c.threads t l⟩) (by simpa using hr)
    simp only [List.map_cons, run_cons, hnext, Option.bind_some]
    simpa using hrest

end ThreadPool

end Disruptor.Core
