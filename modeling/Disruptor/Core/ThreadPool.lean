import Disruptor.Core.Run
import Mathlib.Logic.Function.Basic

/-!
# Threads over a shared state

A pool of threads shares a state of type `S`; thread `t` has a local state of type `L t` and
takes atomic steps, each labelled with the choices `A t` that the step depends on. Any
interleaving of the threads is a run of the pool.

An interleaving invariant is proved in the rely/guarantee style: an invariant of the shared
state, an assertion for each local state, and for each thread a relation that bounds what the
steps of the other threads do to the shared state.
-/

namespace Disruptor.Core

variable {T S : Type*} {L A : T → Type*}

/-- The atomic steps of the threads of a pool. -/
structure ThreadPool (T S : Type*) (L A : T → Type*) where
  step : ∀ t, S → L t → A t → Option (S × L t)

namespace ThreadPool

/-- A shared state with the local states of all threads. -/
@[ext] structure Config (S : Type*) (L : T → Type*) where
  shared : S
  threads : ∀ t, L t

variable [DecidableEq T] (pool : ThreadPool T S L A)

/-- One thread takes one step. -/
def next (c : Config S L) (a : Σ t, A t) : Option (Config S L) :=
  (pool.step a.1 c.shared (c.threads a.1) a.2).map fun r =>
    ⟨r.1, Function.update c.threads a.1 r.2⟩

lemma next_eq_some {c c' : Config S L} {t : T} {a : A t} :
    pool.next c ⟨t, a⟩ = some c' ↔
      ∃ s' l', pool.step t c.shared (c.threads t) a = some (s', l') ∧
        c' = ⟨s', Function.update c.threads t l'⟩ := by
  simp only [next, Option.map_eq_some_iff, Prod.exists]
  constructor
  · rintro ⟨s', l', h, rfl⟩
    exact ⟨s', l', h, rfl⟩
  · rintro ⟨s', l', h, rfl⟩
    exact ⟨s', l', h, rfl⟩

/-- A proof outline for a pool: what every shared state satisfies, what the local state of
each thread says about the shared state, and what each thread relies on when another thread
moves. -/
structure Outline (pool : ThreadPool T S L A) where
  inv : S → Prop
  assertion : ∀ t, L t → S → Prop
  rely : T → S → S → Prop
  /-- A step keeps the shared invariant. -/
  step_inv : ∀ {t s l a s' l'}, inv s → assertion t l s →
    pool.step t s l a = some (s', l') → inv s'
  /-- A step establishes the assertion of the next local state. -/
  step_assertion : ∀ {t s l a s' l'}, inv s → assertion t l s →
    pool.step t s l a = some (s', l') → assertion t l' s'
  /-- A step is one that all the other threads rely on. -/
  step_rely : ∀ {t s l a s' l'}, inv s → assertion t l s →
    pool.step t s l a = some (s', l') → ∀ u, u ≠ t → rely u s s'
  /-- Assertions survive what they rely on. -/
  stable : ∀ {t l s s'}, inv s → inv s' → assertion t l s → rely t s s' → assertion t l s'

/-- The global invariant of a proof outline. -/
structure Outline.Holds {pool : ThreadPool T S L A} (o : pool.Outline) (c : Config S L) :
    Prop where
  shared : o.inv c.shared
  threads : ∀ t, o.assertion t (c.threads t) c.shared

lemma Outline.Holds.next {pool : ThreadPool T S L A} {o : pool.Outline} {c c' : Config S L}
    {a : Σ t, A t} (h : o.Holds c) (hs : pool.next c a = some c') : o.Holds c' := by
  obtain ⟨t, a⟩ := a
  obtain ⟨s', l', hstep, rfl⟩ := pool.next_eq_some.mp hs
  have hinv := o.step_inv h.shared (h.threads t) hstep
  refine ⟨hinv, ?_⟩
  intro u
  by_cases hu : u = t
  · subst hu
    simpa using o.step_assertion h.shared (h.threads u) hstep
  · simp only [Function.update_of_ne hu]
    exact o.stable h.shared hinv (h.threads u)
      (o.step_rely h.shared (h.threads t) hstep u hu)

/-- A local state is replaced by one whose assertion holds. -/
lemma Outline.Holds.update {pool : ThreadPool T S L A} {o : pool.Outline} {c : Config S L}
    (h : o.Holds c) {t : T} {l : L t} (hl : o.assertion t l c.shared) :
    o.Holds ⟨c.shared, Function.update c.threads t l⟩ := by
  refine ⟨h.shared, ?_⟩
  intro u
  by_cases hu : u = t
  · subst hu
    simpa using hl
  · simp only [Function.update_of_ne hu]
    exact h.threads u

/-- A proof outline that holds at first holds after every interleaving. -/
theorem Outline.Holds.run {pool : ThreadPool T S L A} {o : pool.Outline} {c c' : Config S L}
    {as : List (Σ t, A t)} (h : o.Holds c) (hr : Core.run pool.next c as = some c') :
    o.Holds c' :=
  run_invariant o.Holds (fun _ _ _ hi hs => Outline.Holds.next hi hs) h hr

/-- The pool without the steps that `out` keeps out. -/
def guard (pool : ThreadPool T S L A) (out : ∀ t, S → L t → A t → Bool) : ThreadPool T S L A where
  step t s l a := if out t s l a then none else pool.step t s l a

omit [DecidableEq T] in
lemma guard_step_eq_some {pool : ThreadPool T S L A} {out : ∀ t, S → L t → A t → Bool} {t : T}
    {s : S} {l : L t} {a : A t} {x : S × L t} :
    (pool.guard out).step t s l a = some x ↔
      out t s l a = false ∧ pool.step t s l a = some x := by
  simp [guard]

variable {pool} in
lemma guard_next {out : ∀ t, S → L t → A t → Bool} {c : Config S L} {a : Σ t, A t}
    (h : out a.1 c.shared (c.threads a.1) a.2 = false) :
    (pool.guard out).next c a = pool.next c a := by
  simp [ThreadPool.next, guard, h]

/-- A proof outline without some steps is enough for the runs that do not take them. -/
theorem Outline.Holds.run_of_guard {pool : ThreadPool T S L A}
    {out : ∀ t, S → L t → A t → Bool} {o : (pool.guard out).Outline} {c c' : Config S L}
    {as : List (Σ t, A t)} (h : o.Holds c) (hr : Core.run pool.next c as = some c')
    (hout : ∀ x ∈ transitions pool.next c as,
      out x.act.1 x.pre.shared (x.pre.threads x.act.1) x.act.2 = false) :
    o.Holds c' :=
  run_invariant_of_forall o.Holds
    (fun x : Transition (Config S L) (Σ t, A t) =>
      out x.act.1 x.pre.shared (x.pre.threads x.act.1) x.act.2 = false)
    (fun _ _ _ hc hs hkept => hc.next ((guard_next hkept).trans hs)) h hr hout

end ThreadPool

end Disruptor.Core
