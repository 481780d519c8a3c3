import Mathlib.Logic.Function.Basic

/-!
# A mutex and a condition variable

The mutex has at most one owner. A thread that waits on the condition variable gives the mutex up
and parks in one step; when it is woken, by a notification or spuriously, it has to take the mutex
again before it goes on.
-/

namespace Disruptor.Core

/-- A mutex with a condition variable. -/
structure Monitor (T : Type*) where
  owner : Option T := none
  /-- The thread waits on the condition variable and has not been woken. -/
  parked : T → Bool := fun _ => false

namespace Monitor

variable {T : Type*} {m m' : Monitor T} {t u : T} {holds holds' : T → Prop}

/-- Take the mutex, if it is free. -/
def lock (m : Monitor T) (t : T) : Option (Monitor T) :=
  match m.owner with
  | none => some { m with owner := some t }
  | some _ => none

/-- The owner gives the mutex back. -/
def unlock (m : Monitor T) : Monitor T := { m with owner := none }

/-- The owner waits on the condition variable. -/
def park [DecidableEq T] (m : Monitor T) (t : T) : Monitor T where
  owner := none
  parked := Function.update m.parked t true

/-- Wake a thread. -/
def wake [DecidableEq T] (m : Monitor T) (t : T) : Monitor T :=
  { m with parked := Function.update m.parked t false }

def notifyAll (m : Monitor T) : Monitor T := { m with parked := fun _ => false }

lemma lock_eq_some : m.lock t = some m' ↔ m.owner = none ∧ m' = { m with owner := some t } := by
  unfold lock
  cases h : m.owner with
  | none =>
    constructor
    · intro heq
      exact ⟨rfl, (Option.some.inj heq).symm⟩
    · rintro ⟨-, rfl⟩
      rfl
  | some v => simp

/-! ### Who holds the mutex -/

/-- The owner of the mutex is the thread that is at a place where it holds it. -/
def HeldBy (m : Monitor T) (holds : T → Prop) : Prop := ∀ t, m.owner = some t ↔ holds t

/-- No two threads hold the mutex. -/
lemma HeldBy.unique (h : m.HeldBy holds) (ht : holds t) (hu : holds u) : t = u :=
  Option.some.inj (((h t).mpr ht).symm.trans ((h u).mpr hu))

/-- Where no thread has come to hold the mutex or has given it up, its owner is the same. -/
lemma HeldBy.of_iff (h : m.HeldBy holds) (howner : m'.owner = m.owner)
    (hholds : ∀ t, holds' t ↔ holds t) : m'.HeldBy holds' := by
  intro t
  rw [howner, hholds]
  exact h t

/-- A thread takes the mutex. -/
lemma HeldBy.take (h : m.HeldBy holds) (hfree : m.owner = none) (howner : m'.owner = some t)
    (ht : holds' t) (hother : ∀ u, u ≠ t → (holds' u ↔ holds u)) : m'.HeldBy holds' := by
  intro u
  by_cases hu : u = t
  · subst hu
    exact iff_of_true howner ht
  · rw [howner, hother u hu, ← h u, hfree]
    simp [Ne.symm hu]

/-- The thread that holds the mutex gives it up. -/
lemma HeldBy.give (h : m.HeldBy holds) (ht : holds t) (howner : m'.owner = none)
    (ht' : ¬ holds' t) (hother : ∀ u, u ≠ t → (holds' u ↔ holds u)) : m'.HeldBy holds' := by
  intro u
  by_cases hu : u = t
  · subst hu
    exact iff_of_false (by simp [howner]) ht'
  · rw [howner, hother u hu]
    refine iff_of_false (by simp) ?_
    intro hholds
    exact hu (h.unique hholds ht)

end Monitor

end Disruptor.Core
