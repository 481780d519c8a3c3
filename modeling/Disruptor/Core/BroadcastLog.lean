import Disruptor.Core.Run
import Mathlib.Data.List.Infix

/-!
# An unbounded broadcast log

Entries are appended to a log, and each consumer takes them one after another, in order and
each once. This is what a bounded buffer between one log and several consumers is meant to be.
-/

namespace Disruptor.Core

/-- The entries, and what each consumer has taken of them. -/
structure BroadcastLog (C V : Type*) where
  entries : List V := []
  taken : C → List V := fun _ => []

namespace BroadcastLog

variable {C V : Type*} [DecidableEq C]

inductive Action (C V : Type*) where
  | append (vs : List V)
  | take (c : C)

/-- Append entries, or let a consumer take the next one. -/
def step (l : BroadcastLog C V) : Action C V → Option (BroadcastLog C V)
  | .append vs => some { l with entries := l.entries ++ vs }
  | .take c =>
    l.entries[(l.taken c).length]?.map fun v =>
      { l with taken := Function.update l.taken c (l.taken c ++ [v]) }

/-- What a consumer has taken is the beginning of the log. -/
def InStep (l : BroadcastLog C V) : Prop := ∀ c, l.taken c <+: l.entries

lemma InStep.step {l l' : BroadcastLog C V} {a : Action C V} (h : l.InStep)
    (hs : l.step a = some l') : l'.InStep := by
  cases a with
  | append vs =>
    obtain rfl := Option.some.inj hs
    intro c
    exact (h c).trans (List.prefix_append l.entries vs)
  | take c =>
    simp only [BroadcastLog.step, Option.map_eq_some_iff] at hs
    obtain ⟨v, hv, rfl⟩ := hs
    intro d
    by_cases hd : d = c
    · subst hd
      obtain ⟨rest, hrest⟩ := h d
      simp only [Function.update_self]
      rw [← hrest] at hv ⊢
      rw [List.getElem?_append_right le_rfl, Nat.sub_self] at hv
      obtain ⟨tail, rfl⟩ : ∃ tail, rest = v :: tail := by
        cases rest with
        | nil => simp at hv
        | cons w tail => exact ⟨tail, by simpa using hv⟩
      exact ⟨tail, by simp⟩
    · simp only [Function.update_of_ne hd]
      exact h d

/-- In every run of the log, each consumer has taken a beginning of it. -/
theorem inStep_run {as : List (Action C V)} {l : BroadcastLog C V}
    (h : run step ({} : BroadcastLog C V) as = some l) : l.InStep := by
  refine run_invariant InStep (fun _ _ _ hi hs => hi.step hs) ?_ h
  intro c
  exact List.nil_prefix

end BroadcastLog

end Disruptor.Core
