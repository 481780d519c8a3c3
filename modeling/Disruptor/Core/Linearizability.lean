import Mathlib.Data.List.Basic
import Mathlib.Order.Nat

/-!
# Linearizability

Threads call the operations of one object, and each call takes effect at a step of its own. The
history keeps the effects in the order in which they happened, and the calls that have returned.
A history is legal when every call has returned what the sequential object returns for its effect,
and has taken effect between its invocation and its return.
-/

namespace Disruptor.Core

/-- An object used by one caller at a time. -/
structure SequentialObject (σ Op Res : Type*) where
  apply : σ → Op → σ
  returns : σ → Op → Res

/-- The effect of a call. -/
structure Effect (T Op Res : Type*) where
  thread : T
  op : Op
  result : Res

/-- A call that has returned. The three moments are counted in effects: `invokedAt` of them had
happened at the invocation, `effectAt` before the effect, `returnedAt` at the return. -/
structure Completed (T Op Res : Type*) extends Effect T Op Res where
  invokedAt : Nat
  effectAt : Nat
  returnedAt : Nat

structure History (T Op Res : Type*) where
  effects : List (Effect T Op Res) := []
  completed : List (Completed T Op Res) := []

namespace History

variable {σ T Op Res : Type*}

/-- A call takes effect. -/
def commit (h : History T Op Res) (e : Effect T Op Res) : History T Op Res :=
  { h with effects := h.effects ++ [e] }

/-- A call returns. -/
def complete (h : History T Op Res) (e : Effect T Op Res) (invokedAt effectAt : Nat) :
    History T Op Res :=
  { h with
    completed := h.completed ++
      [{ e with invokedAt := invokedAt, effectAt := effectAt, returnedAt := h.effects.length }] }

/-- The object after the first `n` effects. -/
def stateAt (h : History T Op Res) (o : SequentialObject σ Op Res) (s : σ) (n : Nat) : σ :=
  (h.effects.take n).foldl (fun s e => o.apply s e.op) s

/-- The object after all effects. -/
def final (h : History T Op Res) (o : SequentialObject σ Op Res) (s : σ) : σ :=
  h.stateAt o s h.effects.length

/-- The call took effect at its place in the history, after its invocation. -/
structure Took (h : History T Op Res) (e : Effect T Op Res) (invokedAt effectAt : Nat) : Prop where
  invoked_le : invokedAt ≤ effectAt
  effect : h.effects[effectAt]? = some e

structure Legal (h : History T Op Res) (o : SequentialObject σ Op Res) (s : σ) : Prop where
  results : ∀ n e, h.effects[n]? = some e → e.result = o.returns (h.stateAt o s n) e.op
  took : ∀ c ∈ h.completed, h.Took c.toEffect c.invokedAt c.effectAt
  effect_lt : ∀ c ∈ h.completed, c.effectAt < c.returnedAt
  returned_le : ∀ c ∈ h.completed, c.returnedAt ≤ h.effects.length

section

variable [DecidableEq T]

/-- The effects of a thread's calls. -/
def effectsOf (h : History T Op Res) (t : T) : List (Effect T Op Res) :=
  h.effects.filter (·.thread = t)

/-- The calls of a thread that have returned. -/
def completedOf (h : History T Op Res) (t : T) : List (Effect T Op Res) :=
  (h.completed.filter (·.thread = t)).map Completed.toEffect

/-- What the calls of other threads do to the history, as `t` sees it. -/
structure Grows (t : T) (h h' : History T Op Res) : Prop where
  prefix_effects : h.effects <+: h'.effects
  effectsOf_eq : h'.effectsOf t = h.effectsOf t
  completedOf_eq : h'.completedOf t = h.completedOf t

end

variable {h h' : History T Op Res} {o : SequentialObject σ Op Res} {s : σ} {e : Effect T Op Res}
  {invokedAt effectAt n : Nat} {t : T}

/-! ### Effects -/

lemma stateAt_commit (hn : n ≤ h.effects.length) :
    (h.commit e).stateAt o s n = h.stateAt o s n := by
  simp only [stateAt, commit]
  rw [List.take_append_of_le_length hn]

lemma stateAt_succ (he : h.effects[n]? = some e) :
    h.stateAt o s (n + 1) = o.apply (h.stateAt o s n) e.op := by
  simp only [stateAt, List.take_add_one, he, Option.toList_some, List.foldl_append, List.foldl_cons,
    List.foldl_nil]

lemma final_commit (h : History T Op Res) (e : Effect T Op Res) :
    (h.commit e).final o s = o.apply (h.final o s) e.op := by
  have hlength : (h.commit e).effects.length = h.effects.length + 1 := by simp [commit]
  have he : (h.commit e).effects[h.effects.length]? = some e := by simp [commit]
  simp only [final]
  rw [hlength, stateAt_succ he, stateAt_commit le_rfl]

lemma Took.mono (ht : h.Took e invokedAt effectAt) (hle : h.effects <+: h'.effects) :
    h'.Took e invokedAt effectAt := by
  refine ⟨ht.invoked_le, ?_⟩
  obtain ⟨rest, hrest⟩ := hle
  have hlt : effectAt < h.effects.length := (List.getElem?_eq_some_iff.mp ht.effect).1
  rw [← hrest, List.getElem?_append_left hlt]
  exact ht.effect

lemma took_commit (h : History T Op Res) (e : Effect T Op Res)
    (hinvoked : invokedAt ≤ h.effects.length) :
    (h.commit e).Took e invokedAt h.effects.length :=
  ⟨hinvoked, by simp [commit]⟩

/-- A call that takes effect returns what the object returns in the state it is in. -/
lemma Legal.commit (hl : h.Legal o s) (he : e.result = o.returns (h.final o s) e.op) :
    (h.commit e).Legal o s := by
  refine ⟨?_, ?_, hl.effect_lt, ?_⟩
  · intro n e' hn
    by_cases hlt : n < h.effects.length
    · rw [stateAt_commit hlt.le]
      simp only [History.commit, List.getElem?_append_left hlt] at hn
      exact hl.results n e' hn
    · have hlast : n = h.effects.length := by
        have hlen := (List.getElem?_eq_some_iff.mp hn).1
        simp only [History.commit, List.length_append, List.length_singleton] at hlen
        omega
      subst hlast
      have heq : e' = e := by
        simpa [History.commit, eq_comm] using hn
      rw [heq, stateAt_commit le_rfl]
      exact he
  · intro c hc
    exact (hl.took c hc).mono (List.prefix_append _ _)
  · intro c hc
    have hle := hl.returned_le c hc
    simp only [History.commit, List.length_append]
    omega

/-! ### Returns -/

/-- A call returns that has taken effect. -/
lemma Legal.complete (hl : h.Legal o s) (ht : h.Took e invokedAt effectAt) :
    (h.complete e invokedAt effectAt).Legal o s := by
  have hlt : effectAt < h.effects.length := (List.getElem?_eq_some_iff.mp ht.effect).1
  refine ⟨hl.results, ?_, ?_, ?_⟩
  · intro c hc
    rcases List.mem_append.mp hc with hc | hc
    · exact (hl.took c hc).mono (List.prefix_refl _)
    · obtain rfl := List.mem_singleton.mp hc
      exact ht.mono (List.prefix_refl _)
  · intro c hc
    rcases List.mem_append.mp hc with hc | hc
    · exact hl.effect_lt c hc
    · obtain rfl := List.mem_singleton.mp hc
      exact hlt
  · intro c hc
    rcases List.mem_append.mp hc with hc | hc
    · exact hl.returned_le c hc
    · obtain rfl := List.mem_singleton.mp hc
      exact le_rfl

/-- The order of the effects respects the order of calls that do not overlap. -/
lemma Legal.effectAt_lt (hl : h.Legal o s) {c c' : Completed T Op Res} (hc : c ∈ h.completed)
    (hc' : c' ∈ h.completed) (hbefore : c.returnedAt ≤ c'.invokedAt) : c.effectAt < c'.effectAt :=
  (hl.effect_lt c hc).trans_le (hbefore.trans (hl.took c' hc').invoked_le)

/-! ### The calls of one thread -/

section

variable [DecidableEq T]

lemma Grows.refl (t : T) (h : History T Op Res) : Grows t h h :=
  ⟨List.prefix_refl _, rfl, rfl⟩

@[simp] lemma effectsOf_commit_self (h : History T Op Res) (e : Effect T Op Res) :
    (h.commit e).effectsOf e.thread = h.effectsOf e.thread ++ [e] := by
  simp [effectsOf, commit]

@[simp] lemma completedOf_commit (h : History T Op Res) (e : Effect T Op Res) (t : T) :
    (h.commit e).completedOf t = h.completedOf t := rfl

@[simp] lemma effectsOf_complete (h : History T Op Res) (e : Effect T Op Res)
    (invokedAt effectAt : Nat) (t : T) :
    (h.complete e invokedAt effectAt).effectsOf t = h.effectsOf t := rfl

@[simp] lemma completedOf_complete_self (h : History T Op Res) (e : Effect T Op Res)
    (invokedAt effectAt : Nat) :
    (h.complete e invokedAt effectAt).completedOf e.thread = h.completedOf e.thread ++ [e] := by
  simp [completedOf, complete]

lemma grows_commit (h : History T Op Res) (ht : e.thread ≠ t) : Grows t h (h.commit e) := by
  refine ⟨List.prefix_append _ _, ?_, rfl⟩
  simp [effectsOf, commit, ht]

lemma grows_complete (h : History T Op Res) (ht : e.thread ≠ t) (invokedAt effectAt : Nat) :
    Grows t h (h.complete e invokedAt effectAt) := by
  refine ⟨List.prefix_refl _, rfl, ?_⟩
  simp [completedOf, complete, ht]

end

end History

end Disruptor.Core
