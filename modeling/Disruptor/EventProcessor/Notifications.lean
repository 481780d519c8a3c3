import Disruptor.EventProcessor.Lifecycle

/-!
# `onStart` and `onShutdown`

Each call of `run()` makes both callbacks, in order, whether it is in time for `processEvents()` or
exits early.
-/

namespace Disruptor.BatchEventProcessor.Lifecycle

open Disruptor.Core

variable {T ι : Type*}

/-- The callbacks that `run()` has made where it is. -/
def CallPc.notifications : CallPc ι → List Notification
  | .idle | .alert _ | .clearAlert _ | .onStart _ => []
  | .handleOnStartException _ | .checkRunning _ | .processEvents _ _ _ | .handlerAlert _ _
  | .onShutdown _ _ => [.onStart]
  | .handleOnShutdownException _ _ | .storeIdle _ _ => [.onStart, .onShutdown]

/-- A callback lets an exception out of `run()`. -/
def CallAction.letsOut : CallAction ι → Bool
  | .notify (some .other) | .handle false => true
  | _ => false

/-- The call of `run()` has called `onStart` once and then `onShutdown` once, unless it has failed
because the processor was already running. -/
def EndedRun.Complete (e : EndedRun) : Prop :=
  e.outcome = .runtime_error "Thread is already running" ∨ e.notifications = [.onStart, .onShutdown]

/-- Every call of `run()` is complete when it ends, and has not called more than that before. -/
structure Notified (c : Config T ι) : Prop where
  ended : ∀ e ∈ c.shared.ended, e.Complete
  callers : ∀ t, (c.threads t).notifications <+: [.onStart, .onShutdown]

/-- The callbacks are those that belong to where the callers are. -/
structure Notifies (c : Config T ι) : Prop where
  ended : ∀ e ∈ c.shared.ended, e.Complete
  callers : ∀ t, (c.threads t).notifications = (c.threads t).pc.notifications

variable {p : BatchEventProcessor} {b : Barrier ι} {c c' : Config T ι} {as : List (Action T ι)}
  {act : Action T ι} {t : T} {s s' : Shared T} {l l' : Caller ι} {a : CallAction ι}
  {sequence : Int}

/-! ### Steps -/

/-- A step that lets no exception of a callback out. -/
lemma step_notifies (hs : step p b t s l a = some (s', l')) (hkept : a.letsOut = false)
    (hcaller : l.notifications = l.pc.notifications)
    (hended : ∀ e ∈ s.ended, e.Complete) :
    l'.notifications = l'.pc.notifications ∧ ∀ e ∈ s'.ended, e.Complete := by
  have hstart : ∀ {o} {l₁ : Caller ι}, l₁.notifications = [.onStart] →
      s.startNotified l₁ o = (s', l') →
      l'.notifications = l'.pc.notifications ∧ ∀ e ∈ s'.ended, e.Complete := by
    intro o l₁ h hs
    cases o <;> obtain ⟨rfl, rfl⟩ := Prod.mk.inj hs <;> exact ⟨h, hended⟩
  have hshutdown : ∀ {thrown o} {l₁ : Caller ι}, l₁.notifications = [.onStart, .onShutdown] →
      s.shutdownNotified thrown l₁ o = (s', l') →
      l'.notifications = l'.pc.notifications ∧ ∀ e ∈ s'.ended, e.Complete := by
    intro thrown o l₁ h hs
    cases o with
    | some n =>
      obtain ⟨rfl, rfl⟩ := Prod.mk.inj hs
      exact ⟨h, hended⟩
    | none =>
      obtain ⟨rfl, rfl⟩ := Prod.mk.inj hs
      exact ⟨rfl, List.forall_mem_cons.mpr ⟨Or.inr h, hended⟩⟩
  have hloop : ∀ {n state i}, i ≠ .halt → l.notifications = [.onStart] →
      s.processEvents p n l state i = some (s', l') →
      l'.notifications = l'.pc.notifications ∧ ∀ e ∈ s'.ended, e.Complete := by
    intro n state i hi h hs
    obtain ⟨state', pc', -, -, rfl, rfl, hpc'⟩ := processEvents_cases hi hs
    refine ⟨?_, hended⟩
    rcases hpc' with ⟨thrown, -, rfl⟩ | ⟨-, rfl⟩
    · exact h
    · simp only
      split_ifs <;> exact h
  unfold step at hs
  split at hs
  · replace hs := Option.some.inj hs
    simp only [Shared.compareExchange] at hs
    split at hs
    · obtain ⟨rfl, rfl⟩ := Prod.mk.inj hs
      exact ⟨rfl, hended⟩
    · obtain ⟨rfl, rfl⟩ := Prod.mk.inj hs
      exact ⟨rfl, hended⟩
    · obtain ⟨rfl, rfl⟩ := Prod.mk.inj hs
      exact ⟨rfl, List.forall_mem_cons.mpr ⟨Or.inl rfl, hended⟩⟩
  · obtain ⟨rfl, rfl⟩ := Prod.mk.inj (Option.some.inj hs)
    exact ⟨rfl, hended⟩
  · obtain ⟨rfl, rfl⟩ := Prod.mk.inj (Option.some.inj hs)
    exact ⟨rfl, hended⟩
  · obtain ⟨rfl, rfl⟩ := Prod.mk.inj (Option.some.inj hs)
    exact ⟨rfl, hended⟩
  · rename_i hpc
    rw [hpc] at hcaller
    obtain ⟨rfl, rfl⟩ := Prod.mk.inj (Option.some.inj hs)
    exact ⟨hcaller, hended⟩
  · -- `onStart()`
    rename_i hpc
    rw [hpc] at hcaller
    have hnotified : (l.notified .onStart).notifications = [.onStart] := by
      simp [Caller.notified, hcaller, CallPc.notifications]
    split at hs
    · exact hstart hnotified (Option.some.inj hs)
    · cases hkept
    · obtain ⟨rfl, rfl⟩ := Prod.mk.inj (Option.some.inj hs)
      exact ⟨hnotified, hended⟩
  · rename_i n returns hpc
    rw [hpc] at hcaller
    cases returns with
    | true => exact hstart hcaller (Option.some.inj hs)
    | false => cases hkept
  · rename_i hpc
    rw [hpc] at hcaller
    split_ifs at hs
    · obtain ⟨rfl, rfl⟩ := Prod.mk.inj (Option.some.inj hs)
      exact ⟨hcaller, hended⟩
    · obtain ⟨rfl, rfl⟩ := Prod.mk.inj (Option.some.inj hs)
      exact ⟨hcaller, hended⟩
  · rename_i hpc
    rw [hpc] at hcaller
    split_ifs at hs
    split at hs
    · obtain ⟨rfl, rfl⟩ := Prod.mk.inj (Option.some.inj hs)
      exact ⟨hcaller, hended⟩
    · exact hloop (by rintro ⟨⟩) hcaller hs
    · cases hs
  · rename_i hpc
    rw [hpc] at hcaller
    split_ifs at hs with hown
    exact hloop (by rintro rfl; cases hown) hcaller hs
  · rename_i hpc
    rw [hpc] at hcaller
    obtain ⟨rfl, rfl⟩ := Prod.mk.inj (Option.some.inj hs)
    exact ⟨hcaller, hended⟩
  · -- `onShutdown()`
    rename_i hpc
    rw [hpc] at hcaller
    have hnotified : (l.notified .onShutdown).notifications = [.onStart, .onShutdown] := by
      simp [Caller.notified, hcaller, CallPc.notifications]
    split at hs
    · exact hshutdown hnotified (Option.some.inj hs)
    · cases hkept
    · obtain ⟨rfl, rfl⟩ := Prod.mk.inj (Option.some.inj hs)
      exact ⟨hnotified, hended⟩
  · rename_i n thrown returns hpc
    rw [hpc] at hcaller
    cases returns with
    | true => exact hshutdown hcaller (Option.some.inj hs)
    | false => cases hkept
  · rename_i hpc
    rw [hpc] at hcaller
    obtain ⟨rfl, rfl⟩ := Prod.mk.inj (Option.some.inj hs)
    exact ⟨rfl, List.forall_mem_cons.mpr ⟨Or.inr hcaller, hended⟩⟩
  · cases hs

lemma Notifies.notified (h : Notifies c) : Notified c := by
  refine ⟨h.ended, ?_⟩
  intro t
  rw [h.callers t]
  cases (c.threads t).pc <;> simp [CallPc.notifications]

/-! ### Runs -/

section

variable [DecidableEq T]

lemma Notifies.next (h : Notifies c) (hs : (pool T p b).next c act = some c')
    (hkept : act.2.letsOut = false) : Notifies c' := by
  obtain ⟨u, a⟩ := act
  obtain ⟨s', l', hstep, rfl⟩ := (pool T p b).next_eq_some.mp hs
  obtain ⟨hcaller, hended⟩ := step_notifies hstep hkept (h.callers u) h.ended
  refine ⟨hended, ?_⟩
  intro t
  by_cases ht : t = u
  · subst ht
    simpa using hcaller
  · simpa only [Function.update_of_ne ht] using h.callers t

lemma notifies_of_run (h : run (pool T p b).next (initial sequence) as = some c)
    (hkept : ∀ act ∈ as, act.2.letsOut = false) : Notifies c := by
  have hinit : Notifies (initial sequence : Config T ι) := ⟨by rintro e ⟨⟩, fun _ => rfl⟩
  have hall : ∀ x ∈ transitions (pool T p b).next (initial sequence) as,
      x.act.2.letsOut = false := fun x hx => hkept x.act (mem_transitions hx).1
  exact run_invariant_of_forall Notifies (fun x => x.act.2.letsOut = false)
    (fun _ _ _ hinv hs hkept => hinv.next hs hkept) hinit h hall

end

end Disruptor.BatchEventProcessor.Lifecycle
