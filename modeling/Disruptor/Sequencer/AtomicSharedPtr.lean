import Disruptor.Core.SpinLock

/-!
# `AtomicSharedPtr`

The pointer that `SequenceGroups` loads and exchanges as if in one step is a plain `shared_ptr`
behind a spin lock. Here the operations take their steps under the lock: the copy, the comparison,
the assignment.
-/

namespace Disruptor.AtomicSharedPtr

open Disruptor.Core

variable {α T : Type*}

/-- A call; `α` are the values of a `shared_ptr`. -/
inductive Operation (α : Type*) where
  | load
  | store (desired : α)
  | compare_exchange_weak (expected desired : α)
  deriving DecidableEq

/-- What a call returns; a compare-exchange also leaves a value in `expected`. -/
inductive Result (α : Type*) where
  | loaded (copy : α)
  | stored
  | exchanged (success : Bool) (expected : α)
  deriving DecidableEq

/-- The places between `lock()` and `unlock()`. -/
inductive Place where
  /-- Before `auto copy = ptr_`. -/
  | copy
  /-- Before `ptr_ == expected`. -/
  | compare
  /-- Before `ptr_ = std::move(desired)`. -/
  | assign
  /-- Before `expected = ptr_`. -/
  | reload
  deriving DecidableEq

section

variable [DecidableEq α]

/-- The bodies of the operations. -/
def body (α : Type*) [DecidableEq α] :
    CriticalSection α (Operation α) (Result α) Place where
  start
    | .load => .copy
    | .store _ => .assign
    | .compare_exchange_weak _ _ => .compare
  step
    | .load, .copy, ptr => (ptr, .inr (.loaded ptr))
    | .store desired, .assign, _ => (desired, .inr .stored)
    | .compare_exchange_weak expected _, .compare, ptr =>
      (ptr, .inl (if ptr = expected then .assign else .reload))
    | .compare_exchange_weak expected desired, .assign, _ =>
      (desired, .inr (.exchanged true expected))
    | .compare_exchange_weak _ _, .reload, ptr => (ptr, .inr (.exchanged false ptr))
    | _, k, ptr => (ptr, .inl k)

/-- A pointer whose operations are atomic. -/
def atomicPointer (α : Type*) [DecidableEq α] :
    SequentialObject α (Operation α) (Result α) where
  apply ptr
    | .load => ptr
    | .store desired => desired
    | .compare_exchange_weak expected desired => if ptr = expected then desired else ptr
  returns ptr
    | .load => .loaded ptr
    | .store _ => .stored
    | .compare_exchange_weak expected _ =>
      if ptr = expected then .exchanged true expected else .exchanged false ptr

/-- Where a call can be: the pointer is the one that it found when it took the lock. -/
def At : Operation α → Place → α → α → Prop
  | .load, .copy, ptr₀, ptr => ptr = ptr₀
  | .store _, .assign, ptr₀, ptr => ptr = ptr₀
  | .compare_exchange_weak _ _, .compare, ptr₀, ptr => ptr = ptr₀
  | .compare_exchange_weak expected _, .assign, ptr₀, ptr => ptr = ptr₀ ∧ ptr₀ = expected
  | .compare_exchange_weak expected _, .reload, ptr₀, ptr => ptr = ptr₀ ∧ ptr₀ ≠ expected
  | _, _, _, _ => False

/-- Alone under the lock, the operations are those of an atomic pointer. -/
lemma body_implements : (body α).Implements (atomicPointer α) At where
  start op ptr := by
    cases op <;> exact rfl
  step := by
    intro op k ptr₀ ptr ptr' k' hat hs
    cases op with
    | load =>
      cases k with
      | copy => simp [body] at hs
      | compare | assign | reload => exact hat.elim
    | store desired =>
      cases k with
      | assign => simp [body] at hs
      | copy | compare | reload => exact hat.elim
    | compare_exchange_weak expected desired =>
      cases k with
      | copy => exact hat.elim
      | compare =>
        obtain rfl : ptr = ptr₀ := hat
        obtain ⟨rfl, hk⟩ := Prod.mk.inj hs
        obtain rfl := Sum.inl.inj hk
        split_ifs with heq
        · exact ⟨rfl, heq⟩
        · exact ⟨rfl, heq⟩
      | assign => simp [body] at hs
      | reload => simp [body] at hs
  finish := by
    intro op k ptr₀ ptr ptr' result hat hs
    cases op with
    | load =>
      cases k with
      | copy =>
        obtain rfl : ptr = ptr₀ := hat
        obtain ⟨rfl, hresult⟩ := Prod.mk.inj hs
        exact ⟨rfl, (Sum.inr.inj hresult).symm⟩
      | compare | assign | reload => exact hat.elim
    | store desired =>
      cases k with
      | assign =>
        obtain ⟨rfl, hresult⟩ := Prod.mk.inj hs
        exact ⟨rfl, (Sum.inr.inj hresult).symm⟩
      | copy | compare | reload => exact hat.elim
    | compare_exchange_weak expected desired =>
      cases k with
      | copy => exact hat.elim
      | compare => simp [body] at hs
      | assign =>
        obtain ⟨rfl, hexpected⟩ := hat
        obtain ⟨rfl, hresult⟩ := Prod.mk.inj hs
        obtain rfl := Sum.inr.inj hresult
        simp [atomicPointer, hexpected]
      | reload =>
        obtain ⟨rfl, hexpected⟩ := hat
        obtain ⟨rfl, hresult⟩ := Prod.mk.inj hs
        obtain rfl := Sum.inr.inj hresult
        simp [atomicPointer, hexpected]

/-- Threads that call the operations of one `AtomicSharedPtr`. -/
def pool (T α : Type*) [DecidableEq α] :
    ThreadPool T (SpinLock.Shared T α (Operation α) (Result α))
      (fun _ => Option (SpinLock.Call (Operation α) (Result α) Place))
      (fun _ => SpinLock.Action (Operation α)) :=
  SpinLock.pool T (body α)

/-- However the steps of `load`, `store` and `compare_exchange_weak` are interleaved, two calls are
never between `lock()` and `unlock()` together, and the calls are linearizable: each takes effect
between its invocation and its return and returns what an atomic pointer does then. In particular
a compare-exchange fails only when the pointer differs from `expected`, and then returns it. -/
theorem operations_linearizable [DecidableEq T] {ptr : α}
    {as : List (T × SpinLock.Action (Operation α))}
    {cfg : ThreadPool.Config (SpinLock.Shared T α (Operation α) (Result α))
      fun _ => Option (SpinLock.Call (Operation α) (Result α) Place)}
    (hr : run (pool T α).next (SpinLock.initial T ptr) (as.map fun a => ⟨a.1, a.2⟩) = some cfg) :
    SpinLock.Linearized (atomicPointer α) ptr cfg ∧
      ∀ c ∈ cfg.shared.history.completed, ∀ expected desired,
        c.op = .compare_exchange_weak expected desired →
        let found := cfg.shared.history.stateAt (atomicPointer α) ptr c.effectAt
        c.invokedAt ≤ c.effectAt ∧ c.effectAt < c.returnedAt ∧
          (c.result = .exchanged true expected ∧ found = expected ∨
            c.result = .exchanged false found ∧ found ≠ expected) := by
  have hlinearized := SpinLock.linearized_of_run body_implements hr
  refine ⟨hlinearized, ?_⟩
  intro c hc expected desired hop
  have hlegal := hlinearized.legal
  have htook := hlegal.took c hc
  have hresult : c.result = _ := hlegal.results c.effectAt c.toEffect htook.effect
  refine ⟨htook.invoked_le, hlegal.effect_lt c hc, ?_⟩
  rw [hop] at hresult
  simp only [atomicPointer] at hresult
  split_ifs at hresult with heq
  · exact Or.inl ⟨hresult, heq⟩
  · exact Or.inr ⟨hresult, heq⟩

/-- One thread compares while another one, which holds the lock, stores. -/
def exchangeWhileStoring : List (Bool × SpinLock.Action (Operation Nat)) :=
  [(false, .invoke (.store 7)), (false, .proceed),
    (true, .invoke (.compare_exchange_weak 0 8)), (true, .proceed), (true, .proceed)] ++
  List.replicate 2 (false, .proceed) ++ List.replicate 4 (true, .proceed)

theorem operations_linearizable_exchangeWhileStoring :
    ∃ cfg : ThreadPool.Config (SpinLock.Shared Bool Nat (Operation Nat) (Result Nat))
        fun _ => Option (SpinLock.Call (Operation Nat) (Result Nat) Place),
      run (pool Bool Nat).next (SpinLock.initial Bool 0)
        (exchangeWhileStoring.map fun a => ⟨a.1, a.2⟩) = some cfg ∧
      cfg.shared.history.completed.map (fun c => c.result) =
        [.stored, .exchanged false 7] ∧
      cfg.shared.history.Legal (atomicPointer Nat) 0 := by
  obtain ⟨cfg, hr, hresults⟩ :
      ∃ cfg : ThreadPool.Config (SpinLock.Shared Bool Nat (Operation Nat) (Result Nat))
          fun _ => Option (SpinLock.Call (Operation Nat) (Result Nat) Place),
        run (pool Bool Nat).next (SpinLock.initial Bool 0)
          (exchangeWhileStoring.map fun a => ⟨a.1, a.2⟩) = some cfg ∧
        cfg.shared.history.completed.map (fun c => c.result) =
          [.stored, .exchanged false 7] :=
    ⟨_, rfl, rfl⟩
  exact ⟨cfg, hr, hresults, (operations_linearizable hr).1.legal⟩

end

end Disruptor.AtomicSharedPtr
