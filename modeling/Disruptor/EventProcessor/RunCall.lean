import Disruptor.Barrier.WaitCall
import Disruptor.EventProcessor.Progress

/-!
# `BatchEventProcessor::run`, step by step

The thread of a processor: `run()` around `processEvents()`, and each call of the barrier in
atomic steps. What other threads see of it, and change, are `running_`, the alert of its barrier
and `sequence_`.
-/

namespace Disruptor.BatchEventProcessor

variable {ι : Type*}

/-- The fields of a processor that other threads see, with the calls that it has made, the latest
first. -/
structure Fields where
  running : Running := .IDLE
  alerted : Bool := false
  sequence : Int
  calls : List Call := []

/-- Where `run()` is. -/
inductive RunPc (ι : Type*) where
  /-- Before `running_.compare_exchange_strong(IDLE, RUNNING)`. -/
  | enterRun
  | clearAlert
  | notifyStart
  /-- Before `running_` is compared with `RUNNING`. -/
  | checkRunning
  /-- In `processEvents()`; `call` is where the barrier is when `processEvents` is in
  `waitFor`. -/
  | processEvents (s : State) (call : WaitCall ι)
  | notifyShutdown
  | storeIdle
  /-- In `earlyExit()`. -/
  | earlyNotifyStart
  | earlyNotifyShutdown
  | returned

inductive RunAction where
  | proceed
  | wait (choice : WaitChoice)
  /-- A call of user code, or another step of `processEvents`. -/
  | input (i : Input)

/-- The steps of `processEvents` that are not those of the barrier or of another thread. -/
def Input.isOwn : Input → Bool
  | .waitFor _ | .halt => false
  | _ => true

/-- The exception handler has thrown, so `halt()` alerts the barrier. -/
def Input.alerts : Input → Bool
  | .handleEventException returns => !returns
  | _ => false

/-- One step of `processEvents`, on the fields that are shared. -/
def Fields.processEvents (p : BatchEventProcessor) (f : Fields) (s : State) (i : Input) :
    Option (Fields × RunPc ι) :=
  (p.step { s with running := f.running } i).map fun s' =>
    ({ running := s'.running
       alerted := f.alerted || i.alerts
       sequence := s'.sequence
       calls := (call s i).toList ++ f.calls },
      match s'.pc with
      | .exited _ => .notifyShutdown
      | _ => .processEvents s' .checkAlert)

/-- One step of the thread of a processor. -/
def runStep (p : BatchEventProcessor) (b : Barrier ι) (view : WaitView ι) (f : Fields) :
    RunPc ι → RunAction → Option (Fields × RunPc ι)
  | .enterRun, .proceed =>
    match f.running with
    | .IDLE => some ({ f with running := .RUNNING }, .clearAlert)
    | .HALTED => some (f, .earlyNotifyStart)
    | .RUNNING => some (f, .returned)
  | .clearAlert, .proceed => some ({ f with alerted := false }, .notifyStart)
  | .notifyStart, .proceed => some (f, .checkRunning)
  | .checkRunning, .proceed =>
    if f.running = .RUNNING then some (f, .processEvents (enter f.sequence) .checkAlert)
    else some (f, .notifyShutdown)
  | .processEvents s call, .wait choice =>
    if s.pc = .waitFor then
      match call.step b view s.nextSequence choice with
      | some (.inl call') => some (f, .processEvents s call')
      | some (.inr answer) => f.processEvents p s (.waitFor answer)
      | none => none
    else none
  | .processEvents s _, .input i => if i.isOwn then f.processEvents p s i else none
  | .notifyShutdown, .proceed => some (f, .storeIdle)
  | .storeIdle, .proceed => some ({ f with running := .IDLE }, .returned)
  | .earlyNotifyStart, .proceed => some (f, .earlyNotifyShutdown)
  | .earlyNotifyShutdown, .proceed => some (f, .returned)
  | _, _ => none

/-! ### What a thread knows -/

/-- What the dependent sequences of a barrier allow. -/
def Allowed (b : Barrier ι) (values : ι → Int) (a : Int) : Prop :=
  ∀ i ∈ b.dependentSequences, a ≤ values i

/-- `sequence_` has moved from `s0` to what was allowed, over sequences that were dealt with. -/
structure Fields.Reached (s0 : Int) (Allowed : Int → Prop) (f : Fields) : Prop where
  start_le : s0 ≤ f.sequence
  allowed : f.sequence = s0 ∨ Allowed f.sequence
  dealt : ∀ t, s0 < t → t ≤ f.sequence → DealtWith f.calls t

/-- What the thread knows at each of its places. -/
def RunPc.Knows (b : Barrier ι) (values : ι → Int) (s0 : Int) (f : Fields) : RunPc ι → Prop
  | .enterRun | .clearAlert | .notifyStart | .checkRunning => f.sequence = s0
  | .processEvents s call =>
    s.sequence = f.sequence ∧ Progress s0 (Allowed b values) f.calls s ∧
      call.Knows b (fun _ => True) (fun _ => True) values s.nextSequence
  | _ => True

variable {p : BatchEventProcessor} {b : Barrier ι} {view : WaitView ι} {values values' : ι → Int}
  {s0 : Int} {f f' : Fields} {pc pc' : RunPc ι} {a : RunAction} {s : State} {i : Input}

lemma Allowed.mono {a : Int} (h : Allowed b values a)
    (hv : ∀ i ∈ b.dependentSequences, values i ≤ values' i) : Allowed b values' a :=
  fun i hi => (h i hi).trans (hv i hi)

lemma Fields.Reached.mono (h : f.Reached s0 (Allowed b values))
    (hv : ∀ i ∈ b.dependentSequences, values i ≤ values' i) : f.Reached s0 (Allowed b values') :=
  ⟨h.start_le, h.allowed.imp_right fun ha => ha.mono hv, h.dealt⟩

/-- What the thread knows stays known when the sequences that it depends on advance. -/
lemma RunPc.Knows.mono (h : pc.Knows b values s0 f)
    (hv : ∀ i ∈ b.dependentSequences, values i ≤ values' i) : pc.Knows b values' s0 f := by
  cases pc with
  | processEvents s call =>
    refine ⟨h.1, h.2.1.mono (fun a ha => ha.mono hv) fun _ => id, ?_⟩
    exact h.2.2.mono (fun _ => id) (fun _ => id) hv
  | _ => exact h

/-- Another thread's `halt()` and its alert do not show. -/
lemma RunPc.Knows.of_eq (h : pc.Knows b values s0 f) (hsequence : f'.sequence = f.sequence)
    (hcalls : f'.calls = f.calls) : pc.Knows b values s0 f' := by
  cases pc with
  | processEvents s call =>
    refine ⟨h.1.trans hsequence.symm, ?_, h.2.2⟩
    rw [hcalls]
    exact h.2.1
  | enterRun | clearAlert | notifyStart | checkRunning => exact hsequence.trans h
  | _ => trivial

lemma Fields.Reached.of_eq {Allowed : Int → Prop} (h : f.Reached s0 Allowed)
    (hsequence : f'.sequence = f.sequence) (hcalls : f'.calls = f.calls) :
    f'.Reached s0 Allowed := by
  refine ⟨?_, ?_, ?_⟩
  · rw [hsequence]
    exact h.start_le
  · rw [hsequence]
    exact h.allowed
  · rw [hsequence, hcalls]
    exact h.dealt

/-- A step of `processEvents` on the fields. -/
lemma Fields.processEvents_knows (hsequence : s.sequence = f.sequence)
    (h : Progress s0 (Allowed b values) f.calls s)
    (hi : i.Granted (Allowed b values) s)
    (hs : f.processEvents (ι := ι) p s i = some (f', pc')) :
    f'.Reached s0 (Allowed b values) ∧ pc'.Knows b values s0 f' ∧ f.sequence ≤ f'.sequence ∧
      f'.calls = (call s i).toList ++ f.calls := by
  have hdown : ∀ a a', Allowed b values a → a' ≤ a → Allowed b values a' :=
    fun a a' ha hle i hi => hle.trans (ha i hi)
  simp only [Fields.processEvents, Option.map_eq_some_iff, Prod.mk.injEq] at hs
  obtain ⟨s', hstep, rfl, rfl⟩ := hs
  have hgranted : i.Granted (Allowed b values) { s with running := f.running } := by
    revert hi
    cases i with
    | waitFor answer => cases answer <;> exact id
    | _ => exact id
  have hcall : call { s with running := f.running } i = call s i := rfl
  have hprogress := (h.running f.running).step hdown hgranted hstep
  rw [hcall] at hprogress
  have hle : s.sequence ≤ s'.sequence := (h.running f.running).sequence_le hstep
  refine ⟨⟨hprogress.start_le, hprogress.allowed, ?_⟩, ?_, hsequence ▸ hle, rfl⟩
  · intro t ht ht'
    have hlt := hprogress.sequence_lt
    simp only at ht'
    exact hprogress.dealt t ht (by omega)
  · split
    · trivial
    · exact ⟨rfl, hprogress, trivial⟩

/-- A barrier throws nothing but timeouts and alerts. -/
lemma waitCall_error {call : WaitCall ι} {sequence : Int} {choice : WaitChoice} {e : Exception}
    (hs : call.step b view sequence choice = some (.inr (.error e))) :
    e = .TimeoutException ∨ e = .AlertException :=
  (WaitCall.step_error hs).imp_right And.left

/-- A step of the thread keeps what it knows; its sequence never decreases. -/
theorem runStep_knows (hreached : f.Reached s0 (Allowed b view.values))
    (h : pc.Knows b view.values s0 f) (hs : runStep p b view f pc a = some (f', pc')) :
    f'.Reached s0 (Allowed b view.values) ∧ pc'.Knows b view.values s0 f' ∧
      f.sequence ≤ f'.sequence := by
  unfold runStep at hs
  split at hs
  · split at hs
    · obtain ⟨rfl, rfl⟩ := Prod.mk.inj (Option.some.inj hs)
      exact ⟨hreached.of_eq rfl rfl, h, le_rfl⟩
    · obtain ⟨rfl, rfl⟩ := Prod.mk.inj (Option.some.inj hs)
      exact ⟨hreached, trivial, le_rfl⟩
    · obtain ⟨rfl, rfl⟩ := Prod.mk.inj (Option.some.inj hs)
      exact ⟨hreached, trivial, le_rfl⟩
  · obtain ⟨rfl, rfl⟩ := Prod.mk.inj (Option.some.inj hs)
    exact ⟨hreached.of_eq rfl rfl, h, le_rfl⟩
  · obtain ⟨rfl, rfl⟩ := Prod.mk.inj (Option.some.inj hs)
    exact ⟨hreached, h, le_rfl⟩
  · split_ifs at hs
    · obtain ⟨rfl, rfl⟩ := Prod.mk.inj (Option.some.inj hs)
      have hstart : f.sequence = s0 := h
      exact ⟨hreached, ⟨rfl, hstart ▸ progress_enter _, trivial⟩, le_rfl⟩
    · obtain ⟨rfl, rfl⟩ := Prod.mk.inj (Option.some.inj hs)
      exact ⟨hreached, trivial, le_rfl⟩
  · rename_i s call choice
    obtain ⟨hsequence, hprogress, hcall⟩ := h
    split_ifs at hs with hpc
    split at hs
    · rename_i call' hstep
      obtain ⟨rfl, rfl⟩ := Prod.mk.inj (Option.some.inj hs)
      refine ⟨hreached, ⟨hsequence, hprogress, ?_⟩, le_rfl⟩
      exact WaitCall.step_knows hcall trivial (fun _ _ _ _ _ _ => trivial) hstep
    · rename_i answer hstep
      have hgranted : (Input.waitFor answer).Granted (Allowed b view.values) s := by
        cases answer with
        | error e => exact waitCall_error hstep
        | ok a =>
          intro hle
          exact ((WaitCall.step_answers hcall trivial (fun _ _ _ _ => trivial) hstep).below hle).2
      obtain ⟨hreached', hknows, hle, -⟩ :=
        Fields.processEvents_knows hsequence hprogress hgranted hs
      exact ⟨hreached', hknows, hle⟩
    · cases hs
  · rename_i s call i
    obtain ⟨hsequence, hprogress, -⟩ := h
    split_ifs at hs with hown
    have hgranted : i.Granted (Allowed b view.values) s := by
      cases i with
      | waitFor answer => cases hown
      | _ => trivial
    obtain ⟨hreached', hknows, hle, -⟩ :=
      Fields.processEvents_knows hsequence hprogress hgranted hs
    exact ⟨hreached', hknows, hle⟩
  · obtain ⟨rfl, rfl⟩ := Prod.mk.inj (Option.some.inj hs)
    exact ⟨hreached, trivial, le_rfl⟩
  · obtain ⟨rfl, rfl⟩ := Prod.mk.inj (Option.some.inj hs)
    exact ⟨hreached.of_eq rfl rfl, trivial, le_rfl⟩
  · obtain ⟨rfl, rfl⟩ := Prod.mk.inj (Option.some.inj hs)
    exact ⟨hreached, trivial, le_rfl⟩
  · obtain ⟨rfl, rfl⟩ := Prod.mk.inj (Option.some.inj hs)
    exact ⟨hreached, trivial, le_rfl⟩
  · cases hs

/-! ### The calls that a step makes -/

/-- A step makes no call, or one of `processEvents`. -/
lemma runStep_calls (hs : runStep p b view f pc a = some (f', pc')) :
    f'.calls = f.calls ∨
      ∃ s wait i c, pc = .processEvents s wait ∧ call s i = some c ∧
        (p.step { s with running := f.running } i).isSome = true ∧ f'.calls = c :: f.calls := by
  have hprocess : ∀ s wait i, pc = .processEvents s wait →
      f.processEvents (ι := ι) p s i = some (f', pc') →
      f'.calls = f.calls ∨
        ∃ s wait i c, pc = .processEvents s wait ∧ call s i = some c ∧
          (p.step { s with running := f.running } i).isSome = true ∧ f'.calls = c :: f.calls := by
    intro s wait i hpc hs
    simp only [Fields.processEvents, Option.map_eq_some_iff, Prod.mk.injEq] at hs
    obtain ⟨s', hstep, rfl, -⟩ := hs
    cases hcall : call s i with
    | none => exact Or.inl rfl
    | some c => exact Or.inr ⟨s, wait, i, c, hpc, hcall, by simp [hstep], rfl⟩
  unfold runStep at hs
  split at hs
  · split at hs <;> obtain ⟨rfl, rfl⟩ := Prod.mk.inj (Option.some.inj hs) <;> exact Or.inl rfl
  · obtain ⟨rfl, rfl⟩ := Prod.mk.inj (Option.some.inj hs)
    exact Or.inl rfl
  · obtain ⟨rfl, rfl⟩ := Prod.mk.inj (Option.some.inj hs)
    exact Or.inl rfl
  · split_ifs at hs <;> obtain ⟨rfl, rfl⟩ := Prod.mk.inj (Option.some.inj hs) <;> exact Or.inl rfl
  · split_ifs at hs
    split at hs
    · obtain ⟨rfl, rfl⟩ := Prod.mk.inj (Option.some.inj hs)
      exact Or.inl rfl
    · exact hprocess _ _ _ rfl hs
    · cases hs
  · split_ifs at hs
    exact hprocess _ _ _ rfl hs
  · obtain ⟨rfl, rfl⟩ := Prod.mk.inj (Option.some.inj hs)
    exact Or.inl rfl
  · obtain ⟨rfl, rfl⟩ := Prod.mk.inj (Option.some.inj hs)
    exact Or.inl rfl
  · obtain ⟨rfl, rfl⟩ := Prod.mk.inj (Option.some.inj hs)
    exact Or.inl rfl
  · obtain ⟨rfl, rfl⟩ := Prod.mk.inj (Option.some.inj hs)
    exact Or.inl rfl
  · cases hs

/-- `onEvent` is called with the next sequence of a batch. -/
lemma call_onEvent {sequence start : Int} {endOfBatch : Bool} {thrown : Option Exception}
    (h : call s i = some (.onEvent sequence endOfBatch start thrown)) :
    s.nextSequence = sequence ∧ ∃ last, s.pc = .onEvent start last := by
  cases i with
  | onEvent t =>
    simp only [call] at h
    split at h
    · rename_i start' last hpc
      simp only [Option.some.injEq, Call.onEvent.injEq] at h
      exact ⟨h.1, last, h.2.2.1 ▸ hpc⟩
    · cases h
  | onBatchStart | handleRewindException | onTimeout | handleEventException =>
    simp only [call] at h
    split at h <;> cases h
  | waitFor | endOfBatch | checkRunning | skip | halt => cases h

/-- Where `onEvent` is called with a sequence, the barrier has allowed it. -/
theorem runStep_onEvent (h : pc.Knows b values s0 f)
    (hs : runStep p b view f pc a = some (f', pc')) {sequence start : Int} {endOfBatch : Bool}
    {thrown : Option Exception}
    (hcalls : f'.calls = .onEvent sequence endOfBatch start thrown :: f.calls) :
    Allowed b values sequence := by
  rcases runStep_calls hs with hsame | ⟨s, wait, i, c, rfl, hcall, -, hcons⟩
  · rw [hsame] at hcalls
    exact absurd (congrArg List.length hcalls) (by simp)
  · obtain ⟨rfl, -⟩ := List.cons.inj (hcons.symm.trans hcalls)
    obtain ⟨rfl, last, hpc⟩ := call_onEvent hcall
    obtain ⟨-, hprogress, -⟩ := h
    have hat := hprogress.atPc
    rw [hpc] at hat
    obtain ⟨-, -, hle, hallowed⟩ := hat
    exact fun i hi => hle.trans (hallowed i hi)

end Disruptor.BatchEventProcessor
