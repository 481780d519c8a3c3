import Disruptor.Core.Run
import Disruptor.EventProcessor.RunCall

/-!
# Fatal exceptions

What becomes of an event when the exception handler throws as well. The thread of a processor runs
among other threads: at each of its steps the rest of the program is in any state, and between them
others may halt the processor or alert its barrier.
-/

namespace Disruptor.BatchEventProcessor

open Disruptor.Core

variable {ι : Type*}

/-- A processor with the thread that runs it. -/
structure Thread (ι : Type*) where
  fields : Fields
  pc : RunPc ι := .enterRun

inductive ThreadAction (ι : Type*) where
  /-- A step of the thread itself, which finds the state of the others as in `view`. -/
  | own (view : WaitView ι) (a : RunAction)
  /-- In `halt()` of another thread: `running_` is set. -/
  | halt
  /-- Another thread alerts the barrier. -/
  | alert

def ThreadAction.isOwn : ThreadAction ι → Bool
  | .own _ _ => true
  | _ => false

/-- The steps of the thread among some actions. -/
def ownSteps (as : List (ThreadAction ι)) : Nat := as.countP ThreadAction.isOwn

def Thread.halt (t : Thread ι) : Thread ι :=
  { t with fields := { t.fields with running := .HALTED } }

def Thread.alert (t : Thread ι) : Thread ι :=
  { t with fields := { t.fields with alerted := true } }

/-- One step of the thread, or of another one that can be seen here. -/
def threadStep (p : BatchEventProcessor) (b : Barrier ι) (t : Thread ι) :
    ThreadAction ι → Option (Thread ι)
  | .own view a =>
    (runStep p b { view with alerted := t.fields.alerted } t.fields t.pc a).map fun r => ⟨r.1, r.2⟩
  | .halt => some t.halt
  | .alert => some t.alert

/-- `processEvents` has been left. -/
def RunPc.HasLeft : RunPc ι → Prop
  | .notifyShutdown | .storeIdle | .returned => True
  | _ => False

/-- The step is one in which the exception handler throws for the event `sequence`. -/
def Thread.HandlerThrows (t : Thread ι) (a : ThreadAction ι) (sequence : Int) : Prop :=
  ∃ s wait view, t.pc = .processEvents s wait ∧ s.pc = .handleEventException ∧
    s.nextSequence = sequence ∧ a = .own view (.input (.handleEventException false))

/-- Where a thread is `n` steps after its exception handler has thrown, and what it has made of
the event. -/
def RunPc.AfterFatal (sequence : Int) (f : Fields) (n : Nat) : RunPc ι → Prop
  | .processEvents s wait =>
    f.running = .HALTED ∧ f.alerted = true ∧ s.sequence = f.sequence ∧
      (n = 0 ∧ s.pc = .failed ∧ s.nextSequence = sequence ∨
        n = 1 ∧ s.pc = .waitFor ∧ wait = .checkAlert ∧ f.sequence = sequence ∨
        n = 2 ∧ s.pc = .alerted ∧ f.sequence = sequence)
  | .notifyShutdown | .storeIdle | .returned => 3 ≤ n ∧ f.sequence = sequence
  | _ => False

/-- The thread is `n` steps past the throw, and has made no call since. -/
structure Thread.AfterFatal (sequence : Int) (calls : List Call) (n : Nat) (t : Thread ι) :
    Prop where
  pc : t.pc.AfterFatal sequence t.fields n
  calls_eq : t.fields.calls = calls

variable {p : BatchEventProcessor} {b : Barrier ι} {t t' t₁ t₂ : Thread ι} {a : ThreadAction ι}
  {as : List (ThreadAction ι)} {sequence : Int} {calls : List Call} {n : Nat} {view : WaitView ι}

lemma Thread.AfterFatal.halt (h : t.AfterFatal sequence calls n) :
    t.halt.AfterFatal sequence calls n := by
  obtain ⟨hpc, hcalls⟩ := h
  refine ⟨?_, hcalls⟩
  revert hpc
  unfold Thread.halt
  cases t.pc with
  | processEvents s wait => exact fun h => ⟨rfl, h.2⟩
  | _ => exact id

lemma Thread.AfterFatal.alert (h : t.AfterFatal sequence calls n) :
    t.alert.AfterFatal sequence calls n := by
  obtain ⟨hpc, hcalls⟩ := h
  refine ⟨?_, hcalls⟩
  revert hpc
  unfold Thread.alert
  cases t.pc with
  | processEvents s wait => exact fun h => ⟨h.1, rfl, h.2.2⟩
  | _ => exact id

/-- The throw halts the processor and alerts its barrier. -/
lemma afterFatal_of_throws (h : t.HandlerThrows a sequence) (hs : threadStep p b t a = some t') :
    t'.AfterFatal sequence t'.fields.calls 0 := by
  obtain ⟨s, wait, view, hpc, hat, hnext, rfl⟩ := h
  simp only [threadStep, runStep, hpc, Input.isOwn, if_true, Fields.processEvents, step, hat,
    Option.map_some, Option.some.injEq] at hs
  obtain rfl := hs
  refine ⟨⟨rfl, ?_, rfl, Or.inl ⟨rfl, rfl, hnext⟩⟩, rfl⟩
  simp [Input.alerts]

/-- The three steps that follow: `sequence_` is set to the failed event, the alert is found, and
`processEvents` is left because `running_` is `HALTED`. -/
lemma Thread.AfterFatal.own {action : RunAction} (h : t.AfterFatal sequence calls n)
    (hs : threadStep p b t (.own view action) = some t') :
    t'.AfterFatal sequence calls (n + 1) := by
  obtain ⟨hpc, hcalls⟩ := h
  simp only [threadStep, Option.map_eq_some_iff, Prod.exists] at hs
  obtain ⟨f', pc', hs, rfl⟩ := hs
  cases hat : t.pc with
  | enterRun | clearAlert | notifyStart | checkRunning | earlyNotifyStart | earlyNotifyShutdown =>
    rw [hat] at hpc
    cases hpc
  | returned =>
    rw [hat] at hs
    cases action <;> cases hs
  | notifyShutdown =>
    rw [hat] at hs hpc
    cases action with
    | proceed =>
      obtain ⟨rfl, rfl⟩ := Prod.mk.inj (Option.some.inj hs)
      exact ⟨⟨by have := hpc.1; omega, hpc.2⟩, hcalls⟩
    | _ => cases hs
  | storeIdle =>
    rw [hat] at hs hpc
    cases action with
    | proceed =>
      obtain ⟨rfl, rfl⟩ := Prod.mk.inj (Option.some.inj hs)
      exact ⟨⟨by have := hpc.1; omega, hpc.2⟩, hcalls⟩
    | _ => cases hs
  | processEvents s wait =>
    rw [hat] at hs hpc
    obtain ⟨hrunning, halerted, hsequence, ⟨rfl, hfailed, rfl⟩ | ⟨rfl, hwaits, rfl, hset⟩ |
      ⟨rfl, halert, hset⟩⟩ := hpc
    -- `sequence_.set(nextSequence)` is the only step there is
    · cases action with
      | proceed => cases hs
      | wait choice =>
        simp only [runStep, hfailed] at hs
        cases hs
      | input i =>
        cases i <;>
          simp only [runStep, Input.isOwn, Fields.processEvents, step, hfailed, if_true,
            Option.map_none, Option.map_some, reduceCtorEq, if_false] at hs
        obtain ⟨rfl, rfl⟩ := Prod.mk.inj (Option.some.inj hs)
        refine ⟨⟨hrunning, ?_, rfl, Or.inr (Or.inl ⟨rfl, rfl, rfl, rfl⟩)⟩, hcalls⟩
        exact (Bool.or_false _).trans halerted
    -- `waitFor` finds the alert
    · cases action with
      | proceed => cases hs
      | wait choice =>
        cases choice with
        | proceed =>
          simp only [runStep, hwaits, if_true, WaitCall.step, halerted, Fields.processEvents, step,
            State.throwException, State.catchException, Option.map_some] at hs
          obtain ⟨rfl, rfl⟩ := Prod.mk.inj (Option.some.inj hs)
          refine ⟨⟨hrunning, rfl, rfl, Or.inr (Or.inr ⟨rfl, rfl, ?_⟩)⟩, hcalls⟩
          exact hsequence.trans hset
        | _ =>
          simp only [runStep, hwaits, if_true, WaitCall.step] at hs
          cases hs
      | input i =>
        cases i <;>
          simp only [runStep, Input.isOwn, Fields.processEvents, step, hwaits, if_true,
            Option.map_none, reduceCtorEq, if_false] at hs
    -- `running_` is `HALTED`
    · cases action with
      | proceed => cases hs
      | wait choice =>
        simp only [runStep, halert] at hs
        cases hs
      | input i =>
        cases i <;>
          simp only [runStep, Input.isOwn, Fields.processEvents, step, halert, if_true,
            Option.map_none, Option.map_some, reduceCtorEq, if_false, hrunning] at hs
        obtain ⟨rfl, rfl⟩ := Prod.mk.inj (Option.some.inj hs)
        exact ⟨⟨le_rfl, hsequence.trans hset⟩, hcalls⟩

lemma Thread.AfterFatal.step (h : t.AfterFatal sequence calls n)
    (hs : threadStep p b t a = some t') : t'.AfterFatal sequence calls (n + ownSteps [a]) := by
  cases a with
  | own view action => exact h.own hs
  | halt =>
    obtain rfl := Option.some.inj hs
    exact h.halt
  | alert =>
    obtain rfl := Option.some.inj hs
    exact h.alert

lemma ownSteps_cons (a : ThreadAction ι) (as : List (ThreadAction ι)) :
    ownSteps (a :: as) = ownSteps [a] + ownSteps as := by
  simp only [ownSteps, List.countP_cons, List.countP_nil]
  omega

lemma Thread.AfterFatal.run (h : t.AfterFatal sequence calls n)
    (hs : run (threadStep p b) t as = some t') :
    t'.AfterFatal sequence calls (n + ownSteps as) := by
  induction as generalizing t n with
  | nil =>
    obtain rfl : t = t' := by simpa using hs
    exact h
  | cons a as ih =>
    obtain ⟨t₁, hstep, hrest⟩ := run_cons_eq_some.mp hs
    have hend := ih (h.step hstep) hrest
    rwa [Nat.add_assoc, ← ownSteps_cons] at hend

/-- Until `processEvents` is left, the thread has a step to take. -/
lemma Thread.AfterFatal.progress (h : t.AfterFatal sequence calls n) (hleft : ¬ t.pc.HasLeft) :
    ∃ a, a.isOwn = true ∧ (threadStep p b t a).isSome = true := by
  obtain ⟨hpc, -⟩ := h
  cases hat : t.pc with
  | enterRun | clearAlert | notifyStart | checkRunning | earlyNotifyStart | earlyNotifyShutdown =>
    rw [hat] at hpc
    cases hpc
  | notifyShutdown | storeIdle | returned =>
    rw [hat] at hleft
    exact absurd trivial hleft
  | processEvents s wait =>
    rw [hat] at hpc
    obtain ⟨hrunning, halerted, -, ⟨-, hfailed, -⟩ | ⟨-, hwaits, rfl, -⟩ | ⟨-, halert, -⟩⟩ := hpc
    · refine ⟨.own ⟨0, fun _ => 0, false, none⟩ (.input .skip), rfl, ?_⟩
      simp only [threadStep, runStep, hat, Input.isOwn, if_true, Fields.processEvents,
        BatchEventProcessor.step, hfailed, Option.map_some, Option.isSome_some]
    · refine ⟨.own ⟨0, fun _ => 0, false, none⟩ (.wait .proceed), rfl, ?_⟩
      simp only [threadStep, runStep, hat, hwaits, if_true, WaitCall.step, halerted,
        Fields.processEvents, BatchEventProcessor.step, Option.map_some, Option.isSome_some]
    · refine ⟨.own ⟨0, fun _ => 0, false, none⟩ (.input .checkRunning), rfl, ?_⟩
      simp only [threadStep, runStep, hat, Input.isOwn, if_true, Fields.processEvents,
        BatchEventProcessor.step, halert, Option.map_some, Option.isSome_some]

/-- The first of the steps has released the event. -/
lemma Thread.AfterFatal.sequence_eq (h : t.AfterFatal sequence calls n) (hone : 1 ≤ n) :
    t.fields.sequence = sequence := by
  have hpc := h.pc
  cases hat : t.pc with
  | processEvents s wait =>
    rw [hat] at hpc
    obtain ⟨-, -, -, ⟨hn, -⟩ | ⟨-, -, -, hset⟩ | ⟨-, -, hset⟩⟩ := hpc
    · omega
    · exact hset
    · exact hset
  | notifyShutdown | storeIdle | returned =>
    rw [hat] at hpc
    exact hpc.2
  | _ =>
    rw [hat] at hpc
    cases hpc

/-- It takes three steps to leave `processEvents`. -/
lemma Thread.AfterFatal.hasLeft_iff (h : t.AfterFatal sequence calls n) :
    t.pc.HasLeft ↔ 3 ≤ n := by
  have hpc := h.pc
  cases hat : t.pc with
  | processEvents s wait =>
    rw [hat] at hpc
    constructor
    · rintro ⟨⟩
    · intro hthree
      obtain ⟨-, -, -, ⟨hn, -⟩ | ⟨hn, -⟩ | ⟨hn, -⟩⟩ := hpc <;> omega
  | notifyShutdown | storeIdle | returned =>
    rw [hat] at hpc
    exact ⟨fun _ => hpc.1, fun _ => trivial⟩
  | _ =>
    rw [hat] at hpc
    cases hpc

/-- After the exception handler has thrown for an event, whatever other threads do, the processor
calls no user code of the loop any more and leaves `processEvents` with its third step, but its
first step releases the event: from then on its sequence is that of the event, not one below. -/
theorem fatal_releases_event (hthrows : t.HandlerThrows a sequence)
    (hstep : threadStep p b t a = some t₁) (hrest : run (threadStep p b) t₁ as = some t₂) :
    t₂.fields.calls = t₁.fields.calls ∧ (t₂.pc.HasLeft ↔ 3 ≤ ownSteps as) ∧
      (¬ t₂.pc.HasLeft → ∃ a, a.isOwn = true ∧ (threadStep p b t₂ a).isSome = true) ∧
      (1 ≤ ownSteps as → t₂.fields.sequence = sequence ∧ ¬ t₂.fields.sequence < sequence) := by
  have hend := (afterFatal_of_throws hthrows hstep).run hrest
  rw [Nat.zero_add] at hend
  refine ⟨hend.calls_eq, hend.hasLeft_iff, hend.progress, ?_⟩
  intro hone
  have hset := hend.sequence_eq hone
  exact ⟨hset, hset.ge.not_gt⟩

/-- The first event of a run fails. -/
def firstFails : List (ThreadAction Empty) :=
  List.replicate 4 (.own ⟨0, fun _ => 0, false, none⟩ .proceed) ++
  List.replicate 2 (.own ⟨0, fun _ => 0, false, none⟩ (.wait .proceed)) ++
  [.own ⟨0, fun _ => 0, false, none⟩ (.input (.onBatchStart none)),
    .own ⟨0, fun _ => 0, false, none⟩ (.input (.onEvent (some .exception)))]

theorem fatal_releases_event_firstFails :
    ∃ t t₁ t₂ : Thread Empty,
      run (threadStep ⟨9, .NoRewindHandler, by decide⟩ ⟨.BusySpin, []⟩)
        ⟨{ sequence := -1 }, .enterRun⟩
        firstFails = some t ∧
      t.fields.calls.head? = some (.onEvent 0 true 0 (some .exception)) ∧
      threadStep ⟨9, .NoRewindHandler, by decide⟩ ⟨.BusySpin, []⟩ t
        (.own ⟨0, fun _ => 0, false, none⟩ (.input (.handleEventException false))) = some t₁ ∧
      run (threadStep ⟨9, .NoRewindHandler, by decide⟩ ⟨.BusySpin, []⟩) t₁
        [.alert, .own ⟨0, fun _ => 0, false, none⟩ (.input .skip)] = some t₂ ∧
      t₂.fields.sequence = 0 ∧ ¬ t₂.fields.sequence < 0 := by
  obtain ⟨t, t₁, t₂, hrun, hcall, hthrows, hstep, hrest⟩ :
      ∃ t t₁ t₂ : Thread Empty,
        run (threadStep ⟨9, .NoRewindHandler, by decide⟩ ⟨.BusySpin, []⟩)
          ⟨{ sequence := -1 }, .enterRun⟩ firstFails = some t ∧
        t.fields.calls.head? = some (.onEvent 0 true 0 (some .exception)) ∧
        t.HandlerThrows
          (.own ⟨0, fun _ => 0, false, none⟩ (.input (.handleEventException false))) 0 ∧
        threadStep ⟨9, .NoRewindHandler, by decide⟩ ⟨.BusySpin, []⟩ t
          (.own ⟨0, fun _ => 0, false, none⟩ (.input (.handleEventException false))) = some t₁ ∧
        run (threadStep ⟨9, .NoRewindHandler, by decide⟩ ⟨.BusySpin, []⟩) t₁
          [.alert, .own ⟨0, fun _ => 0, false, none⟩ (.input .skip)] = some t₂ :=
    ⟨_, _, _, rfl, rfl, ⟨_, _, _, rfl, rfl, rfl, rfl⟩, rfl, rfl⟩
  exact ⟨t, t₁, t₂, hrun, hcall, hstep, hrest,
    (fatal_releases_event hthrows hstep hrest).2.2.2 le_rfl⟩

end Disruptor.BatchEventProcessor
