import Disruptor.EventProcessor.Advance
import Disruptor.EventProcessor.Halting

/-!
# A processor that was halted stops

After a `halt()` the thread of a processor finishes at most the batch that it is in, or the one that
its call of `waitFor` allows, and leaves `run()`: out of `waitFor` every step brings it closer to
the end, and a call of `waitFor` that it begins ends at once.
-/

namespace Disruptor.BatchEventProcessor

variable {ι : Type*} {p : BatchEventProcessor} {b : Barrier ι} {view view' : WaitView ι}
  {f f' : Fields} {pc pc' : RunPc ι} {a : RunAction} {s s' : State} {i : Input}
  {wait : WaitCall ι}

/-! ### Batches keep to the limit -/

/-- What is left of the batch is in it, and no more than `batchLimitOffset` allows. -/
def State.Limited (p : BatchEventProcessor) (s : State) : Prop :=
  match s.pc with
  | .onBatchStart _ endOfBatch _ | .onEvent _ endOfBatch =>
    s.nextSequence ≤ endOfBatch ∧ endOfBatch ≤ s.nextSequence + p.batchLimitOffset
  | _ => True

lemma State.catchException_limited (s : State) (e : Exception) :
    (s.catchException e).Limited p := by
  cases e <;> trivial

lemma State.throwException_limited (s : State) (start : Int) (e : Exception) :
    (s.throwException p start e).Limited p := by
  cases e with
  | RewindableException =>
    simp only [State.throwException, State.catchRewindable]
    split
    · trivial
    · exact State.catchException_limited _ _
  | _ => trivial

lemma State.nextEvent_limited {start endOfBatch : Int}
    (h : endOfBatch ≤ s.nextSequence + p.batchLimitOffset) :
    (s.nextEvent start endOfBatch).Limited p := by
  unfold State.nextEvent
  split_ifs with hmore
  · exact ⟨hmore, h⟩
  · trivial

lemma State.available_limited (h : s.Limited p) (available : Int) :
    (s.available p available).Limited p := by
  unfold State.available
  dsimp only
  split_ifs with hbelow hsome
  · exact h
  · exact ⟨hsome, min_le_left _ _⟩
  · exact State.nextEvent_limited (min_le_left _ _)

/-- Every step of `processEvents` keeps to the limit. -/
lemma step_limited (h : s.Limited p) (hs : p.step s i = some s') : s'.Limited p := by
  cases step_iff.mp hs with
  | available hpc => exact State.available_limited h _
  | waitForThrows hpc | onBatchStartThrows hpc | onEventThrows hpc =>
    exact State.throwException_limited _ _ _
  | onBatchStart hpc =>
    rw [State.Limited, hpc] at h
    exact State.nextEvent_limited h.2
  | onEvent hpc =>
    rw [State.Limited, hpc] at h
    obtain ⟨-, hle⟩ := h
    exact State.nextEvent_limited (by simp only; omega)
  | strategyThrows hpc => exact State.catchException_limited _ _
  | checkRunning hpc =>
    rw [State.Limited]
    split_ifs <;> trivial
  | halt => exact h
  | _ => trivial

/-- Where the thread can be: in a batch that keeps to the limit, in `processEvents` only while that
goes on, and at a place of `waitFor`. -/
def RunPc.Within (p : BatchEventProcessor) (view : WaitView ι) : RunPc ι → Prop
  | .processEvents s wait =>
    s.Limited p ∧ (∀ thrown, s.pc ≠ .exited thrown) ∧ wait.Placed view s.nextSequence
  | _ => True

lemma RunPc.Within.of_available (h : pc.Within p view)
    (hflags : view'.available.isSome = view.available.isSome) : pc.Within p view' := by
  cases pc with
  | processEvents s wait => exact ⟨h.1, h.2.1, h.2.2.of_available hflags⟩
  | _ => trivial

lemma Fields.processEvents_within (h : s.Limited p)
    (hs : f.processEvents (ι := ι) p s i = some (f', pc')) : pc'.Within p view := by
  simp only [Fields.processEvents, Option.map_eq_some_iff, Prod.mk.injEq] at hs
  obtain ⟨s', hstep, rfl, rfl⟩ := hs
  have hlimited : ({ s with running := f.running } : State).Limited p := h
  split
  · trivial
  · rename_i hgoesOn
    exact ⟨step_limited hlimited hstep, hgoesOn, trivial⟩

/-- Every step of the thread keeps to it. -/
theorem runStep_within (h : pc.Within p view) (hs : runStep p b view f pc a = some (f', pc')) :
    pc'.Within p view := by
  unfold runStep at hs
  split at hs
  · split at hs <;> obtain ⟨rfl, rfl⟩ := Prod.mk.inj (Option.some.inj hs) <;> trivial
  · obtain ⟨rfl, rfl⟩ := Prod.mk.inj (Option.some.inj hs)
    trivial
  · obtain ⟨rfl, rfl⟩ := Prod.mk.inj (Option.some.inj hs)
    trivial
  · split_ifs at hs <;> obtain ⟨rfl, rfl⟩ := Prod.mk.inj (Option.some.inj hs)
    · exact ⟨trivial, by rintro thrown ⟨⟩, trivial⟩
    · trivial
  · obtain ⟨hlimited, hgoesOn, hplaced⟩ := h
    split_ifs at hs
    split at hs
    · rename_i hstep
      obtain ⟨rfl, rfl⟩ := Prod.mk.inj (Option.some.inj hs)
      exact ⟨hlimited, hgoesOn, WaitCall.step_placed hplaced hstep⟩
    · exact Fields.processEvents_within hlimited hs
    · cases hs
  · obtain ⟨hlimited, -⟩ := h
    split_ifs at hs
    exact Fields.processEvents_within hlimited hs
  all_goals first
    | cases hs; done
    | obtain ⟨rfl, rfl⟩ := Prod.mk.inj (Option.some.inj hs)
      trivial

/-! ### What a `halt()` leaves to do -/

/-- `halt()` has stored `HALTED`: the thread has still to read it, or is on its way out. -/
def RunPc.Stopping (f : Fields) : RunPc ι → Prop
  | .enterRun | .clearAlert | .notifyStart | .checkRunning | .processEvents _ _ =>
    f.running = .HALTED
  | _ => True

/-- `halt()` has alerted the barrier as well, and the thread does not clear the alert unless it is
on its way to read `HALTED`. -/
structure RunPc.Stopped (f : Fields) (pc : RunPc ι) : Prop where
  stopping : pc.Stopping f
  alerted : ∀ s wait, pc = .processEvents s wait → f.alerted = true

/-- `running_` stays `HALTED` while `processEvents` goes on. -/
lemma step_halted (h : s.running = .HALTED) (hs : p.step s i = some s') :
    s'.running = .HALTED := by
  cases step_iff.mp hs with
  | halt => rfl
  | _ => simp [h]

/-- A step of `processEvents` of a processor that was halted. -/
lemma Fields.processEvents_stopped (h : f.running = .HALTED) (halerted : f.alerted = true)
    (hs : f.processEvents (ι := ι) p s i = some (f', pc')) : pc'.Stopped f' := by
  simp only [Fields.processEvents, Option.map_eq_some_iff, Prod.mk.injEq] at hs
  obtain ⟨s', hstep, rfl, rfl⟩ := hs
  have hhalted : s'.running = .HALTED := step_halted h hstep
  split
  · exact ⟨trivial, by rintro t wait ⟨⟩⟩
  · exact ⟨hhalted, fun _ _ _ => by simp [halerted]⟩

lemma Fields.processEvents_stopping (h : f.running = .HALTED)
    (hs : f.processEvents (ι := ι) p s i = some (f', pc')) : pc'.Stopping f' := by
  simp only [Fields.processEvents, Option.map_eq_some_iff, Prod.mk.injEq] at hs
  obtain ⟨s', hstep, rfl, rfl⟩ := hs
  have hhalted : s'.running = .HALTED := step_halted h hstep
  split
  · trivial
  · exact hhalted

/-- A thread that finds `HALTED` goes on with its way out. -/
theorem runStep_stopping (h : pc.Stopping f) (hs : runStep p b view f pc a = some (f', pc')) :
    pc'.Stopping f' := by
  unfold runStep at hs
  split at hs
  · have hhalted : f.running = .HALTED := h
    simp only [hhalted] at hs
    obtain ⟨rfl, rfl⟩ := Prod.mk.inj (Option.some.inj hs)
    trivial
  · obtain ⟨rfl, rfl⟩ := Prod.mk.inj (Option.some.inj hs)
    exact h
  · obtain ⟨rfl, rfl⟩ := Prod.mk.inj (Option.some.inj hs)
    exact h
  · have hhalted : f.running = .HALTED := h
    simp only [hhalted, reduceCtorEq, if_false] at hs
    obtain ⟨rfl, rfl⟩ := Prod.mk.inj (Option.some.inj hs)
    trivial
  · split_ifs at hs
    split at hs
    · obtain ⟨rfl, rfl⟩ := Prod.mk.inj (Option.some.inj hs)
      exact h
    · exact Fields.processEvents_stopping h hs
    · cases hs
  · split_ifs at hs
    exact Fields.processEvents_stopping h hs
  all_goals first
    | cases hs; done
    | obtain ⟨rfl, rfl⟩ := Prod.mk.inj (Option.some.inj hs)
      trivial

/-- It does not get into `processEvents`, and in there it keeps the alert. -/
theorem runStep_stopped (h : pc.Stopped f) (hs : runStep p b view f pc a = some (f', pc')) :
    pc'.Stopped f' := by
  refine ⟨runStep_stopping h.stopping hs, ?_⟩
  obtain ⟨hstopping, halerted⟩ := h
  intro s' wait' hpc'
  cases pc with
  | processEvents s wait =>
    have hset := halerted s wait rfl
    cases a with
    | wait choice =>
      simp only [runStep] at hs
      split_ifs at hs
      split at hs
      · obtain ⟨rfl, -⟩ := Prod.mk.inj (Option.some.inj hs)
        exact hset
      · exact (Fields.processEvents_stopped hstopping hset hs).alerted s' wait' hpc'
      · cases hs
    | input i =>
      simp only [runStep] at hs
      split_ifs at hs
      exact (Fields.processEvents_stopped hstopping hset hs).alerted s' wait' hpc'
    | proceed => cases hs
  | checkRunning =>
    have hhalted : f.running = .HALTED := hstopping
    cases a with
    | proceed =>
      simp only [runStep, hhalted, reduceCtorEq, if_false] at hs
      obtain ⟨-, rfl⟩ := Prod.mk.inj (Option.some.inj hs)
      cases hpc'
    | _ => cases hs
  | enterRun =>
    have hhalted : f.running = .HALTED := hstopping
    cases a with
    | proceed =>
      simp only [runStep, hhalted] at hs
      obtain ⟨-, rfl⟩ := Prod.mk.inj (Option.some.inj hs)
      cases hpc'
    | _ => cases hs
  | _ =>
    cases a with
    | proceed =>
      first
        | cases hs; done
        | obtain ⟨-, rfl⟩ := Prod.mk.inj (Option.some.inj hs)
          cases hpc'
    | _ => cases hs

/-! ### How much that is -/

/-- How often `onEvent` is still called before the batch ends. -/
def State.eventsLeft (s : State) : Nat :=
  match s.pc with
  | .onBatchStart _ endOfBatch _ | .onEvent _ endOfBatch => (endOfBatch + 1 - s.nextSequence).toNat
  | _ => 0

/-- How often a thread that was halted calls `onEvent` at most. A call of `waitFor` that has checked
the alert may still allow a batch. -/
def RunPc.eventsLeft (p : BatchEventProcessor) : RunPc ι → Nat
  | .processEvents s .checkAlert => s.eventsLeft
  | .processEvents s _ => max s.eventsLeft (p.batchLimitOffset.toNat + 1)
  | _ => 0

/-- How many steps out of `waitFor` it takes at most. -/
def RunPc.stepsLeft (p : BatchEventProcessor) : RunPc ι → Nat
  | .returned => 0
  | .storeIdle | .earlyNotifyShutdown => 1
  | .notifyShutdown | .earlyNotifyStart => 2
  | .enterRun | .checkRunning => 3
  | .notifyStart => 4
  | .clearAlert => 5
  | .processEvents s .checkAlert => Lifecycle.stepsLeft s + 2
  | .processEvents s _ => max (Lifecycle.stepsLeft s) (p.batchLimitOffset.toNat + 10) + 2

/-- `onEvent` is called. -/
def RunAction.isOnEvent : RunAction → Bool
  | .input (.onEvent _) => true
  | _ => false

/-- The step is one of the barrier. -/
def RunAction.isWait : RunAction → Bool
  | .wait _ => true
  | _ => false

lemma State.Limited.eventsLeft_le (h : s.Limited p) :
    s.eventsLeft ≤ p.batchLimitOffset.toNat + 1 := by
  have hoffset := p.batchLimitOffset_nonneg
  unfold State.Limited at h
  unfold State.eventsLeft
  split at h <;> simp_all <;> omega

lemma State.Limited.stepsLeft_le (h : s.Limited p) :
    Lifecycle.stepsLeft s ≤ p.batchLimitOffset.toNat + 9 := by
  have hoffset := p.batchLimitOffset_nonneg
  unfold State.Limited at h
  unfold Lifecycle.stepsLeft
  cases hpc : s.pc <;> simp only [hpc] at h ⊢ <;> omega

lemma RunPc.Within.eventsLeft_le (h : pc.Within p view) :
    pc.eventsLeft p ≤ p.batchLimitOffset.toNat + 1 := by
  cases pc with
  | processEvents s wait =>
    have hle := h.1.eventsLeft_le
    cases wait <;> simp only [RunPc.eventsLeft] <;> omega
  | _ => exact Nat.zero_le _

lemma RunPc.Within.stepsLeft_le (h : pc.Within p view) :
    pc.stepsLeft p ≤ p.batchLimitOffset.toNat + 12 := by
  cases pc with
  | processEvents s wait =>
    have hle := h.1.stepsLeft_le
    cases wait <;> simp only [RunPc.stepsLeft] <;> omega
  | _ =>
    simp only [RunPc.stepsLeft]
    omega

@[simp] lemma State.eventsLeft_catchException (s : State) (e : Exception) :
    (s.catchException e).eventsLeft = 0 := by
  cases e <;> rfl

@[simp] lemma State.eventsLeft_throwException (s : State) (start : Int) (e : Exception) :
    (s.throwException p start e).eventsLeft = 0 := by
  cases e with
  | RewindableException =>
    simp only [State.throwException, State.catchRewindable]
    split
    · rfl
    · exact State.eventsLeft_catchException _ _
  | _ => rfl

lemma State.eventsLeft_nextEvent (s : State) (start endOfBatch : Int) :
    (s.nextEvent start endOfBatch).eventsLeft = (endOfBatch + 1 - s.nextSequence).toNat := by
  unfold State.nextEvent
  split_ifs with hmore
  · rfl
  · simp only [State.eventsLeft]
    omega

/-- A step of `processEvents` that is not one of the barrier calls `onEvent` at most once. -/
lemma eventsLeft_step (h : s.Limited p) (hown : i.isOwn = true) (hs : p.step s i = some s') :
    s'.eventsLeft + (if RunAction.isOnEvent (.input i) then 1 else 0) ≤ s.eventsLeft := by
  cases step_iff.mp hs with
  | available hpc | waitForThrows hpc | halt => cases hown
  | onBatchStart hpc =>
    rw [State.eventsLeft_nextEvent]
    simp [State.eventsLeft, hpc, RunAction.isOnEvent]
  | onEvent hpc =>
    rw [State.Limited, hpc] at h
    obtain ⟨hle, -⟩ := h
    simp only [State.eventsLeft_nextEvent, RunAction.isOnEvent, if_true]
    rw [State.eventsLeft, hpc]
    simp only
    omega
  | onEventThrows hpc =>
    rw [State.Limited, hpc] at h
    obtain ⟨hle, -⟩ := h
    simp only [State.eventsLeft_throwException, RunAction.isOnEvent, if_true]
    rw [State.eventsLeft, hpc]
    simp only
    omega
  | onBatchStartThrows hpc | strategyThrows hpc => simp [RunAction.isOnEvent]
  | checkRunning hpc =>
    simp only [RunAction.isOnEvent, State.eventsLeft, Bool.false_eq_true, if_false]
    split_ifs <;> simp
  | _ => simp [State.eventsLeft, RunAction.isOnEvent]

/-- A step of the thread brings it closer to the end. -/
structure RunPc.Nearer (p : BatchEventProcessor) (a : RunAction) (pc pc' : RunPc ι) : Prop where
  /-- Only in a call of `waitFor` that goes on it may stay where it is. -/
  steps : pc'.stepsLeft p < pc.stepsLeft p ∨
    a.isWait = true ∧ pc'.stepsLeft p = pc.stepsLeft p ∧
      ∃ s wait, pc' = .processEvents s wait ∧ Lifecycle.HasBegun wait
  events : pc'.eventsLeft p + (if a.isOnEvent then 1 else 0) ≤ pc.eventsLeft p

/-- The barrier has answered: a batch begins, or the thread has found the alert. -/
lemma Fields.processEvents_answered {answer : Except Exception Int} (hlimited : s.Limited p)
    (hs : f.processEvents (ι := ι) p s (.waitFor answer) = some (f', pc')) :
    pc'.stepsLeft p ≤ p.batchLimitOffset.toNat + 11 ∧
      pc'.eventsLeft p ≤ p.batchLimitOffset.toNat + 1 := by
  simp only [Fields.processEvents, Option.map_eq_some_iff, Prod.mk.injEq] at hs
  obtain ⟨s', hstep, -, rfl⟩ := hs
  have hsame : ({ s with running := f.running } : State).Limited p := hlimited
  have hlimited' := step_limited hsame hstep
  have hsteps := hlimited'.stepsLeft_le
  have hevents := hlimited'.eventsLeft_le
  split
  · simp [RunPc.stepsLeft, RunPc.eventsLeft]
  · simp only [RunPc.stepsLeft, RunPc.eventsLeft]
    omega

/-- A step of `processEvents` that is not one of the barrier. -/
lemma Fields.processEvents_nearer (hlimited : s.Limited p) (h : f.running = .HALTED)
    (hown : i.isOwn = true) (hs : f.processEvents (ι := ι) p s i = some (f', pc')) :
    pc'.stepsLeft p < Lifecycle.stepsLeft s + 2 ∧
      pc'.eventsLeft p + (if RunAction.isOnEvent (.input i) then 1 else 0) ≤ s.eventsLeft := by
  simp only [Fields.processEvents, Option.map_eq_some_iff, Prod.mk.injEq] at hs
  obtain ⟨s', hstep, -, rfl⟩ := hs
  have hlt : Lifecycle.stepsLeft s' + (if i.alerts then 1 else 0) <
      Lifecycle.stepsLeft { s with running := f.running } := Lifecycle.stepsLeft_lt h hown hstep
  have hsame : Lifecycle.stepsLeft { s with running := f.running } = Lifecycle.stepsLeft s := rfl
  have hsameLimited : ({ s with running := f.running } : State).Limited p := hlimited
  have hevents := eventsLeft_step hsameLimited hown hstep
  have hsameEvents : ({ s with running := f.running } : State).eventsLeft = s.eventsLeft := rfl
  rw [hsame] at hlt
  rw [hsameEvents] at hevents
  split
  · simp only [RunPc.stepsLeft, RunPc.eventsLeft]
    omega
  · simp only [RunPc.stepsLeft, RunPc.eventsLeft]
    omega

lemma hasBegun_dependent (strategy : WaitStrategy) :
    Lifecycle.HasBegun (WaitCall.dependent b strategy) := by
  unfold WaitCall.dependent
  split_ifs <;> trivial

lemma hasBegun_enter (strategy : WaitStrategy) :
    Lifecycle.HasBegun (WaitCall.enter b strategy) := by
  unfold WaitCall.enter
  split_ifs
  · trivial
  · exact hasBegun_dependent strategy

lemma hasBegun_found {sequence available : Int} {strategy : WaitStrategy}
    (hs : WaitCall.found view sequence strategy available = .inl wait) :
    Lifecycle.HasBegun wait := by
  unfold WaitCall.found at hs
  split_ifs at hs
  · obtain rfl := Sum.inl.inj hs
    trivial
  · split at hs
    · cases hs
    · obtain rfl := Sum.inl.inj hs
      trivial

/-- No call of `waitFor` goes back to its start. -/
lemma hasBegun_of_step {wait' : WaitCall ι} {sequence : Int} {choice : WaitChoice}
    (hs : wait.step b view sequence choice = some (.inl wait')) : Lifecycle.HasBegun wait' := by
  unfold WaitCall.step at hs
  split at hs
  case h_6 | h_7 => exact hasBegun_found (Option.some.inj hs)
  case h_1 =>
    split_ifs at hs
    · cases hs
    · obtain rfl := Sum.inl.inj (Option.some.inj hs)
      exact hasBegun_enter _
  case h_2 =>
    split_ifs at hs <;> obtain rfl := Sum.inl.inj (Option.some.inj hs)
    · trivial
    · exact hasBegun_dependent _
  case h_9 =>
    split_ifs at hs
    · cases hs
    · obtain rfl := Sum.inl.inj (Option.some.inj hs)
      exact hasBegun_dependent _
  case h_10 =>
    obtain rfl := Sum.inl.inj (Option.some.inj hs)
    exact hasBegun_enter _
  case h_11 =>
    split at hs
    · cases hs
    · split_ifs at hs
      · obtain rfl := Sum.inl.inj (Option.some.inj hs)
        trivial
      · cases hs
      · cases hs
  case h_12 => cases hs
  case h_4 | h_8 =>
    obtain rfl := Sum.inl.inj (Option.some.inj hs)
    trivial
  all_goals
    split_ifs at hs
    all_goals first
      | cases hs; done
      | obtain rfl := Sum.inl.inj (Option.some.inj hs)
        trivial

lemma stepsLeft_of_hasBegun (s : State) (h : Lifecycle.HasBegun wait) :
    (RunPc.processEvents s wait).stepsLeft p =
      max (Lifecycle.stepsLeft s) (p.batchLimitOffset.toNat + 10) + 2 := by
  cases wait with
  | checkAlert => exact h.elim
  | _ => rfl

lemma eventsLeft_of_hasBegun (s : State) (h : Lifecycle.HasBegun wait) :
    (RunPc.processEvents s wait).eventsLeft p =
      max s.eventsLeft (p.batchLimitOffset.toNat + 1) := by
  cases wait with
  | checkAlert => exact h.elim
  | _ => rfl

/-- A call of `waitFor` that has checked the alert goes on, or ends. -/
lemma nearer_of_hasBegun {choice : WaitChoice} (hlimited : s.Limited p)
    (h : Lifecycle.HasBegun wait)
    (hs : (match wait.step b view s.nextSequence choice with
      | some (.inl wait') => some (f, RunPc.processEvents s wait')
      | some (.inr answer) => f.processEvents p s (.waitFor answer)
      | none => none) = some (f', pc')) :
    RunPc.Nearer p (.wait choice) (RunPc.processEvents s wait) pc' := by
  have hsteps := stepsLeft_of_hasBegun (p := p) s h
  have hevents := eventsLeft_of_hasBegun (p := p) s h
  split at hs
  · rename_i wait' hstep
    obtain ⟨-, rfl⟩ := Prod.mk.inj (Option.some.inj hs)
    have hbegun : Lifecycle.HasBegun wait' := hasBegun_of_step hstep
    refine ⟨Or.inr ⟨rfl, ?_, s, wait', rfl, hbegun⟩, ?_⟩
    · rw [hsteps, stepsLeft_of_hasBegun s hbegun]
    · rw [hevents, eventsLeft_of_hasBegun s hbegun]
      rfl
  · obtain ⟨hsteps', hevents'⟩ := Fields.processEvents_answered hlimited hs
    refine ⟨Or.inl ?_, ?_⟩
    · omega
    · simp only [RunAction.isOnEvent, Bool.false_eq_true, if_false]
      omega
  · cases hs

/-- Every step of a thread that was halted brings it closer to the end. -/
theorem RunPc.Stopped.nearer (h : pc.Stopped f) (hwithin : pc.Within p view)
    (hview : view.alerted = f.alerted) (hs : runStep p b view f pc a = some (f', pc')) :
    RunPc.Nearer p a pc pc' := by
  obtain ⟨hstopping, halerted⟩ := h
  unfold runStep at hs
  split at hs
  · have hhalted : f.running = .HALTED := hstopping
    simp only [hhalted] at hs
    obtain ⟨-, rfl⟩ := Prod.mk.inj (Option.some.inj hs)
    exact ⟨Or.inl (Nat.lt_succ_self _), le_rfl⟩
  · obtain ⟨-, rfl⟩ := Prod.mk.inj (Option.some.inj hs)
    exact ⟨Or.inl (Nat.lt_succ_self _), le_rfl⟩
  · obtain ⟨-, rfl⟩ := Prod.mk.inj (Option.some.inj hs)
    exact ⟨Or.inl (Nat.lt_succ_self _), le_rfl⟩
  · have hhalted : f.running = .HALTED := hstopping
    simp only [hhalted, reduceCtorEq, if_false] at hs
    obtain ⟨-, rfl⟩ := Prod.mk.inj (Option.some.inj hs)
    exact ⟨Or.inl (Nat.lt_succ_self _), le_rfl⟩
  · rename_i s wait choice
    obtain ⟨hlimited, -, -⟩ := hwithin
    split_ifs at hs with hpc
    cases wait with
    | checkAlert =>
      -- the call finds the alert
      have hset : view.alerted = true := hview.trans (halerted _ _ rfl)
      cases choice with
      | proceed =>
        simp only [WaitCall.step, hset, if_true] at hs
        simp only [Fields.processEvents, step, hpc, State.throwException, State.catchException,
          Option.map_some] at hs
        obtain ⟨-, rfl⟩ := Prod.mk.inj (Option.some.inj hs)
        refine ⟨Or.inl ?_, Nat.zero_le _⟩
        simp [RunPc.stepsLeft, Lifecycle.stepsLeft, hpc]
      | _ => cases hs
    | _ => exact nearer_of_hasBegun hlimited trivial hs
  · rename_i s wait i
    obtain ⟨hlimited, -, -⟩ := hwithin
    have hhalted : f.running = .HALTED := hstopping
    split_ifs at hs with hown
    obtain ⟨hsteps, hevents⟩ := Fields.processEvents_nearer hlimited hhalted hown hs
    refine ⟨Or.inl (lt_of_lt_of_le hsteps ?_), hevents.trans ?_⟩
    · cases wait <;> simp only [RunPc.stepsLeft] <;> omega
    · cases wait <;> simp only [RunPc.eventsLeft] <;> omega
  all_goals first
    | cases hs; done
    | obtain ⟨-, rfl⟩ := Prod.mk.inj (Option.some.inj hs)
      exact ⟨Or.inl (Nat.lt_succ_self _), le_rfl⟩

/-! ### It can go on to the end -/

open Relation

variable {views : Fields → WaitView ι}

/-- `processEvents` takes a step when its state does. -/
lemma Fields.exists_processEvents (f : Fields)
    (hs : p.step { s with running := f.running } i = some s') :
    ∃ f' pc', f.processEvents (ι := ι) p s i = some (f', pc') := by
  simp only [Fields.processEvents, hs, Option.map_some]
  exact ⟨_, _, rfl⟩

/-- A thread that was halted, at a place that it can be at. -/
structure Halts (p : BatchEventProcessor) (views : Fields → WaitView ι) (x : Fields × RunPc ι) :
    Prop where
  stopped : x.2.Stopped x.1
  within : x.2.Within p (views x.1)

/-- What the thread reads of the alert is its own field, and whether there are flags to read does
not depend on its fields. -/
structure Shows (views : Fields → WaitView ι) : Prop where
  alerted : ∀ f, (views f).alerted = f.alerted
  available : ∀ f g, (views g).available.isSome = (views f).available.isSome

lemma Halts.runStep (hshows : Shows views) {x y : Fields × RunPc ι} (h : Halts p views x)
    (hs : runStep p b (views x.1) x.1 x.2 a = some y) :
    Halts p views y ∧ RunPc.Nearer p a x.2 y.2 := by
  obtain ⟨f', pc'⟩ := y
  have hwithin := runStep_within h.within hs
  exact ⟨⟨runStep_stopped h.stopped hs, hwithin.of_available (hshows.available _ _)⟩,
    h.stopped.nearer h.within (hshows.alerted _) hs⟩

/-- The call of `waitFor` ends, and the thread is closer to its own end. -/
lemma Halts.of_ends (hshows : Shows views) (h : Halts p views (f, .processEvents s wait))
    (hpc : s.pc = .waitFor) (hends : wait.Ends b (views f) s.nextSequence) :
    ∃ y, ReflTransGen (Goes p b views) (f, .processEvents s wait) y ∧ Halts p views y ∧
      y.2.stepsLeft p < (RunPc.processEvents s wait).stepsLeft p := by
  induction hends with
  | @done wait answer choice hs =>
    obtain ⟨s', hstep⟩ : ∃ s', p.step { s with running := f.running } (.waitFor answer) =
        some s' := by
      cases answer with
      | ok availableSequence => exact ⟨_, step_iff.mpr (.available hpc)⟩
      | error e => exact ⟨_, step_iff.mpr (.waitForThrows hpc)⟩
    obtain ⟨f', pc', hanswered⟩ := f.exists_processEvents (ι := ι) hstep
    have hrun : BatchEventProcessor.runStep p b (views f) f (.processEvents s wait)
        (.wait choice) = some (f', pc') := by
      simp only [BatchEventProcessor.runStep, hpc, if_true, hs]
      exact hanswered
    obtain ⟨hhalts, hnearer⟩ := h.runStep hshows hrun
    refine ⟨(f', pc'), .single ⟨.wait choice, by simp, hrun⟩, hhalts, ?_⟩
    -- a call that has ended has not begun again
    refine hnearer.steps.resolve_right ?_
    rintro ⟨-, -, t, wait', rfl, hbegun⟩
    simp only [Fields.processEvents, hstep, Option.map_some, Option.some.injEq,
      Prod.mk.injEq] at hanswered
    obtain ⟨-, hpc'⟩ := hanswered
    split at hpc'
    · cases hpc'
    · obtain ⟨-, rfl⟩ := RunPc.processEvents.inj hpc'
      exact hbegun
  | @go wait wait' choice hs _ ih =>
    have hrun : BatchEventProcessor.runStep p b (views f) f (.processEvents s wait)
        (.wait choice) = some (f, .processEvents s wait') := by
      simp only [BatchEventProcessor.runStep, hpc, if_true, hs]
    obtain ⟨hhalts, hnearer⟩ := h.runStep hshows hrun
    obtain ⟨y, hreach, hy, hlt⟩ := ih hhalts
    refine ⟨y, .head ⟨.wait choice, by simp, hrun⟩ hreach, hy, ?_⟩
    rcases hnearer.steps with hless | ⟨-, heq, -⟩
    · exact hlt.trans hless
    · exact heq ▸ hlt

/-- A thread that has not returned comes closer to its end. -/
lemma Halts.exists_nearer (hshows : Shows views) {x : Fields × RunPc ι} (h : Halts p views x)
    (hpc : x.2 ≠ .returned) :
    ∃ y, ReflTransGen (Goes p b views) x y ∧ Halts p views y ∧
      y.2.stepsLeft p < x.2.stepsLeft p := by
  obtain ⟨f, pc⟩ := x
  have hone : ∀ {a y}, a.isWait = false → (∀ i, a = .input i → ¬ i.Throws) →
      BatchEventProcessor.runStep p b (views f) f pc a = some y →
        ∃ y, ReflTransGen (Goes p b views) (f, pc) y ∧ Halts p views y ∧
          y.2.stepsLeft p < pc.stepsLeft p := by
    intro a y hwait hthrows hrun
    obtain ⟨hhalts, hnearer⟩ := h.runStep hshows hrun
    refine ⟨y, .single ⟨a, hthrows, hrun⟩, hhalts, hnearer.steps.resolve_right ?_⟩
    rintro ⟨heq, -⟩
    exact absurd (hwait.symm.trans heq) (by simp)
  cases pc with
  | processEvents s wait =>
    obtain ⟨⟨hhalted, halerted⟩, hlimited, hgoesOn, hplaced⟩ := h
    by_cases hat : s.pc = .waitFor
    · have hset : (views f).alerted = true := (hshows.alerted f).trans (halerted s wait rfl)
      exact Halts.of_ends hshows ⟨⟨hhalted, halerted⟩, hlimited, hgoesOn, hplaced⟩ hat
        (WaitCall.ends_of_alerted hset hplaced.suits)
    · obtain ⟨i, s', hown, hthrows, -, hstep, -⟩ :=
        Lifecycle.exists_step (p := p) { s with running := f.running } hat hgoesOn
      obtain ⟨f', pc', hs⟩ := f.exists_processEvents (ι := ι) hstep
      refine hone (a := .input i) (y := (f', pc')) rfl ?_ ?_
      · rintro j ⟨⟩
        exact hthrows
      · simp only [BatchEventProcessor.runStep, hown, if_true]
        exact hs
  | returned => exact absurd rfl hpc
  | enterRun =>
    have hhalted : f.running = .HALTED := h.stopped.stopping
    refine hone (a := .proceed) (y := (f, .earlyNotifyStart)) rfl (by simp) ?_
    simp [BatchEventProcessor.runStep, hhalted]
  | checkRunning =>
    have hhalted : f.running = .HALTED := h.stopped.stopping
    refine hone (a := .proceed) (y := (f, .notifyShutdown)) rfl (by simp) ?_
    simp [BatchEventProcessor.runStep, hhalted]
  | _ => exact hone (a := .proceed) rfl (by simp) rfl

/-- Once a `halt()` has completed the thread can go on, by steps of its own, until `run()` has
returned, from wherever it is and whatever the sequences show. -/
theorem Halts.returns (hshows : Shows views) {x : Fields × RunPc ι} (h : Halts p views x) :
    ∃ f, ReflTransGen (Goes p b views) x (f, .returned) := by
  induction hn : x.2.stepsLeft p using Nat.strongRecOn generalizing x with
  | ind n ih =>
    by_cases hpc : x.2 = .returned
    · obtain ⟨f, pc⟩ := x
      obtain rfl : pc = .returned := hpc
      exact ⟨f, .refl⟩
    · obtain ⟨y, hreach, hy, hlt⟩ := h.exists_nearer (b := b) hshows hpc
      obtain ⟨f, hrest⟩ := ih _ (hn ▸ hlt) hy rfl
      exact ⟨f, hreach.trans hrest⟩

end Disruptor.BatchEventProcessor
