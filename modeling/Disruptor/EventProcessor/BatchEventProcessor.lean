import Disruptor.Sequencer.Gating

/-!
# `BatchEventProcessor`

The loop of `processEvents` in steps: each call of the barrier, of the handler, of the rewind
strategy and of the exception handler is one step, labelled with how the call ends, and so is
each access to `running_` and to `sequence_`. Other threads show up as `halt`.
-/

namespace Disruptor

/-- What a call throws, by the `catch` clause that it meets. The first three are
`std::exception`s too; `other` is no `std::exception` at all. -/
inductive Exception where
  | TimeoutException
  | AlertException
  | RewindableException
  | exception
  | other
  deriving DecidableEq, Repr

/-- The values of `running_`. -/
inductive Running where
  | IDLE
  | HALTED
  | RUNNING
  deriving DecidableEq, Repr

inductive RewindAction where
  | REWIND
  | THROW
  deriving DecidableEq, Repr

/-- `rewindHandler_`: a `TryRewindHandler` for a rewindable event handler, whose strategy may be
null, else a `NoRewindHandler`. -/
inductive RewindHandler where
  | NoRewindHandler
  | TryRewindHandler (strategyIsNull : Bool)
  deriving DecidableEq, Repr

/-- What the constructor fixes. -/
structure BatchEventProcessor where
  batchLimitOffset : Int
  rewindHandler : RewindHandler
  batchLimitOffset_nonneg : 0 ≤ batchLimitOffset

namespace BatchEventProcessor

/-- The constructor. -/
def construct (maxBatchSize : Int) (rewindable strategyIsNull : Bool) :
    Except String BatchEventProcessor :=
  if h : maxBatchSize < 1 then .error "maxBatchSize must be greater than 0"
  else .ok
    { batchLimitOffset := maxBatchSize - 1
      rewindHandler := if rewindable then .TryRewindHandler strategyIsNull else .NoRewindHandler
      batchLimitOffset_nonneg := by omega }

/-- Where `processEvents` is, with the local variables of the current batch. -/
inductive Pc where
  /-- At the top of the loop, before or in `waitFor(nextSequence)`. -/
  | waitFor
  | onBatchStart (startOfBatchSequence endOfBatchSequence availableSequence : Int)
  /-- In the inner loop, before `onEvent` for `nextSequence`. -/
  | onEvent (startOfBatchSequence endOfBatchSequence : Int)
  /-- After the inner loop, before `retriesAttempted_` and `sequence_` are set. -/
  | endOfBatch (endOfBatchSequence : Int)
  /-- In `attemptRewindGetNextSequence`, before the strategy is asked. -/
  | attemptRewind (startOfBatchSequence : Int)
  /-- `catch (const TimeoutException&)`, before `onTimeout(sequence_.get())`. -/
  | onTimeout
  /-- `onTimeout` has thrown. -/
  | onTimeoutFailed (availableSequence : Int)
  /-- `catch (const AlertException&)`, before `running_` is read. -/
  | alerted
  /-- `catch (const std::exception&)`, before the exception handler is called. -/
  | handleEventException
  /-- After the exception handler, before `sequence_.set(nextSequence)`. -/
  | failed
  /-- `processEvents` has returned, or an exception has left it. -/
  | exited (thrown : Bool)
  deriving DecidableEq, Repr

/-- The fields of the processor and the local variables of `processEvents`; `event` is the
sequence whose event was fetched last. -/
structure State where
  running : Running := .RUNNING
  sequence : Int
  retriesAttempted : Int := 0
  nextSequence : Int
  event : Option Int := none
  pc : Pc := .waitFor
  deriving DecidableEq, Repr

/-- `processEvents` is entered. -/
def enter (sequence : Int) : State :=
  { sequence := sequence, nextSequence := sequence + 1 }

/-- One step, with the way a call ends. -/
inductive Input where
  | waitFor (answer : Except Exception Int)
  | onBatchStart (thrown : Option Exception)
  | onEvent (thrown : Option Exception)
  | endOfBatch
  | handleRewindException (answer : Except Exception RewindAction)
  | onTimeout (thrown : Option Exception)
  | handleEventException (returns : Bool)
  | checkRunning
  | skip
  /-- Another thread calls `halt()`. -/
  | halt

/-- The outer `catch` clauses. -/
def State.catchException (s : State) : Exception → State
  | .TimeoutException => { s with pc := .onTimeout }
  | .AlertException => { s with pc := .alerted }
  | .RewindableException => { s with pc := .handleEventException }
  | .exception => { s with pc := .handleEventException }
  | .other => { s with pc := .exited true }

/-- `catch (const RewindableException&)`: the strategy of a `TryRewindHandler` is asked next; the
other handlers throw a `std::runtime_error`. -/
def State.catchRewindable (p : BatchEventProcessor) (s : State) (startOfBatchSequence : Int) :
    State :=
  match p.rewindHandler with
  | .TryRewindHandler false =>
    { s with
      retriesAttempted := s.retriesAttempted + 1, pc := .attemptRewind startOfBatchSequence }
  | _ => s.catchException .exception

/-- An exception inside the inner `try`. -/
def State.throwException (p : BatchEventProcessor) (s : State) (startOfBatchSequence : Int) :
    Exception → State
  | .RewindableException => s.catchRewindable p startOfBatchSequence
  | e => s.catchException e

/-- The test of the inner loop. -/
def State.nextEvent (s : State) (startOfBatchSequence endOfBatchSequence : Int) : State :=
  if s.nextSequence ≤ endOfBatchSequence then
    { s with pc := .onEvent startOfBatchSequence endOfBatchSequence }
  else { s with pc := .endOfBatch endOfBatchSequence }

/-- `waitFor` has returned. -/
def State.available (p : BatchEventProcessor) (s : State) (availableSequence : Int) : State :=
  if availableSequence < s.nextSequence then s
  else
    let endOfBatchSequence := min (s.nextSequence + p.batchLimitOffset) availableSequence
    if s.nextSequence ≤ endOfBatchSequence then
      { s with pc := .onBatchStart s.nextSequence endOfBatchSequence availableSequence }
    else s.nextEvent s.nextSequence endOfBatchSequence

/-- A `halt()` of any thread: `running_` is all that this thread sees of it. -/
def State.halt (s : State) : State := { s with running := .HALTED }

/-- One step of `processEvents`. -/
def step (p : BatchEventProcessor) (s : State) : Input → Option State
  | .waitFor answer =>
    match s.pc, answer with
    | .waitFor, .ok availableSequence => some (s.available p availableSequence)
    | .waitFor, .error e => some (s.throwException p s.nextSequence e)
    | _, _ => none
  | .onBatchStart thrown =>
    match s.pc, thrown with
    | .onBatchStart start endOfBatch _, none => some (s.nextEvent start endOfBatch)
    | .onBatchStart start _ _, some e => some (s.throwException p start e)
    | _, _ => none
  | .onEvent thrown =>
    match s.pc, thrown with
    | .onEvent start endOfBatch, none =>
      some ({ s with event := some s.nextSequence, nextSequence := s.nextSequence + 1 }.nextEvent
        start endOfBatch)
    | .onEvent start _, some e =>
      some ({ s with event := some s.nextSequence }.throwException p start e)
    | _, _ => none
  | .endOfBatch =>
    match s.pc with
    | .endOfBatch endOfBatch =>
      some { s with retriesAttempted := 0, sequence := endOfBatch, pc := .waitFor }
    | _ => none
  | .handleRewindException answer =>
    match s.pc, answer with
    | .attemptRewind start, .ok .REWIND => some { s with nextSequence := start, pc := .waitFor }
    | .attemptRewind _, .ok .THROW =>
      some ({ s with retriesAttempted := 0 }.catchException .RewindableException)
    | .attemptRewind _, .error e => some (s.catchException e)
    | _, _ => none
  | .onTimeout thrown =>
    match s.pc, thrown with
    | .onTimeout, none => some { s with pc := .waitFor }
    | .onTimeout, some .other => some { s with pc := .exited true }
    | .onTimeout, some _ => some { s with pc := .onTimeoutFailed s.sequence }
    | _, _ => none
  | .handleEventException returns =>
    let after := if returns then s else s.halt
    match s.pc with
    | .handleEventException => some { after with pc := .failed }
    | .onTimeoutFailed _ => some { after with pc := .waitFor }
    | _ => none
  | .checkRunning =>
    match s.pc with
    | .alerted => some { s with pc := if s.running ≠ .RUNNING then .exited false else .waitFor }
    | _ => none
  | .skip =>
    match s.pc with
    | .failed =>
      some { s with sequence := s.nextSequence, nextSequence := s.nextSequence + 1, pc := .waitFor }
    | _ => none
  | .halt => some s.halt

/-! ### The kinds of steps -/

/-- What one step of `processEvents` can do, and where. -/
inductive Step (p : BatchEventProcessor) (s : State) : Input → State → Prop where
  | available {availableSequence : Int} (hpc : s.pc = .waitFor) :
    Step p s (.waitFor (.ok availableSequence)) (s.available p availableSequence)
  | waitForThrows {e : Exception} (hpc : s.pc = .waitFor) :
    Step p s (.waitFor (.error e)) (s.throwException p s.nextSequence e)
  | onBatchStart {start endOfBatch available : Int}
    (hpc : s.pc = .onBatchStart start endOfBatch available) :
    Step p s (.onBatchStart none) (s.nextEvent start endOfBatch)
  | onBatchStartThrows {start endOfBatch available : Int} {e : Exception}
    (hpc : s.pc = .onBatchStart start endOfBatch available) :
    Step p s (.onBatchStart (some e)) (s.throwException p start e)
  | onEvent {start endOfBatch : Int} (hpc : s.pc = .onEvent start endOfBatch) :
    Step p s (.onEvent none)
      ({ s with event := some s.nextSequence, nextSequence := s.nextSequence + 1 }.nextEvent
        start endOfBatch)
  | onEventThrows {start endOfBatch : Int} {e : Exception}
    (hpc : s.pc = .onEvent start endOfBatch) :
    Step p s (.onEvent (some e)) ({ s with event := some s.nextSequence }.throwException p start e)
  | endOfBatch {endOfBatch : Int} (hpc : s.pc = .endOfBatch endOfBatch) :
    Step p s .endOfBatch { s with retriesAttempted := 0, sequence := endOfBatch, pc := .waitFor }
  | rewinds {start : Int} (hpc : s.pc = .attemptRewind start) :
    Step p s (.handleRewindException (.ok .REWIND)) { s with nextSequence := start, pc := .waitFor }
  /-- The strategy decides to `THROW`. -/
  | rethrows {start : Int} (hpc : s.pc = .attemptRewind start) :
    Step p s (.handleRewindException (.ok .THROW))
      { s with retriesAttempted := 0, pc := .handleEventException }
  | strategyThrows {start : Int} {e : Exception} (hpc : s.pc = .attemptRewind start) :
    Step p s (.handleRewindException (.error e)) (s.catchException e)
  | onTimeout (hpc : s.pc = .onTimeout) : Step p s (.onTimeout none) { s with pc := .waitFor }
  | onTimeoutThrows {e : Exception} (hpc : s.pc = .onTimeout) (he : e ≠ .other) :
    Step p s (.onTimeout (some e)) { s with pc := .onTimeoutFailed s.sequence }
  | onTimeoutEscapes (hpc : s.pc = .onTimeout) :
    Step p s (.onTimeout (some .other)) { s with pc := .exited true }
  /-- The exception of `onTimeout` has been handled. -/
  | timeoutHandled {returns : Bool} {available : Int} (hpc : s.pc = .onTimeoutFailed available) :
    Step p s (.handleEventException returns)
      { s with running := if returns then s.running else .HALTED, pc := .waitFor }
  | handled {returns : Bool} (hpc : s.pc = .handleEventException) :
    Step p s (.handleEventException returns)
      { s with running := if returns then s.running else .HALTED, pc := .failed }
  | checkRunning (hpc : s.pc = .alerted) :
    Step p s .checkRunning
      { s with pc := if s.running ≠ .RUNNING then .exited false else .waitFor }
  | skip (hpc : s.pc = .failed) :
    Step p s .skip
      { s with sequence := s.nextSequence, nextSequence := s.nextSequence + 1, pc := .waitFor }
  | halt : Step p s .halt s.halt

lemma step_iff {p : BatchEventProcessor} {s s' : State} {i : Input} :
    p.step s i = some s' ↔ Step p s i s' := by
  constructor
  · intro h
    cases i with
    | halt =>
      obtain rfl := Option.some.inj h
      exact .halt
    | handleEventException returns =>
      simp only [step] at h
      split at h
      · obtain rfl := Option.some.inj h
        have hs : Step p s (.handleEventException returns) _ := .handled ‹_›
        cases returns <;> exact hs
      · obtain rfl := Option.some.inj h
        have hs : Step p s (.handleEventException returns) _ := .timeoutHandled ‹_›
        cases returns <;> exact hs
      · cases h
    | _ =>
      simp only [step] at h
      split at h
      all_goals first
        | cases h; done
        | (obtain rfl := Option.some.inj h
           constructor <;> assumption)
  · intro h
    cases h with
    | halt => rfl
    | rethrows hpc =>
      simp only [step, hpc]
      rfl
    | @timeoutHandled returns _ hpc | @handled returns hpc =>
      simp only [step, hpc]
      cases returns <;> rfl
    | _ hpc => simp only [step, hpc]

/-! ### What a step does to `sequence_` -/

section

variable {p : BatchEventProcessor} {s s' : State}

@[simp] lemma State.catchException_sequence (s : State) (e : Exception) :
    (s.catchException e).sequence = s.sequence := by
  cases e <;> rfl

@[simp] lemma State.catchRewindable_sequence (p : BatchEventProcessor) (s : State) (start : Int) :
    (s.catchRewindable p start).sequence = s.sequence := by
  unfold State.catchRewindable
  split
  · rfl
  · exact s.catchException_sequence _

@[simp] lemma State.throwException_sequence (p : BatchEventProcessor) (s : State) (start : Int)
    (e : Exception) : (s.throwException p start e).sequence = s.sequence := by
  cases e with
  | RewindableException => exact s.catchRewindable_sequence p start
  | _ => exact s.catchException_sequence _

@[simp] lemma State.nextEvent_sequence (s : State) (start endOfBatch : Int) :
    (s.nextEvent start endOfBatch).sequence = s.sequence := by
  unfold State.nextEvent
  split_ifs <;> rfl

@[simp] lemma State.available_sequence (p : BatchEventProcessor) (s : State) (available : Int) :
    (s.available p available).sequence = s.sequence := by
  unfold State.available
  dsimp only
  split_ifs
  · rfl
  · rfl
  · exact s.nextEvent_sequence _ _

@[simp] lemma State.halt_sequence (s : State) : s.halt.sequence = s.sequence := rfl

/-- `sequence_` is set at the end of a batch and after an exception was handled, and nowhere
else. -/
lemma step_sequence {i : Input} (h : p.step s i = some s') :
    s'.sequence = s.sequence ∨
      (∃ endOfBatch, i = .endOfBatch ∧ s.pc = .endOfBatch endOfBatch ∧
        s'.sequence = endOfBatch) ∨
      (i = .skip ∧ s.pc = .failed ∧ s'.sequence = s.nextSequence) := by
  cases step_iff.mp h with
  | endOfBatch hpc => exact Or.inr (Or.inl ⟨_, rfl, hpc, rfl⟩)
  | skip hpc => exact Or.inr (Or.inr ⟨rfl, hpc, rfl⟩)
  | _ => exact Or.inl (by simp)

end

/-! ### What the helpers leave alone -/

@[simp] lemma State.catchException_event (s : State) (e : Exception) :
    (s.catchException e).event = s.event := by
  cases e <;> rfl

@[simp] lemma State.catchException_nextSequence (s : State) (e : Exception) :
    (s.catchException e).nextSequence = s.nextSequence := by
  cases e <;> rfl

@[simp] lemma State.throwException_event (p : BatchEventProcessor) (s : State) (start : Int)
    (e : Exception) : (s.throwException p start e).event = s.event := by
  cases e with
  | RewindableException =>
    simp only [State.throwException, State.catchRewindable]
    split <;> rfl
  | _ => rfl

@[simp] lemma State.throwException_nextSequence (p : BatchEventProcessor) (s : State)
    (start : Int) (e : Exception) :
    (s.throwException p start e).nextSequence = s.nextSequence := by
  cases e with
  | RewindableException =>
    simp only [State.throwException, State.catchRewindable]
    split <;> rfl
  | _ => rfl

@[simp] lemma State.nextEvent_event (s : State) (start endOfBatch : Int) :
    (s.nextEvent start endOfBatch).event = s.event := by
  unfold State.nextEvent
  split_ifs <;> rfl

@[simp] lemma State.nextEvent_nextSequence (s : State) (start endOfBatch : Int) :
    (s.nextEvent start endOfBatch).nextSequence = s.nextSequence := by
  unfold State.nextEvent
  split_ifs <;> rfl

@[simp] lemma State.available_nextSequence (p : BatchEventProcessor) (s : State)
    (available : Int) : (s.available p available).nextSequence = s.nextSequence := by
  unfold State.available
  dsimp only
  split_ifs
  · rfl
  · rfl
  · exact s.nextEvent_nextSequence _ _

@[simp] lemma State.available_event (p : BatchEventProcessor) (s : State) (available : Int) :
    (s.available p available).event = s.event := by
  unfold State.available
  dsimp only
  split_ifs
  · rfl
  · rfl
  · exact s.nextEvent_event _ _

@[simp] lemma State.nextEvent_retriesAttempted (s : State) (start endOfBatch : Int) :
    (s.nextEvent start endOfBatch).retriesAttempted = s.retriesAttempted := by
  unfold State.nextEvent
  split_ifs <;> rfl

@[simp] lemma State.catchException_running (s : State) (e : Exception) :
    (s.catchException e).running = s.running := by
  cases e <;> rfl

@[simp] lemma State.throwException_running (p : BatchEventProcessor) (s : State) (start : Int)
    (e : Exception) : (s.throwException p start e).running = s.running := by
  cases e with
  | RewindableException =>
    simp only [State.throwException, State.catchRewindable]
    split <;> rfl
  | _ => rfl

@[simp] lemma State.nextEvent_running (s : State) (start endOfBatch : Int) :
    (s.nextEvent start endOfBatch).running = s.running := by
  unfold State.nextEvent
  split_ifs <;> rfl

@[simp] lemma State.available_running (p : BatchEventProcessor) (s : State) (available : Int) :
    (s.available p available).running = s.running := by
  simp only [State.available]
  split_ifs <;> simp

/-! ### The history of a run -/

/-- The calls of user code that the properties are about. -/
inductive Call where
  | onBatchStart (batchSize queueDepth : Int)
  | onEvent (sequence : Int) (endOfBatch : Bool) (startOfBatchSequence : Int)
      (thrown : Option Exception)
  | handleRewindException (attempts : Int) (answer : Except Exception RewindAction)
  | onTimeout (sequence : Int)
  | handleEventException (sequence : Int) (event : Option Int)

/-- The call that a step makes. -/
def call (s : State) : Input → Option Call
  | .onBatchStart _ =>
    match s.pc with
    | .onBatchStart _ endOfBatch available =>
      some (.onBatchStart (endOfBatch - s.nextSequence + 1) (available - s.nextSequence + 1))
    | _ => none
  | .onEvent thrown =>
    match s.pc with
    | .onEvent start endOfBatch =>
      some (.onEvent s.nextSequence (decide (s.nextSequence = endOfBatch)) start thrown)
    | _ => none
  | .handleRewindException answer =>
    match s.pc with
    | .attemptRewind _ => some (.handleRewindException s.retriesAttempted answer)
    | _ => none
  | .onTimeout _ =>
    match s.pc with
    | .onTimeout => some (.onTimeout s.sequence)
    | _ => none
  | .handleEventException _ =>
    match s.pc with
    | .handleEventException => some (.handleEventException s.nextSequence s.event)
    | .onTimeoutFailed available => some (.handleEventException available none)
    | _ => none
  | _ => none

/-- A processor with the calls it has made, the latest first. -/
structure Run where
  state : State
  calls : List Call := []

/-- One step, and its call. -/
def Run.step (p : BatchEventProcessor) (r : Run) (i : Input) : Option Run :=
  (p.step r.state i).map fun s => ⟨s, (call r.state i).toList ++ r.calls⟩

end BatchEventProcessor

end Disruptor
