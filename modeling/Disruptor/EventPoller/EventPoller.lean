import Disruptor.Barrier.WaitCall
import Disruptor.Core.Attempts

/-!
# `EventPoller`, step by step

One call of `poll` in atomic steps: the reads of the poller's sequence, of the gating sequence (a
`FixedSequenceGroup` reads its members one after another) and of the flags, the calls of the
handler, and the store of the poller's sequence. What the handler does at an event is left to the
environment.
-/

namespace Disruptor

open Disruptor.Core

variable {ι : Type*}

/-- The `Sequence` that `gatingSequence_` points to. -/
inductive GatingSequence (ι : Type*) where
  | cursor
  | sequence (i : ι)
  | group (sequences : List ι) (nonempty : sequences ≠ [])

/-- The sequences that it follows besides the cursor. -/
def GatingSequence.upstream : GatingSequence ι → List ι
  | .cursor => []
  | .sequence i => [i]
  | .group sequences _ => sequences

/-- The fields of an `EventPoller` that `poll` uses, besides the sequencer. -/
structure EventPoller (ι : Type*) where
  sequence : ι
  gatingSequence : GatingSequence ι

namespace EventPoller

/-- `EventPoller::newInstance`. -/
def newInstance (sequence : ι) (gatingSequences : List ι) : EventPoller ι :=
  match gatingSequences with
  | [] => ⟨sequence, .cursor⟩
  | [i] => ⟨sequence, .sequence i⟩
  | i :: j :: rest => ⟨sequence, .group (i :: j :: rest) (List.cons_ne_nil _ _)⟩

@[simp] lemma newInstance_sequence (sequence : ι) (gatingSequences : List ι) :
    (newInstance sequence gatingSequences).sequence = sequence := by
  unfold newInstance
  split <;> rfl

@[simp] lemma newInstance_upstream (sequence : ι) (gatingSequences : List ι) :
    (newInstance sequence gatingSequences).gatingSequence.upstream = gatingSequences := by
  unfold newInstance
  split <;> rfl

/-- `EventPoller::PollState`. -/
inductive PollState where
  | PROCESSING
  | GATING
  | IDLE
  deriving DecidableEq, Repr

/-- How `onEvent` ends: with the value for `processNextEvent`, or by an exception. -/
inductive HandlerResult where
  | returned (processNextEvent : Bool)
  | threw
  deriving DecidableEq, Repr

/-- One call of `onEvent`. -/
structure Delivery where
  sequence : Int
  endOfBatch : Bool
  result : HandlerResult
  deriving DecidableEq, Repr

/-- `onEvent` returned. -/
def Delivery.completed (d : Delivery) : Bool :=
  match d.result with
  | .returned _ => true
  | .threw => false

/-- How `poll` ends: with a state, or by the exception of the handler. -/
inductive PollOutcome where
  | returned (state : PollState)
  | threw
  deriving DecidableEq, Repr

/-- Where a call of `poll` is. -/
inductive PollCall (ι : Type*) where
  | idle
  | readSequence
  | readGating (currentSequence : Int)
  /-- In `FixedSequenceGroup::get`, with the members still to be read. -/
  | scan (currentSequence : Int) (rest : List ι) (minimumSequence : Int)
  /-- In `getHighestPublishedSequence`, before the flag of `sequence` is read. -/
  | readFlag (currentSequence availableSequence sequence : Int)
  /-- Before `onEvent` is called with `nextSequence`. -/
  | onEvent (currentSequence nextSequence availableSequence processedSequence : Int)
  /-- Before `sequence_->set(processedSequence)`. -/
  | setSequence (currentSequence availableSequence processedSequence : Int) (outcome : PollOutcome)
  /-- Nothing is available; before `getCursor()`. -/
  | getCursor (currentSequence availableSequence : Int)

/-- A call of `poll` that has ended, with the poller's sequence at its end. -/
structure Poll where
  currentSequence : Int
  availableSequence : Int
  deliveries : List Delivery
  cursor : Option Int
  outcome : PollOutcome
  sequence : Int
  deriving DecidableEq, Repr

/-- The thread of a poller: the call that it is in, with its deliveries so far, and the calls that
have ended. -/
structure Poller (ι : Type*) where
  call : PollCall ι := .idle
  deliveries : List Delivery := []
  polls : List Poll := []

inductive PollAction where
  | poll
  | proceed
  | onEvent (result : HandlerResult)
  deriving DecidableEq, Repr

namespace PollCall

/-- `availableSequence` is known: `if (nextSequence <= availableSequence)`. -/
def available (currentSequence availableSequence : Int) : PollCall ι :=
  if currentSequence + 1 ≤ availableSequence then
    .onEvent currentSequence (currentSequence + 1) availableSequence currentSequence
  else .getCursor currentSequence availableSequence

/-- `gatingSequence_->get()` has returned, and `getHighestPublishedSequence` is entered. -/
def found (view : WaitView ι) (currentSequence gatingSequence : Int) : PollCall ι :=
  match view.available with
  | none => available currentSequence gatingSequence
  | some _ => .readFlag currentSequence gatingSequence (currentSequence + 1)

end PollCall

namespace Poller

/-- All deliveries of the poller, in order. -/
def log (l : Poller ι) : List Delivery := l.polls.flatMap Poll.deliveries ++ l.deliveries

/-- Go on with the call. -/
def goto (l : Poller ι) (call : PollCall ι) : Poller ι := { l with call := call }

/-- After `onEvent`. -/
def delivered (l : Poller ι)
    (currentSequence nextSequence availableSequence processedSequence : Int)
    (result : HandlerResult) : Poller ι :=
  let d : Delivery :=
    { sequence := nextSequence
      endOfBatch := decide (nextSequence = availableSequence)
      result := result }
  { l with
    deliveries := l.deliveries ++ [d]
    call :=
      match result with
      | .threw => .setSequence currentSequence availableSequence processedSequence .threw
      | .returned processNextEvent =>
        if nextSequence + 1 ≤ availableSequence ∧ processNextEvent = true then
          .onEvent currentSequence (nextSequence + 1) availableSequence nextSequence
        else .setSequence currentSequence availableSequence nextSequence (.returned .PROCESSING) }

/-- The call ends. -/
def finish (l : Poller ι) (currentSequence availableSequence : Int) (cursor : Option Int)
    (outcome : PollOutcome) (sequence : Int) : Poller ι :=
  { call := .idle
    deliveries := []
    polls := l.polls ++
      [{ currentSequence, availableSequence, deliveries := l.deliveries, cursor, outcome,
         sequence }] }

end Poller

/-- One atomic step of the thread of a poller, with what it stores in the poller's sequence. -/
def step (p : EventPoller ι) (view : WaitView ι) (l : Poller ι) (a : PollAction) :
    Option (Poller ι × Option Int) :=
  match l.call, a with
  | .idle, .poll => some (l.goto .readSequence, none)
  | .readSequence, .proceed => some (l.goto (.readGating (view.values p.sequence)), none)
  | .readGating currentSequence, .proceed =>
    match p.gatingSequence with
    | .cursor => some (l.goto (.found view currentSequence view.cursor), none)
    | .sequence i => some (l.goto (.found view currentSequence (view.values i)), none)
    | .group sequences _ => some (l.goto (.scan currentSequence sequences INT64_MAX), none)
  | .scan currentSequence [] minimumSequence, .proceed =>
    some (l.goto (.found view currentSequence minimumSequence), none)
  | .scan currentSequence (i :: rest) minimumSequence, .proceed =>
    some (l.goto (.scan currentSequence rest (min minimumSequence (view.values i))), none)
  | .readFlag currentSequence availableSequence sequence, .proceed =>
    match view.available with
    | none => none
    | some isAvailable =>
      if sequence ≤ availableSequence then
        if isAvailable sequence then
          some (l.goto (.readFlag currentSequence availableSequence (sequence + 1)), none)
        else some (l.goto (.available currentSequence (sequence - 1)), none)
      else some (l.goto (.available currentSequence availableSequence), none)
  | .onEvent currentSequence nextSequence availableSequence processedSequence, .onEvent result =>
    some (l.delivered currentSequence nextSequence availableSequence processedSequence result,
      none)
  | .setSequence currentSequence availableSequence processedSequence outcome, .proceed =>
    some (l.finish currentSequence availableSequence none outcome processedSequence,
      some processedSequence)
  | .getCursor currentSequence availableSequence, .proceed =>
    let state := if view.cursor ≥ currentSequence + 1 then PollState.GATING else PollState.IDLE
    some (l.finish currentSequence availableSequence (some view.cursor) (.returned state)
      (view.values p.sequence), none)
  | _, _ => none

end EventPoller

end Disruptor
