import Disruptor.Core.ThreadPool
import Disruptor.EventPoller.Polls
import Disruptor.Sequencer.Basic
import Disruptor.Sequencer.MultiProducer.Availability
import Disruptor.Sequencer.SingleProducer.ClaimCall
import Disruptor.Sequencer.SingleProducer.Visibility

/-!
# A poller on a ring

Producers claim and publish, other consumers follow the cursor, some of them upstream of a poller,
and the poller polls, its sequence gating the ring. Every load and store is a step, and the threads
interleave in any way.
-/

namespace Disruptor.EventPoller

open Disruptor.Core

variable {P ι : Type}

/-- The sequencer of a ring and the sequences, with the history of what is published. -/
inductive Ring (ι : Type) where
  | single (r : SingleProducerSequencer.Publication ι)
  | multi (r : Availability.Shared ι)

namespace Ring

/-- What can be read, and what is published. -/
def moment : Ring ι → Moment ι
  | .single r =>
    { cursor := r.sequencer.getCursor
      values := r.values
      available := none
      published := fun s => decide (s ≤ r.published) }
  | .multi r =>
    { cursor := r.sequencer.getCursor
      values := r.values
      available := some r.sequencer.isAvailable
      published := r.published }

/-- After a step that may store a value in `own`. -/
def store [DecidableEq ι] (own : ι) (w : Option Int) : Ring ι → Ring ι
  | .single r => .single { r with values := (Moment.store (Ring.single r).moment own w).values }
  | .multi r => .multi { r with values := (Moment.store (Ring.multi r).moment own w).values }

/-- A new ring to which gating sequences have been added; all sequences are new. -/
def initial [DecidableEq ι] (producerType : ProducerType) (b : BufferSize)
    (sequences : List (Option ι)) : Ring ι :=
  match producerType with
  | .SINGLE =>
    let s : SingleProducerSequencer ι := { bufferSize := b }
    let r := s.addGatingSequences (fun _ => INITIAL_VALUE) sequences
    .single { sequencer := r.2, values := r.1 }
  | .MULTI =>
    let m : MultiProducerSequencer ι := { bufferSize := b }
    let r := m.addGatingSequences (fun _ => INITIAL_VALUE) sequences
    .multi { sequencer := r.2, values := r.1 }

end Ring

/-! ### The producers -/

inductive SingleAction where
  | call (op : ClaimOperation)
  | proceed
  /-- `publish(sequence)`, or `publish(lo, sequence)`. -/
  | publish (sequence : Int)

/-- The call that the single producer is in after a step. -/
def callAfter : ClaimResult (SingleProducerSequencer.ClaimCall ι) →
    Option (SingleProducerSequencer.ClaimCall ι)
  | .running call => some call
  | _ => none

/-- One step of the single producer. It may have claims outstanding when it claims, and publishes
claimed sequences in order. -/
def singleStep (r : SingleProducerSequencer.Publication ι)
    (l : Option (SingleProducerSequencer.ClaimCall ι)) (a : SingleAction) :
    Option (SingleProducerSequencer.Publication ι ×
      Option (SingleProducerSequencer.ClaimCall ι)) :=
  match l, a with
  | none, .call op =>
    let result := r.sequencer.enter op
    some ({ r with sequencer := result.2 }, callAfter result.1)
  | some call, .proceed =>
    let result := r.sequencer.callStep r.values call
    some ({ r with sequencer := result.2 }, callAfter result.1)
  | none, .publish sequence =>
    (r.publishWith sequence (r.sequencer.publish sequence)).map fun r' => (r', none)
  | _, _ => none

/-- `cursor_.setVolatile(nextValue)` comes next, and a claimed sequence is not published. -/
def fencesUnpublished (r : SingleProducerSequencer.Publication ι)
    (l : Option (SingleProducerSequencer.ClaimCall ι)) : Bool :=
  match l with
  | some call => call.fences && decide (r.published ≠ r.sequencer.nextValue)
  | none => false

/-! ### The other consumers and the poller -/

/-- Another consumer advances: behind the cursor of a single-producer sequencer, and over published
sequences of a multi-producer sequencer. -/
def consumerStep [DecidableEq ι] (i : ι) (r : Ring ι) (v : Int) : Option (Ring ι) :=
  match r with
  | .single r =>
    if r.values i ≤ v ∧ v ≤ r.sequencer.getCursor then
      some (.single { r with values := Function.update r.values i v })
    else none
  | .multi r => (Availability.gatingStep i r v).map fun r' => .multi r'.1

/-- The thread of the poller, with the moment at which `poll` was last called. -/
structure PollerThread (ι : Type) where
  poller : Poller ι := {}
  calledAt : Moment ι

def pollerStep [DecidableEq ι] (p : EventPoller ι) (r : Ring ι) (l : PollerThread ι)
    (a : PollAction) : Option (Ring ι × PollerThread ι) :=
  (p.step r.moment.toWaitView l.poller a).map fun result =>
    (r.store p.sequence result.2, ⟨result.1, a.calledAt l.calledAt r.moment⟩)

/-! ### The pool -/

/-- The producer of a single-producer ring, the producers of a multi-producer ring, the other
consumers, and the poller. -/
inductive Thread (P ι : Type) where
  | single
  | multi (p : P)
  | consumer (i : ι)
  | poller
  deriving DecidableEq

abbrev Local (P ι : Type) : Thread P ι → Type
  | .single => Option (SingleProducerSequencer.ClaimCall ι)
  | .multi _ => Option (MultiProducerSequencer.ClaimCall ι)
  | .consumer _ => Unit
  | .poller => PollerThread ι

abbrev Action (P ι : Type) : Thread P ι → Type
  | .single => SingleAction
  | .multi _ => Availability.ProducerAction
  | .consumer _ => Int
  | .poller => PollAction

/-- One step of a thread. -/
def threadStep [DecidableEq ι] (p : EventPoller ι) : ∀ t : Thread P ι, Ring ι → Local P ι t →
    Action P ι t → Option (Ring ι × Local P ι t)
  | .single, .single r, l, a => (singleStep r l a).map fun result => (.single result.1, result.2)
  | .multi _, .multi r, l, a =>
    (Availability.producerStep r l a).map fun result => (.multi result.1, result.2)
  | .consumer i, r, _, v =>
    if i = p.sequence then none else (consumerStep i r v).map fun r' => (r', ())
  | .poller, r, l, a => pollerStep p r l a
  | _, _, _, _ => none

def pool (P : Type) [DecidableEq ι] (p : EventPoller ι) :
    ThreadPool (Thread P ι) (Ring ι) (Local P ι) (Action P ι) where
  step := threadStep p

/-- The single producer stores the claimed position in the cursor while a claimed sequence is not
published. -/
def showsUnpublished : ∀ t : Thread P ι, Ring ι → Local P ι t → Action P ι t → Bool
  | .single, .single r, l, .proceed => fencesUnpublished r l
  | _, _, _, _ => false

def initialLocal (r : Ring ι) : ∀ t : Thread P ι, Local P ι t
  | .single => none
  | .multi _ => none
  | .consumer _ => ()
  | .poller => { calledAt := r.moment }

def initial [DecidableEq ι] (producerType : ProducerType) (b : BufferSize)
    (sequences : List (Option ι)) : ThreadPool.Config (Ring ι) (Local P ι) :=
  ⟨Ring.initial producerType b sequences, initialLocal (Ring.initial producerType b sequences)⟩

end Disruptor.EventPoller
