import Mathlib.Data.List.Basic
import Mathlib.Logic.Function.Basic
import Mathlib.Tactic.Common

/-!
# `dsl::ConsumerRepository`

The consumers of a `Disruptor`, and whether each is at the end of its chain. A consumer is known
by its processor, and its `Sequence` too; the pointers to an `EventProcessorInfo` are indices in
`consumerInfos_`.
-/

namespace Disruptor.Dsl

/-- An event processor: the `k`-th one that the DSL has created for a handler, or one of the
user's own, by whatever class. -/
inductive ProcessorId (X : Type) where
  | created (k : Nat)
  | custom (x : X)
  deriving DecidableEq, Repr

instance {X : Type} [DecidableEq X] : LawfulBEq (ProcessorId X) := instLawfulBEq

/-- `EventProcessorInfo`. -/
structure EventProcessorInfo (X : Type) where
  eventprocessor : ProcessorId X
  endOfChain : Bool := true
  deriving DecidableEq, Repr

/-- `markAsUsedInBarrier()`. -/
def EventProcessorInfo.markAsUsedInBarrier {X : Type} (info : EventProcessorInfo X) :
    EventProcessorInfo X :=
  { info with endOfChain := false }

/-- The maps and the list of a `ConsumerRepository`, over handlers of type `H`. -/
structure ConsumerRepository (H X : Type) where
  eventProcessorInfoByEventHandler : H → Option Nat := fun _ => none
  eventProcessorInfoBySequence : ProcessorId X → Option Nat := fun _ => none
  consumerInfos : List (EventProcessorInfo X) := []

namespace ConsumerRepository

variable {H X : Type}

/-- `getSequenceFor(handlerIdentity)`. -/
def getSequenceFor (repository : ConsumerRepository H X) (handlerIdentity : H) :
    Except String (ProcessorId X) :=
  match (repository.eventProcessorInfoByEventHandler handlerIdentity).bind
      (repository.consumerInfos[·]?) with
  | none => .error "The event handler is not processing events."
  | some info => .ok info.eventprocessor

/-- The consumer is registered. -/
def IsRegistered (repository : ConsumerRepository H X) (i : ProcessorId X) : Prop :=
  ∃ info ∈ repository.consumerInfos, info.eventprocessor = i

variable [DecidableEq H] [DecidableEq X]

/-- `add(processor)`. -/
def addProcessor (repository : ConsumerRepository H X) (processor : ProcessorId X) :
    ConsumerRepository H X :=
  { repository with
    eventProcessorInfoBySequence :=
      Function.update repository.eventProcessorInfoBySequence processor
        (some repository.consumerInfos.length)
    consumerInfos := repository.consumerInfos ++ [{ eventprocessor := processor }] }

/-- `add(eventprocessor, handlerIdentity, barrier)`. -/
def add (repository : ConsumerRepository H X) (eventprocessor : ProcessorId X)
    (handlerIdentity : H) : ConsumerRepository H X :=
  { repository.addProcessor eventprocessor with
    eventProcessorInfoByEventHandler :=
      Function.update repository.eventProcessorInfoByEventHandler handlerIdentity
        (some repository.consumerInfos.length) }

omit [DecidableEq H] [DecidableEq X]

/-- One turn of the loop of `unMarkEventProcessorsAsEndOfChain`. -/
def unMark (repository : ConsumerRepository H X) (i : ProcessorId X) : ConsumerRepository H X :=
  match repository.eventProcessorInfoBySequence i with
  | none => repository
  | some n =>
    { repository with
      consumerInfos := repository.consumerInfos.modify n EventProcessorInfo.markAsUsedInBarrier }

/-- `unMarkEventProcessorsAsEndOfChain(barrierEventProcessors, count)`. -/
def unMarkEventProcessorsAsEndOfChain (repository : ConsumerRepository H X)
    (barrierEventProcessors : List (ProcessorId X)) : ConsumerRepository H X :=
  barrierEventProcessors.foldl unMark repository

end ConsumerRepository

end Disruptor.Dsl
