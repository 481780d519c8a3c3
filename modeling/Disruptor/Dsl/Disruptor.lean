import Disruptor.Dsl.ConsumerRepository
import Disruptor.EventProcessor.RunCall
import Disruptor.Sequencer.Claiming

/-!
# `dsl::Disruptor`

How the graph of the consumers is built. The calls of this file run before `start()`, on one
thread. Handlers have type `H`, and the user's own event processors, which come from a factory or
are passed in, have type `X`.
-/

namespace Disruptor.Dsl

set_option linter.dupNamespace false

variable {H X : Type}

/-- What a chaining call is given: handlers, or factories of event processors. -/
inductive Consumer (H X : Type) where
  | handler (handlerIdentity : H)
  /-- `createEventProcessor` of the factory returns the processor `x`. -/
  | factory (x : X)
  deriving DecidableEq, Repr

/-- `EventHandlerGroup`. -/
structure EventHandlerGroup (X : Type) where
  sequences : List (ProcessorId X)
  deriving DecidableEq, Repr

/-- A `Disruptor`. `processors` are those that it creates, of which the first `created` exist; the
others are as their constructor leaves them. `customs` are the sequences of the user's own
processors, and `dependentSequences` is what the barrier of each consumer was made of. -/
structure Disruptor (H X : Type) where
  sequencer : Sequencer (ProcessorId X)
  consumerRepository : ConsumerRepository H X := {}
  started : Bool := false
  processors : Nat → BatchEventProcessor.Fields := fun _ => { sequence := INITIAL_VALUE }
  created : Nat := 0
  customs : X → Int := fun _ => INITIAL_VALUE
  dependentSequences : ProcessorId X → List (ProcessorId X) := fun _ => []
  /-- History: the highest sequence that was claimed when the consumer was attached to the ring. -/
  attachedAt : ProcessorId X → Int := fun _ => INITIAL_VALUE

namespace Disruptor

/-- The values of the sequences of all consumers. -/
def values (d : Disruptor H X) : ProcessorId X → Int
  | .created k => (d.processors k).sequence
  | .custom x => d.customs x

/-- Set the sequences of all consumers. -/
def setValues (d : Disruptor H X) (values : ProcessorId X → Int) : Disruptor H X :=
  { d with
    processors := fun k => { d.processors k with sequence := values (.created k) }
    customs := fun x => values (.custom x) }

@[simp] lemma values_setValues (d : Disruptor H X) (values : ProcessorId X → Int) :
    (d.setValues values).values = values := by
  funext i
  cases i <;> rfl

variable [DecidableEq X]

/-- `ringBuffer_->addGatingSequences(sequences)`. -/
def addGatingSequences (d : Disruptor H X) (sequences : List (ProcessorId X)) : Disruptor H X :=
  let r := d.sequencer.addGatingSequences d.values (sequences.map some)
  { d with
    sequencer := r.2
    attachedAt := fun i => if i ∈ sequences then d.sequencer.claimed else d.attachedAt i
  }.setValues r.1

/-- `ringBuffer_->removeGatingSequence(sequence)`. -/
def removeGatingSequence (d : Disruptor H X) (sequence : ProcessorId X) : Disruptor H X :=
  { d with sequencer := (d.sequencer.removeGatingSequence sequence).2 }

/-- `updateGatingSequencesForNextInChain(barrierSequences, processorSequences)`. -/
def updateGatingSequencesForNextInChain (d : Disruptor H X)
    (barrierSequences : List (ProcessorId X)) : Disruptor H X :=
  barrierSequences.foldl removeGatingSequence d

variable [DecidableEq H]

/-- `createOne(barrierSequences, outSequences, handler)`, and the one for a factory. -/
def createOne (d : Disruptor H X) (barrierSequences : List (ProcessorId X)) :
    Consumer H X → Disruptor H X × ProcessorId X
  | .handler handlerIdentity =>
    let processor := .created d.created
    ({ d with
        consumerRepository := d.consumerRepository.add processor handlerIdentity
        created := d.created + 1
        dependentSequences := Function.update d.dependentSequences processor barrierSequences },
      processor)
  | .factory x =>
    let processor := .custom x
    ({ d with
        consumerRepository := d.consumerRepository.addProcessor processor
        dependentSequences := Function.update d.dependentSequences processor
          (d.dependentSequences processor ++ barrierSequences) },
      processor)

/-- `createEventProcessorsImpl(barrierSequences, outSequences, handlers...)`. -/
def createEventProcessorsImpl (d : Disruptor H X) (barrierSequences : List (ProcessorId X)) :
    List (Consumer H X) → Disruptor H X × List (ProcessorId X)
  | [] => (d, [])
  | handler :: rest =>
    let r := d.createOne barrierSequences handler
    let r' := r.1.createEventProcessorsImpl barrierSequences rest
    (r'.1, r.2 :: r'.2)

/-- `createEventProcessors(barrierSequences, handlers...)`. -/
def createEventProcessors (d : Disruptor H X) (barrierSequences : List (ProcessorId X))
    (handlers : List (Consumer H X)) : Except String (Disruptor H X × EventHandlerGroup X) :=
  if d.started then .error "All event handlers must be added before calling start."
  else
    let r := { d with
        consumerRepository :=
          d.consumerRepository.unMarkEventProcessorsAsEndOfChain barrierSequences
      }.createEventProcessorsImpl barrierSequences handlers
    .ok ((r.1.addGatingSequences r.2).updateGatingSequencesForNextInChain barrierSequences, ⟨r.2⟩)

/-- `handleEventsWith(handlers...)`. -/
def handleEventsWith (d : Disruptor H X) (handlers : List (Consumer H X)) :
    Except String (Disruptor H X × EventHandlerGroup X) :=
  d.createEventProcessors [] handlers

/-- `consumerRepository_.add(*processors[i])` for all of them. -/
def addProcessors (d : Disruptor H X) (processors : List X) : Disruptor H X :=
  { d with
    consumerRepository :=
      processors.foldl (fun repository x => repository.addProcessor (.custom x))
        d.consumerRepository }

/-- `handleEventsWith(processors, count)`. -/
def handleEventsWithProcessors (d : Disruptor H X) (processors : List X) :
    Disruptor H X × EventHandlerGroup X :=
  let sequences := processors.map .custom
  ((d.addProcessors processors).addGatingSequences sequences, ⟨sequences⟩)

omit [DecidableEq H] [DecidableEq X] in
/-- `after(handlers, count)`. -/
def after (d : Disruptor H X) (handlers : List H) : Except String (EventHandlerGroup X) :=
  (handlers.mapM d.consumerRepository.getSequenceFor).map EventHandlerGroup.mk

end Disruptor

namespace EventHandlerGroup

/-- `and_(otherHandlerGroup)`. -/
def and_ (group otherHandlerGroup : EventHandlerGroup X) : EventHandlerGroup X :=
  ⟨group.sequences ++ otherHandlerGroup.sequences⟩

variable [DecidableEq H] [DecidableEq X]

/-- `and_(processors, count)`. -/
def andProcessors (group : EventHandlerGroup X) (d : Disruptor H X) (processors : List X) :
    Disruptor H X × EventHandlerGroup X :=
  (d.addProcessors processors, ⟨processors.map .custom ++ group.sequences⟩)

/-- `then(handlers...)` and `handleEventsWith(handlers...)`. -/
def handleEventsWith (group : EventHandlerGroup X) (d : Disruptor H X)
    (handlers : List (Consumer H X)) : Except String (Disruptor H X × EventHandlerGroup X) :=
  d.createEventProcessors group.sequences handlers

end EventHandlerGroup

/-! ### The calls of the program -/

/-- A call that builds the graph; groups are referred to by the order in which the calls returned
them. -/
inductive BuildCall (H X : Type) where
  | handleEventsWith (handlers : List (Consumer H X))
  | handleEventsWithProcessors (processors : List X)
  | after (handlers : List H)
  | afterProcessors (processors : List X)
  | and_ (group otherHandlerGroup : Nat)
  | andProcessors (group : Nat) (processors : List X)
  /-- `then`, or `handleEventsWith` of a group. -/
  | chain (group : Nat) (handlers : List (Consumer H X))

variable [DecidableEq H] [DecidableEq X]

/-- The call on the groups so far; `none` when it refers to a group that does not exist. -/
def BuildCall.perform (d : Disruptor H X) (groups : List (EventHandlerGroup X)) :
    BuildCall H X → Option (Except String (Disruptor H X × EventHandlerGroup X))
  | .handleEventsWith handlers => some (d.handleEventsWith handlers)
  | .handleEventsWithProcessors processors => some (.ok (d.handleEventsWithProcessors processors))
  | .after handlers => some ((d.after handlers).map fun group => (d, group))
  | .afterProcessors processors => some (.ok (d, ⟨processors.map .custom⟩))
  | .and_ group otherHandlerGroup =>
    match groups[group]?, groups[otherHandlerGroup]? with
    | some g, some other => some (.ok (d, g.and_ other))
    | _, _ => none
  | .andProcessors group processors =>
    groups[group]?.map fun g => .ok (g.andProcessors d processors)
  | .chain group handlers => groups[group]?.map fun g => g.handleEventsWith d handlers

/-- The handlers of a call that creates event processors. -/
def BuildCall.handlers : BuildCall H X → Option (List (Consumer H X))
  | .handleEventsWith handlers | .chain _ handlers => some handlers
  | _ => none

/-- The members of the group that the handlers of a call are to follow. -/
def BuildCall.barrierSequences (groups : List (EventHandlerGroup X)) :
    BuildCall H X → List (ProcessorId X)
  | .chain group _ => (groups[group]?.map EventHandlerGroup.sequences).getD []
  | _ => []

/-- What the consumers are declared to follow after a call has returned `group`. -/
def BuildCall.declare (declared : ProcessorId X → List (ProcessorId X))
    (groups : List (EventHandlerGroup X)) (group : EventHandlerGroup X) (call : BuildCall H X)
    (i : ProcessorId X) : List (ProcessorId X) :=
  if call.handlers.isSome ∧ i ∈ group.sequences then call.barrierSequences groups else declared i

end Disruptor.Dsl
