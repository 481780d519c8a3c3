import Disruptor.Dsl.FailedCall

/-!
# Exception handlers

The disruptor owns a default wrapper, and each processor that the DSL creates keeps a pointer to the
handler that was in force: the wrapper, or a handler of the user. The handlers of the user, of type
`E`, outlive the disruptor; the wrapper does not outlive `handleExceptionsWith`.
-/

namespace Disruptor.Dsl

set_option linter.dupNamespace false

open Disruptor.Core

variable {H X E : Type}

/-- What handles an exception in the end. -/
inductive Handler (E : Type) where
  /-- `ExceptionHandlers::defaultHandler()`. -/
  | defaultHandler
  | user (exceptionHandler : E)
  deriving DecidableEq, Repr

/-- The handler that is meant where a null pointer stands for the default one. -/
def Handler.ofOption : Option E → Handler E
  | none => .defaultHandler
  | some exceptionHandler => .user exceptionHandler

/-- A pointer to an `ExceptionHandler`. -/
inductive ExceptionHandlerPtr (E : Type) where
  /-- To the wrapper that the disruptor makes in its constructor. -/
  | wrapper
  | external (exceptionHandler : E)
  deriving DecidableEq, Repr

/-- The handler that the user has given, or else the wrapper. -/
def ExceptionHandlerPtr.ofOption : Option E → ExceptionHandlerPtr E
  | none => .wrapper
  | some exceptionHandler => .external exceptionHandler

/-- `ExceptionHandlerWrapper`. -/
structure ExceptionHandlerWrapper (E : Type) where
  delegate : Option E := none
  deriving DecidableEq, Repr

/-- `switchTo(exceptionHandler)`. -/
def ExceptionHandlerWrapper.switchTo (_wrapper : ExceptionHandlerWrapper E)
    (exceptionHandler : E) : ExceptionHandlerWrapper E :=
  { delegate := some exceptionHandler }

/-- `getExceptionHandler()` of the wrapper. -/
def ExceptionHandlerWrapper.getExceptionHandler (wrapper : ExceptionHandlerWrapper E) : Handler E :=
  .ofOption wrapper.delegate

/-- A disruptor with its exception handlers. -/
structure Setup (H X E : Type) where
  disruptor : Disruptor H X
  /-- What `exceptionHandler_` owns. -/
  exceptionHandler : Option (ExceptionHandlerWrapper E) := some {}
  exceptionHandlerPtr : Option E := none
  /-- `exceptionHandler_` of the processors that the DSL has created. -/
  exceptionHandlers : Nat → Option (ExceptionHandlerPtr E) := fun _ => none

namespace Setup

/-- `getExceptionHandler()` of the disruptor. -/
def getExceptionHandler (s : Setup H X E) : ExceptionHandlerPtr E :=
  .ofOption s.exceptionHandlerPtr

/-- `handleExceptionsWith(exceptionHandler)`. -/
def handleExceptionsWith (s : Setup H X E) (exceptionHandler : E) : Setup H X E :=
  { s with exceptionHandler := none, exceptionHandlerPtr := some exceptionHandler }

/-- `setDefaultExceptionHandler(exceptionHandler)`. -/
def setDefaultExceptionHandler (s : Setup H X E) (exceptionHandler : E) :
    Setup H X E × Except String Unit :=
  if s.disruptor.started then
    (s, .error "All event handlers must be added before calling start.")
  else
    match s.exceptionHandler with
    | none =>
      (s, .error "setDefaultExceptionHandler can not be used after handleExceptionsWith")
    | some wrapper =>
      ({ s with exceptionHandler := some (wrapper.switchTo exceptionHandler) }, .ok ())

/-- `handleExceptionsFor(eventHandler).with(exceptionHandler)`. -/
def handleExceptionsFor (s : Setup H X E) (eventHandler : H) (exceptionHandler : E) :
    Setup H X E × Except String Unit :=
  match s.disruptor.consumerRepository.getSequenceFor eventHandler with
  | .error e => (s, .error e)
  | .ok (.custom _) =>
    (s, .error
      "EventProcessor is not a BatchEventProcessor and does not support exception handlers")
  | .ok (.created k) =>
    let batch := s.disruptor.processors k
    ({ s with
        disruptor.processors :=
          Function.update s.disruptor.processors k { batch with alerted := true }
        exceptionHandlers :=
          Function.update s.exceptionHandlers k (some (.external exceptionHandler)) }, .ok ())

/-- The handler that a processor consults when it reports an exception; `none` where its pointer
leads to an object that has been destroyed. -/
def consulted (s : Setup H X E) (k : Nat) : Option (Handler E) :=
  match s.exceptionHandlers k with
  | none => some .defaultHandler
  | some (.external exceptionHandler) => some (.user exceptionHandler)
  | some .wrapper => s.exceptionHandler.map ExceptionHandlerWrapper.getExceptionHandler

variable [DecidableEq H] [DecidableEq X]

/-- `createOne(barrierSequences, outSequences, handler)`, and the one for a factory. -/
def createOne (s : Setup H X E) (barrierSequences : List (ProcessorId X)) :
    Argument H X → Setup H X E × Except String (ProcessorId X)
  | .handler handlerIdentity =>
    let r := Throwing.createOne s.disruptor barrierSequences (.handler handlerIdentity)
    ({ s with
        disruptor := r.1
        exceptionHandlers :=
          Function.update s.exceptionHandlers s.disruptor.created (some s.getExceptionHandler) },
      r.2)
  | .factory processor =>
    let r := Throwing.createOne s.disruptor barrierSequences (.factory processor)
    ({ s with disruptor := r.1 }, r.2)

/-- `createEventProcessorsImpl(barrierSequences, outSequences, handlers...)`. -/
def createEventProcessorsImpl (s : Setup H X E) (barrierSequences : List (ProcessorId X)) :
    List (Argument H X) → Setup H X E × Except String (List (ProcessorId X))
  | [] => (s, .ok [])
  | handler :: rest =>
    match s.createOne barrierSequences handler with
    | (s', .error e) => (s', .error e)
    | (s', .ok processor) =>
      let r := s'.createEventProcessorsImpl barrierSequences rest
      (r.1, r.2.map (processor :: ·))

/-- `createEventProcessors(barrierSequences, handlers...)`. -/
def createEventProcessors (s : Setup H X E) (barrierSequences : List (ProcessorId X))
    (handlers : List (Argument H X)) : Setup H X E × Except String (EventHandlerGroup X) :=
  if s.disruptor.started then
    (s, .error "All event handlers must be added before calling start.")
  else
    match { s with
        disruptor.consumerRepository :=
          s.disruptor.consumerRepository.unMarkEventProcessorsAsEndOfChain barrierSequences
      }.createEventProcessorsImpl barrierSequences handlers with
    | (s', .error e) => (s', .error e)
    | (s', .ok sequences) =>
      ({ s' with
          disruptor := (s'.disruptor.addGatingSequences
            sequences).updateGatingSequencesForNextInChain barrierSequences },
        .ok ⟨sequences⟩)

end Setup

/-! ### The calls of the program -/

inductive HandlerCall (H X E : Type) where
  /-- `handleEventsWith` of the disruptor, or `then` of a group. -/
  | createEventProcessors (barrierSequences : List (ProcessorId X)) (handlers : List (Argument H X))
  | handleExceptionsWith (exceptionHandler : E)
  | setDefaultExceptionHandler (exceptionHandler : E)
  /-- `handleExceptionsFor(eventHandler).with(exceptionHandler)`. -/
  | handleExceptionsFor (eventHandler : H) (exceptionHandler : E)

/-- The disruptor after a call, which may have thrown. -/
def HandlerCall.perform [DecidableEq H] [DecidableEq X] (s : Setup H X E) :
    HandlerCall H X E → Setup H X E
  | .createEventProcessors barrierSequences handlers =>
    (s.createEventProcessors barrierSequences handlers).1
  | .handleExceptionsWith exceptionHandler => s.handleExceptionsWith exceptionHandler
  | .setDefaultExceptionHandler exceptionHandler =>
    (s.setDefaultExceptionHandler exceptionHandler).1
  | .handleExceptionsFor eventHandler exceptionHandler =>
    (s.handleExceptionsFor eventHandler exceptionHandler).1

/-! ### What is meant -/

/-- Which handlers the program has asked for. -/
structure Assignment (E : Type) where
  /-- The delegate of the default handler. -/
  default : Option E := none
  /-- The handler in force, if it is not the default one. -/
  inForce : Option E := none
  /-- The handler that was in force when the processor was created. -/
  atCreation : Nat → Option E := fun _ => none
  /-- The handler that was set for the processor after its creation. -/
  override : Nat → Option E := fun _ => none

namespace Assignment

/-- A call that takes the disruptor from `d` to `d'`. The default handler can only be changed while
it is in force. -/
def after (a : Assignment E) (d d' : Disruptor H X) : HandlerCall H X E → Assignment E
  | .createEventProcessors _ _ =>
    { a with
      atCreation := fun k =>
        if d.created ≤ k ∧ k < d'.created then a.inForce else a.atCreation k
      override := fun k => if d.created ≤ k ∧ k < d'.created then none else a.override k }
  | .handleExceptionsWith exceptionHandler => { a with inForce := some exceptionHandler }
  | .setDefaultExceptionHandler exceptionHandler =>
    if d.started = false ∧ a.inForce = none then { a with default := some exceptionHandler } else a
  | .handleExceptionsFor eventHandler exceptionHandler =>
    match d.consumerRepository.getSequenceFor eventHandler with
    | .ok (.created k) =>
      { a with override := Function.update a.override k (some exceptionHandler) }
    | _ => a

/-- The handler that a processor is to have: its own, or the one in force when it was created. -/
def handlerFor (a : Assignment E) (k : Nat) : Handler E :=
  .ofOption ((a.override k).or ((a.atCreation k).or a.default))

end Assignment

/-- The disruptor, and what the program has asked for. -/
structure HandlerState (H X E : Type) where
  setup : Setup H X E
  assignment : Assignment E := {}

namespace HandlerState

variable [DecidableEq H] [DecidableEq X]

def step (s : HandlerState H X E) (call : HandlerCall H X E) : Option (HandlerState H X E) :=
  some { setup := call.perform s.setup
         assignment := s.assignment.after s.setup.disruptor (call.perform s.setup).disruptor call }

omit [DecidableEq H] [DecidableEq X] in
/-- A new `Disruptor`. -/
def initial (producerType : ProducerType) (b : BufferSize) : HandlerState H X E where
  setup := { disruptor := (Program.initial H X producerType b).disruptor }

end HandlerState

/-! ### Creating processors -/

namespace Setup

/-- What creating processors does to the exception handlers. -/
structure Creates (s s' : Setup H X E) : Prop where
  exceptionHandler : s'.exceptionHandler = s.exceptionHandler
  exceptionHandlerPtr : s'.exceptionHandlerPtr = s.exceptionHandlerPtr
  created_le : s.disruptor.created ≤ s'.disruptor.created
  exceptionHandlers : ∀ k, s'.exceptionHandlers k =
    if s.disruptor.created ≤ k ∧ k < s'.disruptor.created then some s.getExceptionHandler
    else s.exceptionHandlers k

variable {s s' s'' : Setup H X E}

lemma Creates.getExceptionHandler (h : Creates s s') :
    s'.getExceptionHandler = s.getExceptionHandler := by
  simp [Setup.getExceptionHandler, h.exceptionHandlerPtr]

/-- Nothing of it has been touched. -/
lemma creates_of_eq {d : Disruptor H X} (h : d.created = s.disruptor.created) :
    Creates s { s with disruptor := d } := by
  refine ⟨rfl, rfl, h.ge, ?_⟩
  intro k
  rw [if_neg]
  rintro ⟨hle, hlt⟩
  exact absurd (h ▸ hlt) (Nat.not_lt.mpr hle)

lemma Creates.trans (h : Creates s s') (h' : Creates s' s'') : Creates s s'' := by
  refine ⟨h'.exceptionHandler.trans h.exceptionHandler,
    h'.exceptionHandlerPtr.trans h.exceptionHandlerPtr, h.created_le.trans h'.created_le, ?_⟩
  intro k
  have hfirst := h.created_le
  have hsecond := h'.created_le
  rw [h'.exceptionHandlers, h.exceptionHandlers, h.getExceptionHandler]
  split_ifs <;> first | rfl | omega

variable [DecidableEq H] [DecidableEq X] (barrierSequences : List (ProcessorId X))

lemma createOne_creates (argument : Argument H X) :
    Creates s (s.createOne barrierSequences argument).1 := by
  match argument with
  | .handler handlerIdentity =>
    refine ⟨rfl, rfl, Nat.le_succ _, ?_⟩
    intro k
    simp only [createOne, Throwing.createOne, Disruptor.createOne, Function.update_apply]
    congr 1
    rw [eq_iff_iff]
    omega
  | .factory (.ok x) => exact creates_of_eq rfl
  | .factory (.error e) => exact creates_of_eq rfl

lemma createEventProcessorsImpl_creates (handlers : List (Argument H X)) :
    Creates s (s.createEventProcessorsImpl barrierSequences handlers).1 := by
  induction handlers generalizing s with
  | nil => exact creates_of_eq rfl
  | cons argument rest ih =>
    have hone : Creates s _ := createOne_creates barrierSequences argument
    simp only [createEventProcessorsImpl]
    split
    · rename_i s' e hresult
      rwa [hresult] at hone
    · rename_i s' processor hresult
      rw [hresult] at hone
      exact hone.trans ih

lemma createEventProcessors_creates (handlers : List (Argument H X)) :
    Creates s (s.createEventProcessors barrierSequences handlers).1 := by
  unfold createEventProcessors
  split
  · exact creates_of_eq rfl
  · have hunMarked : Creates s { s with
        disruptor.consumerRepository :=
          s.disruptor.consumerRepository.unMarkEventProcessorsAsEndOfChain barrierSequences } :=
      creates_of_eq rfl
    have himpl := hunMarked.trans (createEventProcessorsImpl_creates barrierSequences handlers)
    split
    · rename_i s' e hresult
      rwa [hresult] at himpl
    · rename_i s' sequences hresult
      rw [hresult] at himpl
      have hgraph := Disruptor.updateGatingSequencesForNextInChain_graph
        (s'.disruptor.addGatingSequences sequences) barrierSequences
      exact himpl.trans (creates_of_eq hgraph.2.2)

/-! ### The disruptor underneath -/

lemma createOne_disruptor (argument : Argument H X) :
    ((s.createOne barrierSequences argument).1.disruptor,
        (s.createOne barrierSequences argument).2) =
      Throwing.createOne s.disruptor barrierSequences argument := by
  cases argument <;> rfl

lemma createEventProcessorsImpl_disruptor (handlers : List (Argument H X)) :
    ((s.createEventProcessorsImpl barrierSequences handlers).1.disruptor,
        (s.createEventProcessorsImpl barrierSequences handlers).2) =
      Throwing.createEventProcessorsImpl s.disruptor barrierSequences handlers := by
  induction handlers generalizing s with
  | nil => rfl
  | cons argument rest ih =>
    have hone := createOne_disruptor (s := s) barrierSequences argument
    simp only [createEventProcessorsImpl, Throwing.createEventProcessorsImpl, ← hone]
    split
    · rename_i s' e hresult
      simp [hresult]
    · rename_i s' processor hresult
      simp [hresult, ← ih]

/-- The graph is built as without exception handlers. -/
theorem createEventProcessors_disruptor (handlers : List (Argument H X)) :
    ((s.createEventProcessors barrierSequences handlers).1.disruptor,
        (s.createEventProcessors barrierSequences handlers).2) =
      Throwing.createEventProcessors s.disruptor barrierSequences handlers := by
  unfold createEventProcessors Throwing.createEventProcessors
  split
  · rfl
  · have himpl := createEventProcessorsImpl_disruptor (s := { s with
      disruptor.consumerRepository :=
        s.disruptor.consumerRepository.unMarkEventProcessorsAsEndOfChain barrierSequences })
      barrierSequences handlers
    dsimp only at himpl
    rw [← himpl]
    split
    · rename_i s' e hresult
      simp [hresult]
    · rename_i s' sequences hresult
      simp [hresult]

end Setup

/-! ### The invariant -/

namespace HandlerState

/-- The pointer that a processor is to have. -/
def pointerFor (a : Assignment E) (k : Nat) : ExceptionHandlerPtr E :=
  .ofOption ((a.override k).or (a.atCreation k))

/-- The program's calls have been followed, as far as the pointers go; the wrapper exists until
another handler is in force. -/
structure Inv (s : HandlerState H X E) : Prop where
  inForce : s.setup.exceptionHandlerPtr = s.assignment.inForce
  wrapper : s.setup.exceptionHandler =
    if s.assignment.inForce.isSome then none else some ⟨s.assignment.default⟩
  pointers : ∀ k, k < s.setup.disruptor.created →
    s.setup.exceptionHandlers k = some (pointerFor s.assignment k)

variable {s : HandlerState H X E} [DecidableEq H] [DecidableEq X]

lemma Inv.createEventProcessors (h : s.Inv) (barrierSequences : List (ProcessorId X))
    (handlers : List (Argument H X)) {s' : HandlerState H X E}
    (hs : s.step (.createEventProcessors barrierSequences handlers) = some s') : s'.Inv := by
  have hcreates :=
    Setup.createEventProcessors_creates (s := s.setup) barrierSequences handlers
  obtain rfl := Option.some.inj hs
  refine ⟨hcreates.exceptionHandlerPtr.trans h.inForce, hcreates.exceptionHandler.trans h.wrapper,
    ?_⟩
  intro k hk
  refine (hcreates.exceptionHandlers k).trans ?_
  by_cases hnew : s.setup.disruptor.created ≤ k ∧
      k < (s.setup.createEventProcessors barrierSequences handlers).1.disruptor.created
  · simp [pointerFor, Assignment.after, HandlerCall.perform, Setup.getExceptionHandler, hnew,
      h.inForce]
  · have hold : k < s.setup.disruptor.created := by
      by_contra hle
      exact hnew ⟨Nat.not_lt.mp hle, hk⟩
    rw [if_neg hnew, h.pointers k hold]
    simp [pointerFor, Assignment.after, HandlerCall.perform, hnew]

lemma Inv.handleExceptionsFor (h : s.Inv) (eventHandler : H) (exceptionHandler : E)
    {s' : HandlerState H X E}
    (hs : s.step (.handleExceptionsFor eventHandler exceptionHandler) = some s') : s'.Inv := by
  obtain rfl := Option.some.inj hs
  simp only [HandlerCall.perform, Setup.handleExceptionsFor, Assignment.after]
  cases hlookup : s.setup.disruptor.consumerRepository.getSequenceFor eventHandler with
  | error e => exact h
  | ok processor =>
    cases processor with
    | custom x => exact h
    | created k =>
      refine ⟨h.inForce, h.wrapper, ?_⟩
      intro j hj
      by_cases heq : j = k
      · subst heq
        simp [pointerFor, ExceptionHandlerPtr.ofOption]
      · simp only [pointerFor, Function.update_of_ne heq]
        exact h.pointers j hj

lemma Inv.setDefaultExceptionHandler (h : s.Inv) (exceptionHandler : E) {s' : HandlerState H X E}
    (hs : s.step (.setDefaultExceptionHandler exceptionHandler) = some s') : s'.Inv := by
  obtain rfl := Option.some.inj hs
  have hwrapper := h.wrapper
  simp only [HandlerCall.perform, Setup.setDefaultExceptionHandler, Assignment.after]
  by_cases hstarted : s.setup.disruptor.started = true
  · simp only [hstarted, if_true, Bool.true_eq_false, false_and, if_false]
    exact h
  · cases hforce : s.assignment.inForce with
    | some other =>
      -- the wrapper is gone, and the call throws
      simp only [hforce, Option.isSome_some, if_true] at hwrapper
      simp only [hstarted, hwrapper, reduceCtorEq, and_false, if_false]
      exact h
    | none =>
      simp only [hforce, Option.isSome_none, Bool.false_eq_true, if_false] at hwrapper
      simp only [hstarted, hwrapper, and_self, if_true, Bool.false_eq_true, if_false]
      refine ⟨h.inForce.trans hforce, ?_, h.pointers⟩
      simp [ExceptionHandlerWrapper.switchTo]

lemma Inv.step (h : s.Inv) {call : HandlerCall H X E} {s' : HandlerState H X E}
    (hs : s.step call = some s') : s'.Inv := by
  cases call with
  | createEventProcessors barrierSequences handlers =>
    exact h.createEventProcessors barrierSequences handlers hs
  | handleExceptionsWith exceptionHandler =>
    obtain rfl := Option.some.inj hs
    exact ⟨rfl, rfl, h.pointers⟩
  | setDefaultExceptionHandler exceptionHandler =>
    exact h.setDefaultExceptionHandler exceptionHandler hs
  | handleExceptionsFor eventHandler exceptionHandler =>
    exact h.handleExceptionsFor eventHandler exceptionHandler hs

omit [DecidableEq H] [DecidableEq X] in
lemma inv_initial (producerType : ProducerType) (b : BufferSize) :
    (initial producerType b : HandlerState H X E).Inv := by
  refine ⟨rfl, rfl, ?_⟩
  intro k hk
  exact absurd hk (Nat.not_lt_zero k)

omit [DecidableEq H] [DecidableEq X] in
/-- The right handler is consulted, or the wrapper that is to be consulted has been destroyed. -/
lemma Inv.consulted (h : s.Inv) {k : Nat} (hk : k < s.setup.disruptor.created) :
    s.setup.consulted k =
      if s.assignment.inForce.isSome ∧ s.assignment.atCreation k = none ∧
          s.assignment.override k = none then none
      else some (s.assignment.handlerFor k) := by
  simp only [Setup.consulted, h.pointers k hk, pointerFor, Assignment.handlerFor, h.wrapper]
  cases s.assignment.override k with
  | some own => simp [ExceptionHandlerPtr.ofOption, Handler.ofOption]
  | none =>
    cases s.assignment.atCreation k with
    | some given => simp [ExceptionHandlerPtr.ofOption, Handler.ofOption]
    | none =>
      cases s.assignment.inForce with
      | some other => rfl
      | none => rfl

/-- Every processor consults the handler that it is to have, and that handler still exists, just
when `handleExceptionsWith` has not been called, or each processor that was created before with the
default handler has been given a handler of its own. -/
theorem consulted_eq_handlerFor_iff {producerType : ProducerType} {b : BufferSize}
    {calls : List (HandlerCall H X E)} (hr : run step (initial producerType b) calls = some s) :
    (∀ k, k < s.setup.disruptor.created →
        s.setup.consulted k = some (s.assignment.handlerFor k)) ↔
      s.assignment.inForce = none ∨
        ∀ k, k < s.setup.disruptor.created → s.assignment.atCreation k = none →
          s.assignment.override k ≠ none := by
  have hinv : s.Inv :=
    run_invariant Inv (fun _ _ _ h hs => h.step hs) (inv_initial producerType b) hr
  constructor
  · intro hright
    by_cases hforce : s.assignment.inForce = none
    · exact Or.inl hforce
    · refine Or.inr fun k hk hcreation hoverride => ?_
      have hconsulted := hright k hk
      rw [hinv.consulted hk, if_pos ⟨Option.isSome_iff_ne_none.mpr hforce, hcreation,
        hoverride⟩] at hconsulted
      cases hconsulted
  · intro hcondition k hk
    rw [hinv.consulted hk, if_neg]
    rintro ⟨hforce, hcreation, hoverride⟩
    rcases hcondition with hnone | hall
    · rw [hnone] at hforce
      cases hforce
    · exact hall k hk hcreation hoverride

end HandlerState

/-- A handler is added, then `handleExceptionsWith` is called. -/
def handlerThenExceptions : List (HandlerCall Unit Unit Unit) :=
  [.createEventProcessors [] [.handler ()], .handleExceptionsWith ()]

theorem handlerThenExceptions_destroyed :
    ∃ s, run HandlerState.step (HandlerState.initial .SINGLE ⟨3, by decide⟩)
        handlerThenExceptions = some s ∧
      s.setup.disruptor.created = 1 ∧ s.setup.consulted 0 = none :=
  ⟨_, rfl, rfl, rfl⟩

theorem consulted_eq_handlerFor_iff_handlerThenExceptions :
    ∃ s, run HandlerState.step (HandlerState.initial .SINGLE ⟨3, by decide⟩)
        (handlerThenExceptions ++ [.handleExceptionsFor () ()]) = some s ∧
      s.setup.disruptor.created = 1 ∧
      ∀ k, k < s.setup.disruptor.created →
        s.setup.consulted k = some (s.assignment.handlerFor k) := by
  obtain ⟨s, hr, hcreated, hoverride⟩ :
      ∃ s, run HandlerState.step (HandlerState.initial .SINGLE ⟨3, by decide⟩)
          (handlerThenExceptions ++ [.handleExceptionsFor () ()]) = some s ∧
        s.setup.disruptor.created = 1 ∧ s.assignment.override 0 = some () := ⟨_, rfl, rfl, rfl⟩
  refine ⟨s, hr, hcreated, (HandlerState.consulted_eq_handlerFor_iff hr).mpr (Or.inr ?_)⟩
  intro k hk _
  obtain rfl : k = 0 := by omega
  simp [hoverride]

end Disruptor.Dsl
