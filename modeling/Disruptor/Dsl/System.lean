import Disruptor.Core.ThreadPool
import Disruptor.Dsl.Disruptor

/-!
# A running `Disruptor`

The main thread builds the graph, publishes, calls `start()`, publishes and calls `shutdown()`.
Each consumer has a thread of its own from `startAll()` on, and with a multi-producer sequencer
there are other producers after `start()`. All threads take atomic steps, in any order.

A producer claims with `next(n)` or `tryNext(n)`, fills the events and publishes them. The threads
of handlers run `BatchEventProcessor::run`; of a processor of the user's own it is assumed that its
sequence never goes back, and that it stays behind the barrier sequences that its factory got.
-/

namespace Disruptor.Dsl

open Disruptor.Core

variable {H X P : Type}

/-- What the threads share. -/
structure Shared (H X : Type) where
  disruptor : Disruptor H X
  /-- The consumers whose threads were created. -/
  spawned : List (ProcessorId X) := []
  /-- `isRunning()` of the user's own processors. -/
  customRunning : X → Bool := fun _ => false
  /-- History: the consumers that each consumer was declared to follow. -/
  declared : ProcessorId X → List (ProcessorId X) := fun _ => []
  /-- History: the claims that were granted, the latest first. -/
  granted : List (Int × Int) := []
  /-- History: the ranges that were published, the latest first. -/
  published : List (Int × Int) := []
  /-- History: the sequences of the consumers when `start()` was called. -/
  startValues : ProcessorId X → Int := fun _ => INITIAL_VALUE
  /-- History: the ranges that were published when `shutdown()` was called. -/
  publishedBefore : List (Int × Int) := []

/-- The sequence is in one of the ranges. -/
def InRanges (ranges : List (Int × Int)) (sequence : Int) : Prop :=
  ∃ range ∈ ranges, range.1 ≤ sequence ∧ sequence ≤ range.2

namespace Shared

def sequencer (s : Shared H X) : Sequencer (ProcessorId X) := s.disruptor.sequencer

def values (s : Shared H X) : ProcessorId X → Int := s.disruptor.values

def setSequencer (s : Shared H X) (q : Sequencer (ProcessorId X)) : Shared H X :=
  { s with disruptor := { s.disruptor with sequencer := q } }

/-- Change the fields of the `k`-th processor. -/
def setProcessor (s : Shared H X) (k : Nat) (f : BatchEventProcessor.Fields) : Shared H X :=
  { s with
    disruptor :=
      { s.disruptor with processors := Function.update s.disruptor.processors k f } }

variable [DecidableEq X]

def setCustom (s : Shared H X) (x : X) (value : Int) : Shared H X :=
  { s with
    disruptor := { s.disruptor with customs := Function.update s.disruptor.customs x value } }

omit [DecidableEq X]

/-- `isRunning()` of a consumer. -/
def isRunning (s : Shared H X) : ProcessorId X → Bool
  | .created k => decide ((s.disruptor.processors k).running ≠ .IDLE)
  | .custom x => s.customRunning x

/-- The barrier of the `k`-th processor. -/
def barrier (s : Shared H X) (waitStrategy : WaitStrategy) (k : Nat) : Barrier (ProcessorId X) :=
  ⟨waitStrategy, s.disruptor.dependentSequences (.created k)⟩

/-- What the barrier of the `k`-th processor reads. -/
def view (s : Shared H X) (k : Nat) : WaitView (ProcessorId X) where
  cursor := s.sequencer.getCursor
  values := s.values
  alerted := (s.disruptor.processors k).alerted
  available := s.sequencer.available

end Shared

/-! ### Producers -/

/-- Where a producer is. -/
inductive Client (X : Type) where
  | idle
  | claiming (call : Sequencer.ClaimCall (ProcessorId X))
  /-- The claim is granted, and the events are being filled. -/
  | translating (lo hi : Int)
  /-- In `publish`, from `l` on. -/
  | publishing (l hi : Int)

inductive ClientAction where
  | claim (op : ClaimOperation)
  | proceed (spurious : Bool)
  /-- The translator returns or throws. -/
  | translate (returns : Bool)

/-- Where a producer is after a step of a claim. -/
def Client.ofResult : ClaimResult (Sequencer.ClaimCall (ProcessorId X)) → Client X
  | .running call => .claiming call
  | .claimed lo hi => .translating lo hi
  | .ended => .idle

/-- What a step of a claim leaves. -/
def Shared.afterClaim (s : Shared H X)
    (r : ClaimResult (Sequencer.ClaimCall (ProcessorId X)) × Sequencer (ProcessorId X)) :
    Shared H X × Client X :=
  ({ s.setSequencer r.2 with
      granted :=
        match r.1 with
        | .claimed lo hi => (lo, hi) :: s.granted
        | _ => s.granted },
    .ofResult r.1)

/-- One step of a producer. When a translator throws, the claim of a single event stays
unpublished; those of several events are published all the same. -/
def clientStep (s : Shared H X) : Client X → ClientAction → Option (Shared H X × Client X)
  | .idle, .claim op =>
    if op.claims then some (s.afterClaim (s.sequencer.enter op)) else none
  | .claiming call, .proceed spurious =>
    (s.sequencer.callStep s.values spurious call).map s.afterClaim
  | .translating lo hi, .translate returns =>
    if returns = false ∧ lo = hi then some (s, .idle) else some (s, .publishing lo hi)
  | .publishing l hi, .proceed _ =>
    let r := s.sequencer.publishStep l hi
    some ({ s.setSequencer r.1 with published := r.2.1 :: s.published },
      if r.2.2 then .idle else .publishing (l + 1) hi)
  | _, _ => none

/-- One step of a producer other than the main thread. -/
def producerStep (s : Shared H X) (c : Client X) (a : ClientAction) :
    Option (Shared H X × Client X) :=
  match s.sequencer with
  | .single _ => none
  | .multi _ => if s.disruptor.started then clientStep s c a else none

/-! ### The main thread -/

/-- Where the main thread is. -/
inductive MainPc (X : Type) where
  | client (c : Client X)
  /-- In `startAll`, with the consumers that have no thread yet. -/
  | starting (rest : List (EventProcessorInfo X))
  /-- In `shutdown()`, before `hasBacklog()` reads the cursor. -/
  | hasBacklog
  /-- In `hasBacklog()`, before `isRunning()` of the first consumer of `rest`. -/
  | checkRunning (cursor : Int) (rest : List (EventProcessorInfo X))
  /-- The consumer is running and at the end of its chain; before its sequence is read. -/
  | checkSequence (cursor : Int) (info : EventProcessorInfo X) (rest : List (EventProcessorInfo X))
  /-- In `haltAll()`. -/
  | halt (rest : List (EventProcessorInfo X))
  /-- In `halt()` of the `k`-th processor, before the barrier is alerted. -/
  | alert (k : Nat) (rest : List (EventProcessorInfo X))
  | halted

/-- The main thread with the groups that it has been given. -/
structure Main (X : Type) where
  pc : MainPc X := .client .idle
  groups : List (EventHandlerGroup X) := []

inductive MainAction (H X : Type) where
  | build (call : BuildCall H X)
  | client (a : ClientAction)
  | start
  | shutdown
  | proceed

/-- The loop of `shutdown()` has found no backlog. -/
def MainPc.PastBacklog : MainPc X → Prop
  | .halt _ | .alert _ _ | .halted => True
  | _ => False

/-- `start()`, as far as `startAll`; it throws the second time. -/
def Shared.start (s : Shared H X) : Shared H X × MainPc X :=
  if s.disruptor.started then (s, .client .idle)
  else
    ({ s with
        disruptor := { s.disruptor with started := true }
        startValues := s.values },
      .starting s.disruptor.consumerRepository.consumerInfos)

section

variable [DecidableEq H] [DecidableEq X]

/-- A call that builds the graph; an exception leaves no group. -/
def buildStep (s : Shared H X) (l : Main X) (call : BuildCall H X) :
    Option (Shared H X × Main X) :=
  if s.disruptor.started then none
  else
    (call.perform s.disruptor l.groups).map fun
      | .error _ => (s, l)
      | .ok (d, group) =>
        ({ s with disruptor := d, declared := call.declare s.declared l.groups group },
          { l with groups := l.groups ++ [group] })

/-- One step of `start()` or `shutdown()`. -/
def lifecycleStep (s : Shared H X) : MainPc X → Option (Shared H X × MainPc X)
  | .starting [] => some (s, .client .idle)
  | .starting (info :: rest) =>
    some ({ s with spawned := info.eventprocessor :: s.spawned }, .starting rest)
  | .hasBacklog =>
    some (s, .checkRunning s.sequencer.getCursor s.disruptor.consumerRepository.consumerInfos)
  | .checkRunning _ [] => some (s, .halt s.disruptor.consumerRepository.consumerInfos)
  | .checkRunning cursor (info :: rest) =>
    if s.isRunning info.eventprocessor && info.endOfChain then
      some (s, .checkSequence cursor info rest)
    else some (s, .checkRunning cursor rest)
  | .checkSequence cursor info rest =>
    if cursor > s.values info.eventprocessor then some (s, .hasBacklog)
    else some (s, .checkRunning cursor rest)
  | .halt [] => some (s, .halted)
  | .halt (info :: rest) =>
    match info.eventprocessor with
    | .created k =>
      some (s.setProcessor k { s.disruptor.processors k with running := .HALTED }, .alert k rest)
    | .custom _ => some (s, .halt rest)
  | .alert k rest =>
    some (s.setProcessor k { s.disruptor.processors k with alerted := true }, .halt rest)
  | _ => none

/-- One step of the main thread. -/
def mainStep (s : Shared H X) (l : Main X) : MainAction H X → Option (Shared H X × Main X)
  | .build call =>
    match l.pc with
    | .client .idle => buildStep s l call
    | _ => none
  | .client a =>
    match l.pc with
    | .client c => (clientStep s c a).map fun r => (r.1, { l with pc := .client r.2 })
    | _ => none
  | .start =>
    match l.pc with
    | .client .idle => some (s.start.1, { l with pc := s.start.2 })
    | _ => none
  | .shutdown =>
    match l.pc with
    | .client .idle =>
      some ({ s with publishedBefore := s.published }, { l with pc := .hasBacklog })
    | _ => none
  | .proceed => (lifecycleStep s l.pc).map fun r => (r.1, { l with pc := r.2 })

end

/-! ### The threads of the consumers -/

inductive CustomAction where
  | advance (value : Int)
  | setRunning (running : Bool)

section

variable [DecidableEq X]

/-- One step of the thread of the `k`-th processor. -/
def processorStep (processor : Nat → BatchEventProcessor) (waitStrategy : WaitStrategy)
    (s : Shared H X) (k : Nat) (pc : BatchEventProcessor.RunPc (ProcessorId X))
    (a : BatchEventProcessor.RunAction) :
    Option (Shared H X × BatchEventProcessor.RunPc (ProcessorId X)) :=
  if .created k ∈ s.spawned then
    (BatchEventProcessor.runStep (processor k) (s.barrier waitStrategy k) (s.view k)
      (s.disruptor.processors k) pc a).map fun r => (s.setProcessor k r.1, r.2)
  else none

/-- One step of the thread of a processor of the user's own. -/
def customStep (s : Shared H X) (x : X) : CustomAction → Option (Shared H X)
  | .advance value =>
    if .custom x ∈ s.spawned ∧ s.disruptor.customs x ≤ value ∧
        ∀ i ∈ s.disruptor.dependentSequences (.custom x), value ≤ s.values i then
      some (s.setCustom x value)
    else none
  | .setRunning running =>
    if .custom x ∈ s.spawned then
      some { s with customRunning := Function.update s.customRunning x running }
    else none

end

/-! ### The pool -/

inductive Thread (P X : Type) where
  | main
  | producer (p : P)
  | processor (k : Nat)
  | custom (x : X)
  deriving DecidableEq

/-- The local state of a thread. -/
def Local (X : Type) {P : Type} : Thread P X → Type
  | .main => Main X
  | .producer _ => Client X
  | .processor _ => BatchEventProcessor.RunPc (ProcessorId X)
  | .custom _ => Unit

def Action (H X : Type) {P : Type} : Thread P X → Type
  | .main => MainAction H X
  | .producer _ => ClientAction
  | .processor _ => BatchEventProcessor.RunAction
  | .custom _ => CustomAction

variable [DecidableEq H] [DecidableEq X]

/-- The threads of a program over a `Disruptor`. -/
def system (H X P : Type) [DecidableEq H] [DecidableEq X]
    (processor : Nat → BatchEventProcessor) (waitStrategy : WaitStrategy) :
    ThreadPool (Thread P X) (Shared H X) (Local X) (Action H X) where
  step
    | .main, s, l, a => mainStep s l a
    | .producer _, s, c, a => producerStep s c a
    | .processor k, s, pc, a => processorStep processor waitStrategy s k pc a
    | .custom x, s, _, a => (customStep s x a).map fun s' => (s', ())

/-- A state of the system. -/
abbrev Config (H X P : Type) := ThreadPool.Config (Shared H X) (Local X (P := P))

/-- A thread with the choice of its step. -/
abbrev Label (H X P : Type) := Σ t : Thread P X, Action H X t

/-- Before the first call of the main thread. -/
def initial (H X P : Type) (producerType : ProducerType) (b : BufferSize) : Config H X P where
  shared := { disruptor := { sequencer := Sequencer.initial producerType b {} } }
  threads
    | .main => ({} : Main X)
    | .producer _ => Client.idle
    | .processor _ => BatchEventProcessor.RunPc.enterRun
    | .custom _ => ()

/-- Where the main thread is. -/
def mainPc (c : Config H X P) : MainPc X := Main.pc (c.threads .main)

omit [DecidableEq H] in
@[simp] lemma mainPc_update_main [DecidableEq P] (s : Shared H X)
    (threads : ∀ t : Thread P X, Local X t) (l : Main X) :
    mainPc (H := H) ⟨s, Function.update threads .main l⟩ = l.pc := by
  have heq : Function.update threads .main l .main = l := Function.update_self _ _ _
  exact congrArg Main.pc heq

omit [DecidableEq H] in
lemma mainPc_update_of_ne [DecidableEq P] {t : Thread P X} (ht : t ≠ .main) (s : Shared H X)
    (threads : ∀ t : Thread P X, Local X t) (l : Local X t) :
    mainPc (H := H) ⟨s, Function.update threads t l⟩ = Main.pc (threads .main) := by
  have heq : Function.update threads t l .main = threads .main := Function.update_of_ne ht.symm _ _
  exact congrArg Main.pc heq

end Disruptor.Dsl
