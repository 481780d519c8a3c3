import Disruptor.Core.Monitor
import Disruptor.Core.ThreadPool

/-!
# `BlockingWaitStrategy` and `LiteBlockingWaitStrategy`

Consumers that find the cursor behind park on a condition variable, and whoever advances the cursor
or alerts a barrier wakes them with `signalAllWhenBlocking()`. Each access to the cursor, to an
alert flag, to `signalNeeded_`, to the mutex and to the condition variable is a step.
-/

namespace Disruptor.Signalling

open Disruptor.Core

variable {C S : Type}

/-- The strategies that park on a condition variable without a timeout. -/
inductive Strategy where
  | Blocking
  | LiteBlocking
  deriving DecidableEq, Repr

/-- Where a call of `waitFor(sequence)` is. -/
inductive WaitPc where
  /-- Before `checkAlert()` at the start of the barrier's `waitFor`. -/
  | enter
  /-- Before `cursorSequence.get() < sequence` decides whether to lock. -/
  | readCursor
  | lock
  /-- Before `cursorSequence.get() < sequence` in the condition of the loop. -/
  | loopCondition
  /-- Before `signalNeeded_.store(true)` (`LiteBlockingWaitStrategy`). -/
  | storeSignalNeeded
  /-- Before `cursorSequence.get() >= sequence` (`LiteBlockingWaitStrategy`). -/
  | recheck
  | checkAlert
  /-- Before `cv_.wait(lock)`. -/
  | wait
  /-- In `cv_.wait(lock)`. -/
  | waiting
  /-- Before the lock is released, on the way on or on the way out of the call. -/
  | unlock (thrown : Bool)
  /-- Before `dependentSequence.get()`. -/
  | readDependent
  | dependentBehind
  deriving DecidableEq

/-- Where a publisher or an alerter is. -/
inductive SignalPc where
  | idle
  /-- It has made an update and not yet called `signalAllWhenBlocking()`. -/
  | updated
  /-- Before `signalNeeded_.exchange(false)` (`LiteBlockingWaitStrategy`). -/
  | exchange
  | lock
  /-- Before `cv_.notify_all()`. -/
  | notify
  | unlock
  deriving DecidableEq

namespace Strategy

/-- Where `waitFor` goes with the lock: a `while` loop starts with its condition, a `do` loop with
its body. -/
def locked : Strategy → WaitPc
  | .Blocking => .loopCondition
  | .LiteBlocking => .storeSignalNeeded

/-- The start of the body of the loop. -/
def body : Strategy → WaitPc
  | .Blocking => .checkAlert
  | .LiteBlocking => .storeSignalNeeded

/-- The start of `signalAllWhenBlocking()`. -/
def signalAllWhenBlocking : Strategy → SignalPc
  | .Blocking => .lock
  | .LiteBlocking => .exchange

end Strategy

/-- The consumers, and the threads that publish or alert. -/
inductive Thread (C S : Type) where
  | consumer (c : C)
  | signaller (s : S)
  deriving DecidableEq

/-- What the threads share. `alerted` is the flag of the barrier of each consumer. -/
structure Shared (C S : Type) where
  cursor : Int
  alerted : C → Bool
  monitor : Monitor (Thread C S) := {}
  signalNeeded : Bool := false

inductive ConsumerAction where
  | call (sequence : Int)
  | proceed
  | spuriousWakeUp
  /-- `dependentSequence.get()` returns. -/
  | dependent (value : Int)

inductive SignalAction (C : Type) where
  /-- Give the cursor a new value. -/
  | advance (cursor : Int)
  | alert (c : C)
  | clearAlert (c : C)
  | proceed

abbrev Local (C S : Type) : Thread C S → Type
  | .consumer _ => Option (Int × WaitPc)
  | .signaller _ => SignalPc

abbrev Action (C S : Type) : Thread C S → Type
  | .consumer _ => ConsumerAction
  | .signaller _ => SignalAction C

section

variable [DecidableEq C] [DecidableEq S]

/-- One step of a consumer. A call of `waitFor` that ends leaves it idle. -/
def consumerStep (strategy : Strategy) (c : C) (s : Shared C S) :
    Option (Int × WaitPc) → ConsumerAction → Option (Shared C S × Option (Int × WaitPc))
  | none, .call sequence => some (s, some (sequence, .enter))
  | some (sequence, .enter), .proceed =>
    some (s, if s.alerted c then none else some (sequence, .readCursor))
  | some (sequence, .readCursor), .proceed =>
    some (s, some (sequence, if s.cursor < sequence then .lock else .readDependent))
  | some (sequence, .lock), .proceed =>
    (s.monitor.lock (.consumer c)).map fun m =>
      ({ s with monitor := m }, some (sequence, strategy.locked))
  | some (sequence, .loopCondition), .proceed =>
    some (s, some (sequence, if s.cursor < sequence then strategy.body else .unlock false))
  | some (sequence, .storeSignalNeeded), .proceed =>
    some ({ s with signalNeeded := true }, some (sequence, .recheck))
  | some (sequence, .recheck), .proceed =>
    some (s, some (sequence, if s.cursor ≥ sequence then .unlock false else .checkAlert))
  | some (sequence, .checkAlert), .proceed =>
    some (s, some (sequence, if s.alerted c then .unlock true else .wait))
  | some (sequence, .wait), .proceed =>
    some ({ s with monitor := s.monitor.park (.consumer c) }, some (sequence, .waiting))
  | some (sequence, .waiting), .spuriousWakeUp =>
    some ({ s with monitor := s.monitor.wake (.consumer c) }, some (sequence, .waiting))
  | some (sequence, .waiting), .proceed =>
    if s.monitor.parked (.consumer c) then none
    else
      (s.monitor.lock (.consumer c)).map fun m =>
        ({ s with monitor := m }, some (sequence, .loopCondition))
  | some (sequence, .unlock thrown), .proceed =>
    some ({ s with monitor := s.monitor.unlock },
      if thrown then none else some (sequence, .readDependent))
  | some (sequence, .readDependent), .dependent availableSequence =>
    some (s, if availableSequence < sequence then some (sequence, .dependentBehind) else none)
  | some (sequence, .dependentBehind), .proceed =>
    some (s, if s.alerted c then none else some (sequence, .readDependent))
  | _, _ => none

/-- One step of a publisher or an alerter. A publisher may advance the cursor more than once before
it signals, as one does that claims several times and publishes the claims together. -/
def signallerStep (strategy : Strategy) (t : S) (s : Shared C S) :
    SignalPc → SignalAction C → Option (Shared C S × SignalPc)
  | .idle, .advance cursor | .updated, .advance cursor =>
    some ({ s with cursor := cursor }, .updated)
  | .idle, .alert c | .updated, .alert c =>
    some ({ s with alerted := Function.update s.alerted c true }, .updated)
  | .idle, .clearAlert c => some ({ s with alerted := Function.update s.alerted c false }, .idle)
  | .updated, .proceed => some (s, strategy.signalAllWhenBlocking)
  | .exchange, .proceed =>
    some ({ s with signalNeeded := false }, if s.signalNeeded then .lock else .idle)
  | .lock, .proceed =>
    (s.monitor.lock (.signaller t)).map fun m => ({ s with monitor := m }, .notify)
  | .notify, .proceed => some ({ s with monitor := s.monitor.notifyAll }, .unlock)
  | .unlock, .proceed => some ({ s with monitor := s.monitor.unlock }, .idle)
  | _, _ => none

/-- Any number of consumers, publishers and alerters. -/
def pool (C S : Type) [DecidableEq C] [DecidableEq S] (strategy : Strategy) :
    ThreadPool (Thread C S) (Shared C S) (Local C S) (Action C S) where
  step
    | .consumer c => consumerStep strategy c
    | .signaller t => signallerStep strategy t

abbrev Config (C S : Type) := ThreadPool.Config (Shared C S) (Local C S)

/-- No thread is in a call. -/
def initial (cursor : Int) (alerted : C → Bool) : Config C S where
  shared := { cursor := cursor, alerted := alerted }
  threads
    | .consumer _ => none
    | .signaller _ => .idle

end

end Disruptor.Signalling
