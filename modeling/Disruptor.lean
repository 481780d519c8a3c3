import Disruptor.Core.Run
import Disruptor.Core.ThreadPool
import Disruptor.Core.BroadcastLog
import Disruptor.Core.Window
import Disruptor.Core.Linearizability
import Disruptor.Core.Attempts
import Disruptor.Sequencer.BufferSize
import Disruptor.Sequencer.Error
import Disruptor.Sequencer.Gating
import Disruptor.Sequencer.SingleProducer.Basic
import Disruptor.Sequencer.SingleProducer.Visibility
import Disruptor.Sequencer.MultiProducer.Basic
import Disruptor.Sequencer.Basic
import Disruptor.Sequencer.Agreement
import Disruptor.Sequencer.Calls
import Disruptor.Sequencer.SingleProducer.ClaimCall
import Disruptor.Sequencer.MultiProducer.ClaimCall
import Disruptor.RingBuffer.Basic
import Disruptor.RingBuffer.Publishing
import Disruptor.RingBuffer.Batch
import Disruptor.EventProcessor.BatchEventProcessor
import Disruptor.EventProcessor.Delivery
import Disruptor.Barrier.WaitCall
import Disruptor.Barrier.Consumer
import Disruptor.Core.Monitor
import Disruptor.Barrier.Signalling
import Disruptor.Barrier.WakeUp
import Disruptor.Sequencer.SingleProducer.Refinement
import Disruptor.Sequencer.MultiProducer.Ring
import Disruptor.Sequencer.MultiProducer.Safety
import Disruptor.Sequencer.ClaimCall
import Disruptor.Sequencer.Reconfiguration
import Disruptor.EventProcessor.Progress
import Disruptor.EventProcessor.RunCall
import Disruptor.Sequencer.Claiming
import Disruptor.Dsl.ConsumerRepository
import Disruptor.Dsl.Disruptor
import Disruptor.Dsl.System
import Disruptor.Dsl.Building
import Disruptor.Dsl.Outline
import Disruptor.Dsl.Safety
import Disruptor.Dsl.DependencyOrder
import Disruptor.EventProcessor.Quiet
import Disruptor.EventProcessor.Fatal
import Disruptor.Dsl.Graph
import Disruptor.Dsl.EndOfChain
import Disruptor.Dsl.Gating
import Disruptor.Dsl.Shutdown
import Disruptor.Dsl.FatalException
import Disruptor.Sequencer.Operations
import Disruptor.Sequencer.Capacity
import Disruptor.Sequencer.SequenceGroups
import Disruptor.Sequencer.MultiProducer.Flags
import Disruptor.Sequencer.MultiProducer.Availability
import Disruptor.RingBuffer.TryPublish
import Disruptor.EventPoller.EventPoller
import Disruptor.EventPoller.Polls
import Disruptor.EventPoller.Ring
import Disruptor.EventPoller.Completion
import Disruptor.Barrier.TimedWait
import Disruptor.Dsl.StartupLatch
import Disruptor.Dsl.FailedCall
import Disruptor.Sequencer.Encoding
import Disruptor.Dsl.ExceptionHandlers
import Disruptor.Sequencer.SequenceGroup
import Disruptor.EventProcessor.Attribution
import Disruptor.EventProcessor.Retries
import Disruptor.Barrier.Alert
import Disruptor.EventProcessor.Lifecycle
import Disruptor.EventProcessor.Notifications
import Disruptor.EventProcessor.Halting
import Disruptor.EventProcessor.StrayAlert
import Disruptor.Core.SpinLock
import Disruptor.Sequencer.AtomicSharedPtr
import Disruptor.Core.Progress
import Disruptor.Barrier.Return
import Disruptor.Sequencer.MultiProducer.Granting
import Disruptor.Sequencer.MultiProducer.Draining
import Disruptor.Dsl.TimedShutdown
import Disruptor.Barrier.Pausing
import Disruptor.EventProcessor.SequenceCallback
import Disruptor.Core.Ledger
import Disruptor.Sequencer.Ranges
import Disruptor.Sequencer.Signals
import Disruptor.EventProcessor.Visibility
import Disruptor.Dsl.Claims
import Disruptor.Dsl.Visibility
import Disruptor.Dsl.Events
import Disruptor.Core.Draining
import Disruptor.EventProcessor.Advance
import Disruptor.Dsl.Orderly
import Disruptor.Dsl.RegistrationOrder
import Disruptor.Dsl.Draining
import Disruptor.EventProcessor.Stopping
import Disruptor.Dsl.Halting
import Disruptor.Dsl.Teardown
import Disruptor.RingBuffer.Waiting
