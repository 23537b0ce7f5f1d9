import Nucleus.Kernel.Consistency
import Nucleus.Kernel.Run
import Nucleus.Processor.Datum
import Nucleus.Proofs.Agreement
import Nucleus.Proofs.Kernel.Accounting
import Nucleus.Proofs.Kernel.Answers
import Nucleus.Proofs.Kernel.Blocking
import Nucleus.Proofs.Kernel.Boot
import Nucleus.Proofs.Kernel.Calls
import Nucleus.Proofs.Kernel.Calm
import Nucleus.Proofs.Kernel.Consistency
import Nucleus.Proofs.Kernel.Contexts
import Nucleus.Proofs.Kernel.Courses
import Nucleus.Proofs.Kernel.CpuTime
import Nucleus.Proofs.Kernel.Creation
import Nucleus.Proofs.Kernel.Deeds
import Nucleus.Proofs.Kernel.Delivery
import Nucleus.Proofs.Kernel.Diary
import Nucleus.Proofs.Kernel.Draining
import Nucleus.Proofs.Kernel.Driver
import Nucleus.Proofs.Kernel.Ebb
import Nucleus.Proofs.Kernel.Ending
import Nucleus.Proofs.Kernel.Exchange
import Nucleus.Proofs.Kernel.Exhaustion
import Nucleus.Proofs.Kernel.Faults
import Nucleus.Proofs.Kernel.Frame
import Nucleus.Proofs.Kernel.Handlers
import Nucleus.Proofs.Kernel.Handling
import Nucleus.Proofs.Kernel.History
import Nucleus.Proofs.Kernel.Idle
import Nucleus.Proofs.Kernel.Interrupt
import Nucleus.Proofs.Kernel.InterruptUses
import Nucleus.Proofs.Kernel.Intervals
import Nucleus.Proofs.Kernel.Ledger
import Nucleus.Proofs.Kernel.Lockstep
import Nucleus.Proofs.Kernel.Moves
import Nucleus.Proofs.Kernel.Oblivious
import Nucleus.Proofs.Kernel.Observation
import Nucleus.Proofs.Kernel.Overtaking
import Nucleus.Proofs.Kernel.Pace
import Nucleus.Proofs.Kernel.PassingUp
import Nucleus.Proofs.Kernel.Permanence
import Nucleus.Proofs.Kernel.Pids
import Nucleus.Proofs.Kernel.PseudoClock
import Nucleus.Proofs.Kernel.Quantum
import Nucleus.Proofs.Kernel.Reachable
import Nucleus.Proofs.Kernel.Refund
import Nucleus.Proofs.Kernel.Refusal
import Nucleus.Proofs.Kernel.Renaming
import Nucleus.Proofs.Kernel.Replies
import Nucleus.Proofs.Kernel.Rescheduling
import Nucleus.Proofs.Kernel.Roster
import Nucleus.Proofs.Kernel.Schedule
import Nucleus.Proofs.Kernel.SemaphoreLaws
import Nucleus.Proofs.Kernel.Service
import Nucleus.Proofs.Kernel.Spawning
import Nucleus.Proofs.Kernel.StartUp
import Nucleus.Proofs.Kernel.Survivors
import Nucleus.Proofs.Kernel.Teardown
import Nucleus.Proofs.Kernel.Terminals
import Nucleus.Proofs.Kernel.Termination
import Nucleus.Proofs.Kernel.TickTime
import Nucleus.Proofs.Kernel.Timeless
import Nucleus.Proofs.Kernel.Transition
import Nucleus.Proofs.Kernel.Trap
import Nucleus.Proofs.Kernel.Tree
import Nucleus.Proofs.Kernel.Turn
import Nucleus.Proofs.Kernel.Uses
import Nucleus.Proofs.Kernel.View
import Nucleus.Proofs.Machine.Areas
import Nucleus.Proofs.Machine.Bus
import Nucleus.Proofs.Machine.Event
import Nucleus.Proofs.Machine.Lines
import Nucleus.Proofs.Machine.OrdinaryWord
import Nucleus.Proofs.Machine.Tape
import Nucleus.Proofs.Machine.Terminals
import Nucleus.Proofs.Notices
import Nucleus.Proofs.Outcome
import Nucleus.Proofs.Process.Allocation
import Nucleus.Proofs.Process.Family
import Nucleus.Proofs.Process.PidIndex
import Nucleus.Proofs.Semaphore.QueueMap
import Nucleus.Proofs.Semaphore.WaitLists
import Nucleus.Proofs.Semaphore.WaitRoom
