import Uthreads.Library.Transition
import Uthreads.Library.OrderedMap
import Uthreads.Library.RoundRobin
import Uthreads.Library.Guarded
import Uthreads.Library.Custody
import Uthreads.Library.Fifo
import Uthreads.Library.Fallible
import Uthreads.Library.Iterator
import Uthreads.Library.Roster
import Uthreads.Library.Relational
import Uthreads.Library.Lockstep
import Uthreads.Library.Serialization
import Uthreads.Library.Service
import Uthreads.Model.State
import Uthreads.Model.Operations
import Uthreads.Model.Specification
import Uthreads.Model.Machine
import Uthreads.Proofs.Records
import Uthreads.Proofs.Sleepers
import Uthreads.Proofs.Iteration
import Uthreads.Proofs.Switching
import Uthreads.Proofs.Branches
import Uthreads.Proofs.WellFormed
import Uthreads.Proofs.Preservation
import Uthreads.Proofs.Sound
import Uthreads.Proofs.Calls
import Uthreads.Proofs.Runs
import Uthreads.Proofs.Commutation
import Uthreads.Proofs.Invariant
import Uthreads.Proofs.Termination
import Uthreads.Proofs.Failure
import Uthreads.Proofs.Accounting
import Uthreads.Proofs.Simulation
import Uthreads.Proofs.Waiting
import Uthreads.Proofs.SleepLength
import Uthreads.Proofs.Statements
import Uthreads.Proofs.Expiry
import Uthreads.Proofs.Atomicity
import Uthreads.Proofs.Preemptibility
import Uthreads.Proofs.Ownership
import Uthreads.Proofs.Seats
import Uthreads.Proofs.Isolation
import Uthreads.Proofs.Phases
import Uthreads.Proofs.Orderly
import Uthreads.Proofs.SelfTermination
import Uthreads.Proofs.Access
import Uthreads.Proofs.Allocation
import Uthreads.Proofs.Alike
import Uthreads.Proofs.Reuse
import Uthreads.Proofs.Partition
import Uthreads.Proofs.PendingReads
import Uthreads.Proofs.Serialization
import Uthreads.Proofs.Refinement
import Uthreads.Proofs.Returns
import Uthreads.Proofs.Turns
import Uthreads.Proofs.Halting
import Uthreads.Proofs.Ids
import Uthreads.Proofs.Timing
import Uthreads.Proofs.SleepTime
import Uthreads.Proofs.WakeUps
import Uthreads.Nim.Model.State
import Uthreads.Nim.Model.Operations
import Uthreads.Nim.Model.Specification
import Uthreads.Nim.Model.Machine
import Uthreads.Nim.Proofs.Records
import Uthreads.Nim.Proofs.Effects
import Uthreads.Nim.Proofs.Switching
import Uthreads.Nim.Proofs.Simulation
import Uthreads.Nim.Proofs.Placement
import Uthreads.Nim.Proofs.Runs
import Uthreads.Nim.Proofs.Places
import Uthreads.Nim.Proofs.Deadlock
import Uthreads.Nim.Proofs.Dispatch
import Uthreads.Nim.Proofs.Exclusion
import Uthreads.Nim.Proofs.HandOff
import Uthreads.Nim.Proofs.Accounting
import Uthreads.Nim.Proofs.Agreement
import Uthreads.Nim.Proofs.Statements
import Uthreads.Nim.Proofs.Passes
import Uthreads.Nim.Proofs.Removal
import Uthreads.Nim.Proofs.Resumption
import Uthreads.Nim.Proofs.Preemptibility
import Uthreads.Nim.Proofs.Serialization
import Uthreads.Nim.Proofs.Holding
import Uthreads.Nim.Proofs.FirstQuantum
import Uthreads.Nim.Proofs.Memory
import Uthreads.Nim.Proofs.Ids
import Uthreads.Nim.Proofs.Pointers
import Uthreads.Nim.Proofs.Waiting
import Uthreads.Nim.Proofs.Interchange
import Uthreads.Nim.Proofs.Masks
