import Portalocker.Combine.Inlining
import Portalocker.Combine.Layout
import Portalocker.Combine.ReadFile
import Portalocker.Combine.Recognition
import Portalocker.Combine.Statements
import Portalocker.Combine.Text
import Portalocker.Foundation.Alone
import Portalocker.Foundation.Arbiter
import Portalocker.Foundation.Calls
import Portalocker.Foundation.Chains
import Portalocker.Foundation.Crash
import Portalocker.Foundation.Discipline
import Portalocker.Foundation.Executions
import Portalocker.Foundation.Expansion
import Portalocker.Foundation.FileSystem
import Portalocker.Foundation.History
import Portalocker.Foundation.Kinds
import Portalocker.Foundation.Machine
import Portalocker.Foundation.Ported
import Portalocker.Foundation.Program
import Portalocker.Foundation.Progress
import Portalocker.Foundation.Regions
import Portalocker.Foundation.RelyGuarantee
import Portalocker.Foundation.Sequential
import Portalocker.Foundation.Stuck
import Portalocker.Redis.Agreement
import Portalocker.Redis.Channel
import Portalocker.Redis.Cleanup
import Portalocker.Redis.Connections
import Portalocker.Redis.Election
import Portalocker.Redis.Exclusion
import Portalocker.Redis.Holder
import Portalocker.Redis.Lifecycle
import Portalocker.Redis.Lock
import Portalocker.Redis.LockRules
import Portalocker.Redis.Messages
import Portalocker.Redis.Names
import Portalocker.Redis.Outcomes
import Portalocker.Redis.Probe
import Portalocker.Redis.Protocol
import Portalocker.Redis.Reaping
import Portalocker.Redis.Recovery
import Portalocker.Redis.Replies
import Portalocker.Redis.Session
import Portalocker.Types
import Portalocker.Utils.Acquisition
import Portalocker.Utils.Attempts
import Portalocker.Utils.BoundedSemaphore
import Portalocker.Utils.Capacity
import Portalocker.Utils.Classification
import Portalocker.Utils.Contention
import Portalocker.Utils.Contract
import Portalocker.Utils.Crashes
import Portalocker.Utils.CriticalSections
import Portalocker.Utils.Deadlock
import Portalocker.Utils.ErrorChains
import Portalocker.Utils.Exclusion
import Portalocker.Utils.FailedAcquire
import Portalocker.Utils.Litter
import Portalocker.Utils.Lock
import Portalocker.Utils.LockFileCalls
import Portalocker.Utils.LockRules
import Portalocker.Utils.NoReplace
import Portalocker.Utils.OpenAtomic
import Portalocker.Utils.Operations
import Portalocker.Utils.Ownership
import Portalocker.Utils.OwnershipFlag
import Portalocker.Utils.PathSwaps
import Portalocker.Utils.PidFileLock
import Portalocker.Utils.Publication
import Portalocker.Utils.PublicationErrors
import Portalocker.Utils.Reacquisition
import Portalocker.Utils.ReadersWriters
import Portalocker.Utils.Recovery
import Portalocker.Utils.ReentrantLock
import Portalocker.Utils.RetryLoop
import Portalocker.Utils.RetryPolicy
import Portalocker.Utils.Schedule
import Portalocker.Utils.SharedLocks
import Portalocker.Utils.SlotCalls
import Portalocker.Utils.Slots
import Portalocker.Utils.Sweeps
import Portalocker.Utils.TemporaryFile
import Portalocker.Utils.VerifiedAcquire
import Portalocker.Utils.Waiting
import Portalocker.Utils.WithStatements
import Portalocker.Utils.World
import Portalocker.Windows.Exclusion
import Portalocker.Windows.Handover
import Portalocker.Windows.Lockers
import Portalocker.Windows.OwnershipFlag
import Portalocker.Windows.PidFileLock
import Portalocker.Windows.Releases
