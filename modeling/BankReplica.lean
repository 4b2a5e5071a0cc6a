import BankReplica.Library.Runs
import BankReplica.Library.KeyedList
import BankReplica.Library.RoundBits
import BankReplica.Address
import BankReplica.State
import BankReplica.Replication
import BankReplica.Transactions
import BankReplica.Accounts
import BankReplica.Roles
import BankReplica.Library.DoubleEntry
import BankReplica.Calls
import BankReplica.Conservation
import BankReplica.Overdraft
import BankReplica.Updates
import BankReplica.Lockstep
import BankReplica.Registration
import BankReplica.Bookkeeping
import BankReplica.Snapshot
import BankReplica.Resync
import BankReplica.AccountView
import BankReplica.Convergence
import BankReplica.ClientProcess
import BankReplica.Sequencing
import BankReplica.ExactlyOnce
import BankReplica.ClientReports
import BankReplica.Node
import BankReplica.RequestThreads
import BankReplica.Effects
import BankReplica.Cluster
import BankReplica.Detection
import BankReplica.Elections
import BankReplica.Failover
import BankReplica.Bully
import BankReplica.Rivals
import BankReplica.Library.RwLock
import BankReplica.Library.RwLockThreads
import BankReplica.Locks
import BankReplica.SequenceWindow
import BankReplica.BackupList
import BankReplica.Obligations
import BankReplica.Library.Leadership
import BankReplica.Handover
import BankReplica.Library.PolledRegister
import BankReplica.OperatorLog
import BankReplica.DeliveryOrder
import BankReplica.LockProgress
import BankReplica.Acceptance
import BankReplica.BalanceRange
import BankReplica.TotalTransferred
import BankReplica.Library.GrowingVector
import BankReplica.StaleIterators
import BankReplica.Library.Schedules
import BankReplica.Workloads
import BankReplica.Library.ByteOrder
import BankReplica.Resumption
import BankReplica.WireFormat
import BankReplica.CommandLines
import BankReplica.ClientProgram
import BankReplica.ClientTermination
import BankReplica.ClientTranscript
import BankReplica.Deployment
import BankReplica.EndToEnd
import BankReplica.Library.Linearization
import BankReplica.Linearizability
import BankReplica.Backlog
import BankReplica.ConsistentReads
import BankReplica.Standstill
