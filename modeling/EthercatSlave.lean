import EthercatSlave.Program
import EthercatSlave.Execution
import EthercatSlave.Interleaving
import EthercatSlave.History
import EthercatSlave.Proofs.RelyGuarantee
import EthercatSlave.Proofs.Endings
import EthercatSlave.Proofs.Visits
import EthercatSlave.Proofs.Solo
import EthercatSlave.Proofs.Runs
import EthercatSlave.Proofs.Ignoring
import EthercatSlave.Proofs.Lockstep
import EthercatSlave.Proofs.Composition
import EthercatSlave.Proofs.Budgets
import EthercatSlave.Proofs.Refinement
import EthercatSlave.Bytes
import EthercatSlave.Slave
import EthercatSlave.Shield
import EthercatSlave.SequenceLock
import EthercatSlave.Sharing
import EthercatSlave.Lan9252
import EthercatSlave.SpiBus
import EthercatSlave.Startup
import EthercatSlave.Indeterminate
import EthercatSlave.PriorMemory
import EthercatSlave.Driver
import EthercatSlave.OpenFiles
import EthercatSlave.Interrupts
import EthercatSlave.DriverLife
import EthercatSlave.UserSpaceTest
import EthercatSlave.CoreMemory
import EthercatSlave.Snapshots
import EthercatSlave.BusLoad
import EthercatSlave.Cycle
import EthercatSlave.Exchange
import EthercatSlave.Stattool
import EthercatSlave.RealTimeLoop
import EthercatSlave.Pacing
import EthercatSlave.CString
import EthercatSlave.Bashoutput
import EthercatSlave.RealTimeKernel
import EthercatSlave.Threads
import EthercatSlave.SlaveTest
import EthercatSlave.Construction
import EthercatSlave.CpuAssignment
import EthercatSlave.ThreadNames
import EthercatSlave.Priority
import EthercatSlave.NamedMutex
import EthercatSlave.MutexLife
import EthercatSlave.Proofs.Accesses
import EthercatSlave.Proofs.RegisterAccess
import EthercatSlave.Proofs.IndirectAccess
import EthercatSlave.Proofs.ProcessData
import EthercatSlave.Proofs.SpiTraffic
import EthercatSlave.Proofs.ShieldTraffic
import EthercatSlave.Proofs.Replay
import EthercatSlave.Proofs.ReadinessGate
import EthercatSlave.Proofs.InitAttempts
import EthercatSlave.Proofs.StackGarbage
import EthercatSlave.Proofs.FreshObject
import EthercatSlave.Proofs.CycleInvariant
import EthercatSlave.Proofs.FailSafe
import EthercatSlave.Proofs.RoundTrip
import EthercatSlave.Proofs.ExchangeRefinement
import EthercatSlave.Proofs.InputImage
import EthercatSlave.Proofs.Snapshots
import EthercatSlave.Proofs.Retries
import EthercatSlave.Proofs.BusLoad
import EthercatSlave.Proofs.OutputQueue
import EthercatSlave.Proofs.Samples
import EthercatSlave.Proofs.Statistics
import EthercatSlave.Proofs.CycleTimes
import EthercatSlave.Proofs.StatusLine
import EthercatSlave.Proofs.RealTimeKernel
import EthercatSlave.Proofs.ThreadLife
import EthercatSlave.Proofs.KernelCalls
import EthercatSlave.Proofs.Handlers
import EthercatSlave.Proofs.DriverResources
import EthercatSlave.Proofs.DriverStart
import EthercatSlave.Proofs.DownTimeout
import EthercatSlave.Proofs.Conservation
import EthercatSlave.Proofs.ContextOwnership
import EthercatSlave.Proofs.DriverSafety
import EthercatSlave.Proofs.UserSpaceTest
import EthercatSlave.Proofs.BusOwnership
import EthercatSlave.Proofs.CyclePacing
import EthercatSlave.Proofs.StartedBody
import EthercatSlave.Proofs.PriorityRaise
import EthercatSlave.Proofs.BalancedCpus
import EthercatSlave.Proofs.ThreadNames
import EthercatSlave.Proofs.BinarySemaphore
import EthercatSlave.Proofs.MutexExclusion
