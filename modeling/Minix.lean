import Minix.Lib.Chain
import Minix.Lib.Run
import Minix.Lib.Graph
import Minix.Lib.Queues
import Minix.Lib.Channel
import Minix.Lib.DList
import Minix.Lib.Loop
import Minix.Lib.UpdateAll
import Minix.Lib.FoldM
import Minix.Lib.RefCount
import Minix.Lib.Prog
import Minix.Lib.Gapped
import Minix.Lib.Bytes
import Minix.Lib.DoubleWord
import Minix.Lib.Spans
import Minix.Kernel.Types
import Minix.Kernel.Sched
import Minix.Kernel.Ipc
import Minix.Kernel.System
import Minix.Kernel.Boot
import Minix.Kernel.View
import Minix.Kernel.CallerQ
import Minix.Kernel.Effects
import Minix.Kernel.Death
import Minix.Kernel.Steps
import Minix.Kernel.CallerQueues
import Minix.Kernel.Deadlock
import Minix.Kernel.ReadyQ
import Minix.Kernel.Quantum
import Minix.Kernel.Flows
import Minix.Kernel.Rendezvous
import Minix.Kernel.Tables
import Minix.Kernel.Async
import Minix.Kernel.Signals
import Minix.Kernel.SigCalls
import Minix.Kernel.SigSteps
import Minix.Kernel.Delay
import Minix.Kernel.Frame
import Minix.Kernel.VmRequests
import Minix.Kernel.VmFrame
import Minix.Kernel.VmInv
import Minix.Kernel.VmChains
import Minix.Kernel.Privileges
import Minix.Kernel.PrivFrame
import Minix.Kernel.PrivOwned
import Minix.Kernel.PrivOwners
import Minix.Kernel.MaskEdits
import Minix.Kernel.SendMasks
import Minix.Kernel.Interrupt
import Minix.Kernel.IrqHooks
import Minix.Kernel.IrqMasks
import Minix.Kernel.Moves
import Minix.Kernel.Leaves
import Minix.Kernel.Notified
import Minix.Kernel.Cleanup
import Minix.Kernel.Endpoints
import Minix.Kernel.Copy
import Minix.Kernel.Grants
import Minix.Kernel.VSafecopy
import Minix.Mfs.Cache
import Minix.Mfs.CacheInv
import Minix.Mfs.Coherence
import Minix.Mfs.CacheStructure
import Minix.Mfs.ReadOnly
import Minix.Mfs.Scattered
import Minix.Mfs.Path
import Minix.Mfs.PathLoop
import Minix.Vfs.Lookup
import Minix.Vfs.Confine
import Minix.Vfs.Lock
import Minix.Vfs.LockTable
import Minix.Vfs.LockRun
import Minix.Vfs.LockTrace
import Minix.Vfs.Tables
import Minix.Vfs.Mount
import Minix.Vfs.Refs
import Minix.Vfs.Files
import Minix.Vfs.Owners
import Minix.Vfs.Seek
import Minix.Vfs.Positions
import Minix.Vfs.BlockOwners
import Minix.Ipc.Sem
import Minix.Ipc.SemWait
import Minix.Ipc.SemServe
import Minix.Ipc.SemRun
import Minix.Ipc.SemAtomic
import Minix.Rs.Manager
import Minix.Rs.Instances
import Minix.Rs.Reaping
import Minix.Pm.Alarm
import Minix.Pm.AlarmTimes
import Minix.Vm.Alloc
import Minix.Vm.AllocPages
import Minix.Vm.AllocMem
import Minix.Tmrs.Clock
import Minix.Inet.Reassemble
import Minix.Inet.ReassembleRun
import Minix.Inet.Options
import Minix.Vm.PageTable
import Minix.Inet.Checksum
