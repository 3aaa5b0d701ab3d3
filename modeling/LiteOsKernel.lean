import LiteOsKernel.Lib.Word
import LiteOsKernel.Lib.Links
import LiteOsKernel.Lib.Tiling
import LiteOsKernel.Common
import LiteOsKernel.Mem.Membox
import LiteOsKernel.Mem.MemboxRun
import LiteOsKernel.Mem.Tlsf
import LiteOsKernel.Mem.TlsfIndex
import LiteOsKernel.Mem.TlsfInvariant
import LiteOsKernel.Mem.TlsfLists
import LiteOsKernel.Mem.TlsfNodes
import LiteOsKernel.Mem.TlsfOps
import LiteOsKernel.Mem.TlsfSearch
import LiteOsKernel.Mem.TlsfSentinels
import LiteOsKernel.Mem.TlsfInit
import LiteOsKernel.Mem.TlsfExpand
import LiteOsKernel.Mem.TlsfAlloc
import LiteOsKernel.Mem.TlsfFree
import LiteOsKernel.Mem.TlsfRealloc
import LiteOsKernel.Mem.TlsfClients
import LiteOsKernel.Mem.TlsfHeld
import LiteOsKernel.Mem.TlsfRun
import LiteOsKernel.Mem.TlsfFind
import LiteOsKernel.Mem.TlsfHeap
import LiteOsKernel.Mem.TlsfChain
import LiteOsKernel.Mem.TlsfAligned
import LiteOsKernel.Mem.TlsfContents
import LiteOsKernel.Mem.TlsfUsage
import LiteOsKernel.Mem.TlsfPools
import LiteOsKernel.Mem.TlsfFrame
import LiteOsKernel.Mem.TlsfPlain
import LiteOsKernel.Mem.KernelMalloc
import LiteOsKernel.Mem.KernelRun
import LiteOsKernel.Mem.KernelRealloc
import LiteOsKernel.Lib.Buddy
import LiteOsKernel.Vm.Phys
import LiteOsKernel.Vm.PhysInvariant
import LiteOsKernel.Vm.PhysFree
import LiteOsKernel.Vm.PhysAlloc
import LiteOsKernel.Vm.PhysRun
import LiteOsKernel.Vm.PhysContiguous
import LiteOsKernel.Lib.RbZipper
import LiteOsKernel.Lib.Ring
import LiteOsKernel.Lib.BitScan
import LiteOsKernel.Rbtree.Rbtree
import LiteOsKernel.Rbtree.Links
import LiteOsKernel.Rbtree.Rotate
import LiteOsKernel.Rbtree.Replace
import LiteOsKernel.Rbtree.Insert
import LiteOsKernel.Rbtree.Delete
import LiteOsKernel.Rbtree.Search
import LiteOsKernel.Rbtree.Remove
import LiteOsKernel.Rbtree.Add
import LiteOsKernel.Rbtree.Run
import LiteOsKernel.Rbtree.Walk
import LiteOsKernel.Vm.Map
import LiteOsKernel.Vm.Syscall
import LiteOsKernel.Vm.Regions
import LiteOsKernel.Vm.MapAlloc
import LiteOsKernel.Vm.MapSplit
import LiteOsKernel.Vm.MapRemove
import LiteOsKernel.Vm.SyscallRun
import LiteOsKernel.Vm.MapRange
import LiteOsKernel.Vm.MapCover
import LiteOsKernel.Vm.MapFlags
import LiteOsKernel.Vm.Mmu
import LiteOsKernel.Vm.MmuPage
import LiteOsKernel.Vm.Mprotect
import LiteOsKernel.Vm.Brk
import LiteOsKernel.Sched.Deadline
import LiteOsKernel.Sched.DeadlineOrder
import LiteOsKernel.Sched.DeadlinePeriod
import LiteOsKernel.Ipc.Wait
import LiteOsKernel.Ipc.Sem
import LiteOsKernel.Ipc.SemRun
import LiteOsKernel.Ipc.Rwlock
import LiteOsKernel.Ipc.RwlockRun
import LiteOsKernel.Ipc.Queue
import LiteOsKernel.Ipc.QueueRun
import LiteOsKernel.Sched.Timeout
import LiteOsKernel.Sched.TimeoutRun
import LiteOsKernel.Sched.Granted
import LiteOsKernel.Sched.Priority
import LiteOsKernel.Sched.PriorityRun
import LiteOsKernel.Sched.SortLink
import LiteOsKernel.Plimit.Plimits
import LiteOsKernel.Plimit.PlimitRun
import LiteOsKernel.Ipc.Mux
import LiteOsKernel.Ipc.MuxRun
import LiteOsKernel.Ipc.InheritRun
import LiteOsKernel.Lib.Run
import LiteOsKernel.Ipc.Event
import LiteOsKernel.Ipc.EventRun
import LiteOsKernel.Log.HiLog
import LiteOsKernel.Libscrew.CirBuf
import LiteOsKernel.Log.HiLogRun
import LiteOsKernel.Lib.Threads
import LiteOsKernel.Posix.Cond
import LiteOsKernel.Posix.CondRun
import LiteOsKernel.Task.Join
import LiteOsKernel.Task.JoinRun
import LiteOsKernel.Lib.Chain
import LiteOsKernel.Posix.Mqueue
import LiteOsKernel.Posix.MqueueRun
import LiteOsKernel.Posix.MqueueOpen
import LiteOsKernel.Ipc.Signal
import LiteOsKernel.Drivers.MtdRun
import LiteOsKernel.Ipc.SignalRun
import LiteOsKernel.Ipc.SignalValue
import LiteOsKernel.Ipc.LockOrder
import LiteOsKernel.Ipc.RwlockWait
import LiteOsKernel.Posix.Ticks
import LiteOsKernel.Posix.Clock
import LiteOsKernel.Swtmr.Recycle
import LiteOsKernel.Swtmr.TimeGet
import LiteOsKernel.Posix.TimerPeriod
import LiteOsKernel.Posix.TimerRefine
import LiteOsKernel.Posix.TimerDelete
import LiteOsKernel.Swtmr.Reset
import LiteOsKernel.Process.WaitRun
import LiteOsKernel.Lib.Ranges
import LiteOsKernel.Lib.Paths
import LiteOsKernel.Container.UserMap
import LiteOsKernel.Container.UserMapRun
import LiteOsKernel.Drivers.Disk
import LiteOsKernel.Drivers.DiskParts
import LiteOsKernel.Drivers.RecognitionLaw
import LiteOsKernel.Vm.ShmRun
import LiteOsKernel.Fs.ProcFdRun
import LiteOsKernel.Fs.FullPath
import LiteOsKernel.Fs.FullPathScan
import LiteOsKernel.Fs.FullPathNames
import LiteOsKernel.Fs.FullPathLaw
import LiteOsKernel.Bitmap.NBits
import LiteOsKernel.Fs.BcacheFlag
import LiteOsKernel.Fs.BcacheFind
import LiteOsKernel.Fs.BcacheGet
import LiteOsKernel.Fs.BcacheFlagLaw
import LiteOsKernel.Fs.Epoll
import LiteOsKernel.Fs.EpollEntries
import LiteOsKernel.Fs.EpollRun
import LiteOsKernel.Fs.ProcFdCall
import LiteOsKernel.Lib.Allocator
import LiteOsKernel.Lib.Bytes
import LiteOsKernel.Lib.Keyed
import LiteOsKernel.Lib.DlList
import LiteOsKernel.LiteIpc.LiteIpc
import LiteOsKernel.LiteIpc.Translate
import LiteOsKernel.Lib.Undo
import LiteOsKernel.LiteIpc.Rollback
import LiteOsKernel.LiteIpc.WriteRun
import LiteOsKernel.LiteIpc.WriteLoop
import LiteOsKernel.LiteIpc.WriteLaw
