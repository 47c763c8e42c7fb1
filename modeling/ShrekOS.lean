import ShrekOS.Lib.Cmd
import ShrekOS.Lib.Runs
import ShrekOS.Lib.Threads
import ShrekOS.Lib.Buddy
import ShrekOS.Lib.Coalesced
import ShrekOS.Lib.Registry
import ShrekOS.Lib.Intervals
import ShrekOS.Lib.Blocks
import ShrekOS.Lib.DList
import ShrekOS.Lib.Census
import ShrekOS.Lib.Waits
import ShrekOS.Data.Heap
import ShrekOS.Data.Ht
import ShrekOS.Data.Ll
import ShrekOS.Data.LlRules
import ShrekOS.Data.Queue
import ShrekOS.Data.CircBuf
import ShrekOS.Mem.FrameManager
import ShrekOS.Mem.FrameView
import ShrekOS.Mem.FrameRules
import ShrekOS.Mem.FrameInvariant
import ShrekOS.Mem.FrameRuns
import ShrekOS.Mem.Coalescing
import ShrekOS.Mem.PageDirectory
import ShrekOS.Mem.VmRules
import ShrekOS.Mem.Batch
import ShrekOS.Mem.Vmm
import ShrekOS.Mem.Ledger
import ShrekOS.Mem.Idle
import ShrekOS.Mem.Tenancy
import ShrekOS.Mem.UserMap
import ShrekOS.Mem.Staging
import ShrekOS.Mem.ForkCopy
import ShrekOS.Mem.Isolation
import ShrekOS.Mem.IsolationRuns
import ShrekOS.Mem.UserPages
import ShrekOS.Mem.Fork
import ShrekOS.Mem.PageCopies
import ShrekOS.Mem.ForkContents
import ShrekOS.Mem.Orderly
import ShrekOS.Mem.ForkRemoval
import ShrekOS.Mem.KernelSpace
import ShrekOS.Mem.NewPages
import ShrekOS.Mem.Answers
import ShrekOS.Mem.Sections
import ShrekOS.Mem.ZeroedPages
import ShrekOS.Mem.SectionAccess
import ShrekOS.Mem.Regions
import ShrekOS.Sched.TcbPool
import ShrekOS.Sched.Scheduler
import ShrekOS.Sched.PoolRules
import ShrekOS.Sched.PoolInvariant
import ShrekOS.Sched.PoolSteps
import ShrekOS.Sched.PoolRuns
import ShrekOS.Sched.MakeRunnable
import ShrekOS.Sched.Sleeping
import ShrekOS.Sched.SleepCall
import ShrekOS.Sched.PcbMemory
import ShrekOS.Sched.ForkCall
import ShrekOS.Sched.SchedMutex
import ShrekOS.Sched.Reaper
import ShrekOS.Locks.Mutex
import ShrekOS.Locks.LockPaths
import ShrekOS.Locks.LockOrder
import ShrekOS.Locks.Semaphore
import ShrekOS.Lib.Asm
import ShrekOS.Lib.Downward
import ShrekOS.Handlers.Swexn
import ShrekOS.Sched.LoadKstack
import ShrekOS.Sched.KernYield
import ShrekOS.Handlers.SwexnFrame
import ShrekOS.Handlers.UserPointers
import ShrekOS.Handlers.ReadFile
import ShrekOS.Handlers.Keyboard
import ShrekOS.Handlers.Echo
import ShrekOS.Handlers.UserStack
import ShrekOS.Handlers.ExecArgs
import ShrekOS.User.ThreadLib
import ShrekOS.User.ThreadPool
import ShrekOS.User.ThreadSteps
import ShrekOS.User.ThreadStacks
import ShrekOS.User.ThreadJoins
import ShrekOS.User.ThreadMoves
import ShrekOS.User.ThreadQueues
import ShrekOS.User.FirstJoin
import ShrekOS.User.RwLock
import ShrekOS.User.RwOrder
import ShrekOS.Mem.RemovalTlb
import ShrekOS.Mem.NewPageAccess
import ShrekOS.Mem.BatchReplay
import ShrekOS.Data.LlOps
import ShrekOS.Data.LlSorted
import ShrekOS.Data.LlRuns
import ShrekOS.Data.HtHeap
import ShrekOS.User.UserList
import ShrekOS.Console.Calls
import ShrekOS.Console.Printing
import ShrekOS.User.Autostack
import ShrekOS.User.ThreadCalls
import ShrekOS.User.StackBottom
import ShrekOS.Mem.SectionLookup
import ShrekOS.Locks.Handshake
import ShrekOS.Locks.Signalling
import ShrekOS.Sched.RoundRobin
import ShrekOS.Sched.RoundRobinRuns
import ShrekOS.Locks.Interrupts
import ShrekOS.Sched.WaitCalls
import ShrekOS.Locks.LockBalance
import ShrekOS.Sched.YieldTo
import ShrekOS.Sched.ProcTree
import ShrekOS.Sched.ChildCount
import ShrekOS.Lib.Reaper
import ShrekOS.Lib.Post
import ShrekOS.Sched.Teardown
import ShrekOS.Sched.ExitStatus
import ShrekOS.Handlers.LineInput
import ShrekOS.Handlers.Traps
import ShrekOS.Mem.LoadElf
import ShrekOS.Handlers.Exceptions
import ShrekOS.Lib.Gates
import ShrekOS.Handlers.Idt
import ShrekOS.Lib.Monitors
import ShrekOS.Locks.SemSteps
import ShrekOS.User.UserSem
import ShrekOS.Mem.SectionWords
