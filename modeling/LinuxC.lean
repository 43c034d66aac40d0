import LinuxC.Framework.ByteMemory
import LinuxC.Framework.DeadlineQueue
import LinuxC.Framework.OrderedList
import LinuxC.Framework.RedBlackTree
import LinuxC.Framework.IntrusiveList
import LinuxC.Framework.StableQueue
import LinuxC.Framework.Turns
import LinuxC.Framework.Transition
import LinuxC.Framework.Threads
import LinuxC.Framework.WorkerPool
import LinuxC.Framework.Slab
import LinuxC.Framework.SearchTree
import LinuxC.Framework.SerialNumber
import LinuxC.Framework.Vine
import LinuxC.Framework.CharLoop
import LinuxC.Framework.DefaultMap
import LinuxC.Framework.EventBus
import LinuxC.Common.CString
import LinuxC.Common.Lines
import LinuxC.Common.ListHead
import LinuxC.Common.GenericBit
import LinuxC.Common.BitSearch
import LinuxC.Common.LogBackup
import LinuxC.Common.Logging
import LinuxC.Common.LogLength
import LinuxC.Common.GenericProc
import LinuxC.Common.Scl
import LinuxC.Common.SclText
import LinuxC.Gcl.Model
import LinuxC.Common.ParserLoops
import LinuxC.Gcl.Table
import LinuxC.Gcl.Store
import LinuxC.Gcl.Loading
import LinuxC.Gcl.Values
import LinuxC.Gcl.Saving
import LinuxC.Ipc.Message
import LinuxC.Ipc.FindMsg
import LinuxC.Ipc.SocketHandler
import LinuxC.Ipc.Skipping
import LinuxC.Ipc.Subscriber
import LinuxC.Ipc.Bits
import LinuxC.Ipc.Server
import LinuxC.Ipc.Handles
import LinuxC.Ipc.Buckets
import LinuxC.Ipc.Reception
import LinuxC.Ipc.ServerLoop
import LinuxC.Ipc.RecvMsg
import LinuxC.Ipc.Ways
import LinuxC.Ipc.Request
import LinuxC.Ipc.Handshake
import LinuxC.Ipc.Bounds
import LinuxC.Ipc.Notify
import LinuxC.Ipc.Client
import LinuxC.Ipc.Reconnect
import LinuxC.Ipc.Tokens
import LinuxC.Ipc.Publish
import LinuxC.Ipc.SelectSet
import LinuxC.Ipc.Resync
import LinuxC.Ipc.Routing
import LinuxC.Ipc.Lengths
import LinuxC.Ipc.Overreads
import LinuxC.Ipc.Ranks
import LinuxC.Ipc.Overlap
import LinuxC.Ipc.Helpers
import LinuxC.Ipc.Lifecycle
import LinuxC.Ipc.Conduct
import LinuxC.Ipc.Sockets
import LinuxC.Ipc.Timing
import LinuxC.Ipc.Expiry
import LinuxC.Ipc.TimingCalls
import LinuxC.Ipc.Async
import LinuxC.Ipc.AsyncLife
import LinuxC.Ipc.AsyncPool
import LinuxC.Ipc.AsyncExecute
import LinuxC.Ipc.AsyncBinding
import LinuxC.RbTree.Model
import LinuxC.RbTree.Layout
import LinuxC.RbTree.Rebalance
import LinuxC.RbTree.Operations
import LinuxC.RbTree.OrderedSet
import LinuxC.RbTree.Loops
import LinuxC.RbTree.Next
import LinuxC.RbTree.Walk
import LinuxC.Bst.Model
import LinuxC.Bst.Layout
import LinuxC.Bst.Destroy
import LinuxC.Bst.Operations
import LinuxC.Bst.OrderedSet
import LinuxC.Bst.Balance
import LinuxC.Bst.Height
import LinuxC.Bst.Iterator
import LinuxC.Bst.Traversal
import LinuxC.Bst.Iteration
import LinuxC.Bst.Stability
import LinuxC.Bst.Retry
import LinuxC.Bst.Visit
import LinuxC.Bst.Walk
import LinuxC.Mcd.Model
import LinuxC.Mcd.Waiting
import LinuxC.Mcd.Answers
import LinuxC.Mcd.Clients
import LinuxC.Mcd.Records
import LinuxC.Mcd.Supervision
import LinuxC.Mcd.Inspection
import LinuxC.Mcd.Indices
import LinuxC.MemPool.Model
import LinuxC.MemPool.Refinement
import LinuxC.MemPool.Safety
import LinuxC.MemPool.Pool
import LinuxC.MemPool.Cleanup
import LinuxC.MemPool.Spare
import LinuxC.MemPool.Pages
import LinuxC.ThreadPool.Model
import LinuxC.ThreadPool.Jobs
import LinuxC.ThreadPool.Sections
import LinuxC.ThreadPool.Accounting
import LinuxC.Timer.Model
import LinuxC.Timer.Steps
import LinuxC.Timer.Schedule
import LinuxC.Timer.Destroy
import LinuxC.Timer.Table
import LinuxC.Timer.TreeTable
import LinuxC.Timer.Wraparound
import LinuxC.Timer.Wakeup
import LinuxC.Timer.Execution
import LinuxC.Timer.Deadline
import LinuxC.Timer.Drift
import LinuxC.Timer.Pool
import LinuxC.Timer.Pending
import LinuxC.Timer.Quiescence
import LinuxC.Uapi.Register
import LinuxC.Uapi.Broker
import LinuxC.Uapi.Events
import LinuxC.Uapi.Allocation
import LinuxC.Uapi.ClientTable
import LinuxC.Uapi.Registry
import LinuxC.Uapi.Push
import LinuxC.Uapi.Delivery
import LinuxC.Uapi.Method
import LinuxC.Uapi.Invoke
import LinuxC.Uapi.Multiplex
import LinuxC.Mcd.Cmdline
import LinuxC.Mcd.Latch
import LinuxC.Mcd.Guard
import LinuxC.Mcd.Guarding
import LinuxC.Mcd.Shutdown
import LinuxC.Mcd.GuardConf
import LinuxC.Mcd.Config
import LinuxC.Mcd.GuardRun
import LinuxC.Co.Model
import LinuxC.Co.Queues
import LinuxC.Co.SleepTree
import LinuxC.Co.Sleep
import LinuxC.Co.Timeout
import LinuxC.Co.Socket
import LinuxC.Co.Scheduling
import LinuxC.Co.Sleepers
import LinuxC.Co.Expire
