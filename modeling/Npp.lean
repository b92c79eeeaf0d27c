import Npp.Foundation.Machine
import Npp.Foundation.Exchange
import Npp.Foundation.PriorityQueue
import Npp.Foundation.Flow
import Npp.Foundation.LittleEndian
import Npp.Foundation.HandleTable
import Npp.Foundation.FileTable
import Npp.Foundation.NodeList
import Npp.Foundation.Intervals
import Npp.Foundation.AddressSpace
import Npp.Foundation.CString
import Npp.Foundation.Duplex
import Npp.Basic.Bytes
import Npp.Basic.Buffer
import Npp.Basic.Ownership
import Npp.Basic.Backtrace
import Npp.Basic.Thread
import Npp.Task.Result
import Npp.Task.Channel
import Npp.Task.ChannelSystem
import Npp.Task.ChannelFifo
import Npp.Task.ChannelAccount
import Npp.Task.ChannelClose
import Npp.Task.ChannelShape
import Npp.Task.ChannelOrder
import Npp.Task.Scheduler
import Npp.Task.Looper
import Npp.Task.LooperJoin
import Npp.Task.SchedulerJoin
import Npp.Task.Elastic
import Npp.Task.Pause
import Npp.Task.Callbacks
import Npp.Task.WriteOnce
import Npp.Task.AwaitChain
import Npp.Task.Program
import Npp.Task.ProgramStep
import Npp.Task.ProgramRun
import Npp.Task.Reentry
import Npp.Task.Lifetime
import Npp.Task.Keeper
import Npp.Task.Handles
import Npp.Task.InlineClose
import Npp.Task.Check
import Npp.Task.Teardown
import Npp.Task.GetResult
import Npp.Task.Deadlines
import Npp.Task.Load
import Npp.Task.Sleep
import Npp.Task.Waking
import Npp.Task.Staff
import Npp.Task.TakeUp
import Npp.Task.Pooled
import Npp.Task.PooledRun
import Npp.Network.Message
import Npp.Network.Receive
import Npp.Network.Segmentation
import Npp.Network.Hostile
import Npp.Network.Grammar
import Npp.Network.Node
import Npp.Network.Registry
import Npp.Network.Disconnect
import Npp.Network.Send
import Npp.Network.Stop
import Npp.Network.RankReport
import Npp.Network.Encode
import Npp.Network.Unknown
import Npp.Network.StaleClear
import Npp.Network.Manager
import Npp.Network.Holders
import Npp.Network.Epoll
import Npp.Network.CloseOnce
import Npp.Network.History
import Npp.Network.Register
import Npp.Network.Retry
import Npp.Network.Atomic
import Npp.Network.Startup
import Npp.Network.Assemble
import Npp.Network.Delivery
import Npp.Network.Cluster
import Npp.Network.Arrival
