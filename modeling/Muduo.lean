import Muduo.Foundations.Machine
import Muduo.Foundations.Slices
import Muduo.Foundations.Guards
import Muduo.Foundations.History
import Muduo.Foundations.OrderedSet
import Muduo.Foundations.OrderedMap
import Muduo.Foundations.Incremental
import Muduo.Foundations.BigEndian
import Muduo.Foundations.Numerals
import Muduo.Foundations.LowerBound
import Muduo.Foundations.Readers
import Muduo.Foundations.Search
import Muduo.Foundations.Runs
import Muduo.Foundations.Deadlines
import Muduo.Foundations.Monitor
import Muduo.Foundations.Int32
import Muduo.Foundations.Queues
import Muduo.Foundations.Ring
import Muduo.Foundations.Loops
import Muduo.Foundations.ExactCover
import Muduo.Foundations.Striped
import Muduo.Base.Text
import Muduo.Base.Timestamp
import Muduo.Base.Date
import Muduo.Base.UtcTime
import Muduo.Base.TimeZone
import Muduo.Base.ZoneFile
import Muduo.Base.FixedBuffer
import Muduo.Base.LogStream
import Muduo.Base.Logging
import Muduo.Base.LogTime
import Muduo.Base.LogFile
import Muduo.Base.BoundedBlockingQueue
import Muduo.Base.ThreadPool
import Muduo.Base.AsyncLogging
import Muduo.Buffer.Basic
import Muduo.Buffer.Refinement
import Muduo.Buffer.Integers
import Muduo.Buffer.TypedIntegers
import Muduo.Buffer.ZlibStream
import Muduo.Connection.Channel
import Muduo.Connection.TcpConnection
import Muduo.Connection.Output
import Muduo.Connection.Notifications
import Muduo.Connection.Outlet
import Muduo.Connection.Lifecycle
import Muduo.Connection.GracefulShutdown
import Muduo.Connection.Closing
import Muduo.EventLoop.Batch
import Muduo.Connection.StopRead
import Muduo.Connection.Destroying
import Muduo.Client.Connector
import Muduo.Client.Attempts
import Muduo.Client.TcpClient
import Muduo.Server.TcpServer
import Muduo.Server.Accepting
import Muduo.Server.Bookkeeping
import Muduo.Server.ServerProcess
import Muduo.Server.Destruction
import Muduo.Server.Quitting
import Muduo.EventLoop.Removal
import Muduo.Poller.Poller
import Muduo.Poller.EPollPoller
import Muduo.Poller.PollPoller
import Muduo.Poller.PollArray
import Muduo.Poller.Agreement
import Muduo.EventLoop.EventLoop
import Muduo.EventLoop.Wakeup
import Muduo.EventLoop.EventLoopThread
import Muduo.Timers.TimerQueue
import Muduo.Timers.Consistency
import Muduo.Timers.Reentrancy
import Muduo.Timers.Firing
import Muduo.Timers.Arming
import Muduo.Timers.Lives
import Muduo.Timers.Silence
import Muduo.Timers.CrossThread
import Muduo.Codec.ProtobufCodecLite
import Muduo.Codec.Decoder
import Muduo.Codec.RoundTrip
import Muduo.Codec.Errors
import Muduo.Codec.Lengths
import Muduo.Codec.Wire
import Muduo.Rpc.RpcChannel
import Muduo.Rpc.Matching
import Muduo.Http.Message
import Muduo.Http.HttpContext
import Muduo.Http.Segmentation
import Muduo.Http.HttpServer
import Muduo.Http.Pending
import Muduo.Http.Grammar
import Muduo.Http.Pipelining
import Muduo.Http.BadRequest
import Muduo.Http.HeaderSection
import Muduo.Http.ParseLoop
import Muduo.Inspect.Path
import Muduo.Inspect.Inspector
import Muduo.Sudoku.Solver
import Muduo.Sudoku.DancingLinks
import Muduo.Sudoku.Search
import Muduo.Sudoku.Matrix
import Muduo.Sudoku.Rules
import Muduo.Memcached.Store
import Muduo.Memcached.Session
import Muduo.Memcached.Protocol
import Muduo.Memcached.Client
import Muduo.Hub.Codec
import Muduo.Hub.PubSub
import Muduo.Hub.Board
import Muduo.Hub.Delivery
import Muduo.Connection.ConnState
import Muduo.Foundations.Wheel
import Muduo.Idle.TimingWheel
import Muduo.Idle.SortedList
import Muduo.Base.TaskOrder
import Muduo.Chat.Codec
import Muduo.Chat.Server
