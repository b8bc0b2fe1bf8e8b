import DmmrOrbit.Lib.Transition
import DmmrOrbit.Lib.Cyclic
import DmmrOrbit.Lib.BoundedFifo
import DmmrOrbit.Lib.BinaryInsertion
import DmmrOrbit.Lib.Batching
import DmmrOrbit.Lib.Mutex
import DmmrOrbit.Lib.TryBlock
import DmmrOrbit.Structs
import DmmrOrbit.Node.RecvManager
import DmmrOrbit.Node.Queue
import DmmrOrbit.Node.Drain
import DmmrOrbit.Socket.Net
import DmmrOrbit.Socket.UdpReceiver
import DmmrOrbit.Socket.TcpReceiver
import DmmrOrbit.Socket.Pools
import DmmrOrbit.CircleBuffer.Ring
import DmmrOrbit.CircleBuffer.FifoWorker
import DmmrOrbit.Session.SessionWorker
import DmmrOrbit.Socket.Send
import DmmrOrbit.Session.SessionPool
import DmmrOrbit.Session.SessionConnection
import DmmrOrbit.Session.Flush
import DmmrOrbit.Session.Concurrent
import DmmrOrbit.Session.Batching
import DmmrOrbit.Session.Capacity
import DmmrOrbit.Socket.ReceivePath
import DmmrOrbit.Socket.QueueEntries
import DmmrOrbit.Socket.Locks
import DmmrOrbit.Plugin.TrunkPlugin
import DmmrOrbit.Socket.Stamp
import DmmrOrbit.Socket.TcpSetup
import DmmrOrbit.Plugin.Links
import DmmrOrbit.Socket.TcpDelivery
import DmmrOrbit.Scheduler.Slots
import DmmrOrbit.Scheduler.Dispatch
import DmmrOrbit.Scheduler.NullSession
import DmmrOrbit.Scheduler.TimeBase
import DmmrOrbit.Socket.Teardown
import DmmrOrbit.Lib.Lexer
import DmmrOrbit.Parser.Scanner
import DmmrOrbit.Parser.Console
import DmmrOrbit.Parser.RoundTrip
import DmmrOrbit.Parser.Statements
import DmmrOrbit.Parser.Crc
import DmmrOrbit.Parser.Reload
import DmmrOrbit.Lib.OverwritingRing
import DmmrOrbit.Log.RbLog
import DmmrOrbit.Log.LogThread
import DmmrOrbit.Server.Start
import DmmrOrbit.Lib.CircleQueue
import DmmrOrbit.Node.Recicle
import DmmrOrbit.Node.CopyBuffer
import DmmrOrbit.Parser.Numbers
import DmmrOrbit.CircleBuffer.Lap
import DmmrOrbit.CircleBuffer.Behind
import DmmrOrbit.Socket.Uri
import DmmrOrbit.Growth
import DmmrOrbit.Lib.Attempt
import DmmrOrbit.Socket.Service
import DmmrOrbit.Socket.Endpoint
import DmmrOrbit.Socket.AcceptSetup
import DmmrOrbit.Plugin.Registration
import DmmrOrbit.Lib.ByteMemory
import DmmrOrbit.Funcs.Copy
import DmmrOrbit.Lib.ZeroByte
import DmmrOrbit.Funcs.Vlen
import DmmrOrbit.Lib.Crc
import DmmrOrbit.Log.LogLine
import DmmrOrbit.Session.Counter
import DmmrOrbit.Socket.UdpReply
import DmmrOrbit.Lib.Sweep
import DmmrOrbit.Session.Shutdown
import DmmrOrbit.Lib.Matcher
import DmmrOrbit.Parser.Tables
import DmmrOrbit.Parser.Yylex
import DmmrOrbit.Parser.YylexRun
import DmmrOrbit.Lib.CrcErrors
import DmmrOrbit.Parser.Edits
import DmmrOrbit.Lib.Monitor
import DmmrOrbit.Log.Wakeup
import DmmrOrbit.Session.ArrivalSort
import DmmrOrbit.Lib.Routing
import DmmrOrbit.Session.NodeOrder
import DmmrOrbit.Session.SharedRing
import DmmrOrbit.Lib.Linearizable
import DmmrOrbit.Node.Threads
import DmmrOrbit.Server.LifeCycle
import DmmrOrbit.Scheduler.Inserts
