import LearnInternet.Lib.Text
import LearnInternet.Lib.Decimal
import LearnInternet.Lib.UnorderedMap
import LearnInternet.Lib.SearchTree
import LearnInternet.Socket
import LearnInternet.Http.Codec
import LearnInternet.Http.Decode
import LearnInternet.Http.Grammar
import LearnInternet.Http.Router
import LearnInternet.Http.WebRoot
import LearnInternet.Http.Server
import LearnInternet.Http.Requests
import LearnInternet.Http.Answer
import LearnInternet.Calculator.Protocol
import LearnInternet.Calculator.Frames
import LearnInternet.Lib.Spans
import LearnInternet.Lib.Runs
import LearnInternet.Tcp.ByteStream
import LearnInternet.Tcp.Reassembler
import LearnInternet.Tcp.Cache
import LearnInternet.Tcp.Reassembly
import LearnInternet.Tcp.Wrap32
import LearnInternet.Tcp.Receiver
import LearnInternet.Tcp.Acknowledgment
import LearnInternet.Tcp.Messages
import LearnInternet.Tcp.Sender
import LearnInternet.Tcp.Transmission
import LearnInternet.Tcp.Push
import LearnInternet.Tcp.Delivery
import LearnInternet.Chat.Address
import LearnInternet.Chat.Server
import LearnInternet.Lib.Counting
import LearnInternet.Lib.Distinct
import LearnInternet.Chat.FanOut
import LearnInternet.Chat.ThreadPool
import LearnInternet.Chat.PoolSafety
import LearnInternet.Chat.Relay
import LearnInternet.Chat.Attribution
import LearnInternet.Chat.Order
import LearnInternet.Tcp.Closing
import LearnInternet.Tcp.ReassemblerV1
import LearnInternet.Tcp.CutCache
import LearnInternet.Tcp.ReassemblyV1
import LearnInternet.Tcp.TraceV1
import LearnInternet.Tcp.Rewrite
import LearnInternet.Tcp.Accounting
import LearnInternet.Tcp.Unwrap
import LearnInternet.Tcp.Fifo
import LearnInternet.Ownership
import LearnInternet.Calculator.Server
import LearnInternet.Calculator.Client
import LearnInternet.Calculator.Session
import LearnInternet.Calculator.Leftover
import LearnInternet.Calculator.Peers
import LearnInternet.Http.Deliverable
import LearnInternet.Tcp.Flow
import LearnInternet.Tcp.Held
import LearnInternet.Tcp.FlowControl
import LearnInternet.Http.RoundTrip
import LearnInternet.Http.RequestLine
import LearnInternet.Http.ContentType
import LearnInternet.Http.Delivery
import LearnInternet.Http.ContentLength
import LearnInternet.Calculator.FrameLengths
import LearnInternet.Calculator.Waiting
import LearnInternet.Calculator.Input
import LearnInternet.TcpServerV3.Protocol
import LearnInternet.Chat.FailedReceive
import LearnInternet.Chat.Client
import LearnInternet.Chat.ClearTrash
import LearnInternet.Chat.StatusWord
import LearnInternet.EasyLog
import LearnInternet.TcpServer.Connections
import LearnInternet.Tcp.StaysClosed
import LearnInternet.TcpClient
import LearnInternet.TcpServerV3.Lifetimes
import LearnInternet.Tcp.Drain
import LearnInternet.Tcp.Timer
import LearnInternet.Tcp.Copied
import LearnInternet.Lib.Simulation
import LearnInternet.Lib.Pipe
import LearnInternet.Tcp.Segments
import LearnInternet.Tcp.Connection
import LearnInternet.Lib.Tiles
import LearnInternet.Tcp.Window
import LearnInternet.Tcp.Ending
import LearnInternet.Tcp.Flowing
import LearnInternet.Tcp.Reliability
import LearnInternet.Tcp.Progress
import LearnInternet.Lib.Descriptors
import LearnInternet.TcpServer.Forking
import LearnInternet.TcpServer.Roles
import LearnInternet.TcpServer.ForkingRuns
import LearnInternet.Calculator.Conversation
import LearnInternet.Http.Exchange
import LearnInternet.Chat.PooledServer
import LearnInternet.Lib.Network
import LearnInternet.Chat.Destination
import LearnInternet.Chat.Room
import LearnInternet.Chat.Settling
import LearnInternet.Udp.Service
