import Skt.Lib.Double
import Skt.Lib.Overlay
import Skt.Lib.CString
import Skt.Lib.Ragel
import Skt.Lib.Trie
import Skt.Lib.TwoRuns
import Skt.Lib.Bytes
import Skt.ByteArray.Model
import Skt.ByteArray.Flat
import Skt.ByteArray.Refine
import Skt.ByteArray.Runs
import Skt.ByteArray.Reach
import Skt.ByteArray.Buffers
import Skt.ByteArray.Peek
import Skt.ByteArray.Files
import Skt.ByteArray.Codec
import Skt.ByteArray.RoundTrip
import Skt.ByteArray.Each
import Skt.ByteArray.Varint
import Skt.Lib.Groups
import Skt.ByteArray.Floats
import Skt.ByteArray.Strings
import Skt.Lib.Grammar
import Skt.Lib.Recognize
import Skt.Lib.Refinement
import Skt.Lib.Segment
import Skt.Lib.Follow
import Skt.Lib.Decimal
import Skt.Uri.Table
import Skt.Uri.Model
import Skt.Uri.Grammar
import Skt.Uri.Layout
import Skt.Uri.Run
import Skt.Uri.Parts
import Skt.Uri.Reference
import Skt.Uri.EmptyPort
import Skt.Uri.Correct
import Skt.Uri.Port
import Skt.Uri.RoundTrip
import Skt.Uri.Language
import Skt.Http.Message
import Skt.Http.Scanner
import Skt.Http.RequestTable
import Skt.Http.RequestParser
import Skt.Http.Method
import Skt.Http.ResponseTable
import Skt.Http.ResponseParser
import Skt.Http.Segments
import Skt.Http.Pieces
import Skt.Http.Memory
import Skt.Stream.SocketStream
import Skt.Stream.FixSize
import Skt.Stream.Buffers
import Skt.Http.Receive
import Skt.Http.Session
import Skt.Http.Connection
import Skt.Http.Body
import Skt.Http.Chunked
import Skt.Http.Dump
import Skt.Http.Fields
import Skt.Http.ResponseText
import Skt.Http.ResponseRoundTrip
import Skt.Http.RequestGrammar
import Skt.Http.RequestText
import Skt.Http.RequestRoundTrip
import Skt.Http.Server
import Skt.Lib.Machine
import Skt.Lib.OrderedSet
import Skt.Lib.Yaml
import Skt.Lib.Loops
import Skt.Lib.Tally
import Skt.Http.Pool
import Skt.Lib.Word
import Skt.Address.IPv4
import Skt.Address.IPv6
import Skt.Address.Text
import Skt.Address.Lookup
import Skt.Http.PoolHistory
import Skt.Http.Client
import Skt.Http.Servlet
import Skt.IOManager.Model
import Skt.IOManager.Context
import Skt.IOManager.Dispatch
import Skt.IOManager.Resize
import Skt.IOManager.History
import Skt.IOManager.Invariant
import Skt.Scheduler.Model
import Skt.Scheduler.Queue
import Skt.Scheduler.Safety
import Skt.Scheduler.Exclusive
import Skt.Scheduler.Counts
import Skt.Scheduler.Stopping
import Skt.Scheduler.Wakeup
import Skt.Scheduler.Pinned
import Skt.Thread.Start
import Skt.Timer.Model
import Skt.Timer.Invariant
import Skt.Timer.Expire
import Skt.Timer.Table
import Skt.Timer.Once
import Skt.Timer.Idle
import Skt.Timer.Tickled
import Skt.Timer.Due
import Skt.IOManager.Serves
import Skt.Hook.Model
import Skt.Hook.Timeout
import Skt.Hook.Close
import Skt.Config.ConfigVar
import Skt.Config.Load
import Skt.Log.Model
import Skt.Log.Reload
import Skt.Log.Appenders
import Skt.Log.Formatter
import Skt.Log.Lexical
import Skt.FdManager.Model
import Skt.FdManager.Create
import Skt.Hook.Nonblock
import Skt.Hook.Sleep
import Skt.Mutex.Locks
