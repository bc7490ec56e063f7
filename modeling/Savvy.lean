import Savvy.Kit.System
import Savvy.Kit.Framing
import Savvy.Kit.Buffer
import Savvy.Kit.Memory
import Savvy.Kit.Calls
import Savvy.Kit.Words
import Savvy.Kit.Locks
import Savvy.Kit.Streak
import Savvy.Kit.Fifo
import Savvy.Kit.Handles
import Savvy.Kit.Crc
import Savvy.Kit.CrcPolynomial
import Savvy.Core.Status
import Savvy.Core.SizeT
import Savvy.Core.Clock
import Savvy.Core.Descriptor
import Savvy.Core.Lifecycle
import Savvy.Core.Queue
import Savvy.Core.QueueBytes
import Savvy.Core.QueueThreads
import Savvy.Core.Snapshot
import Savvy.Core.SnapshotBooks
import Savvy.Core.SnapshotSafety
import Savvy.Health.SensorLifecycle
import Savvy.Health.Alternation
import Savvy.Protocol.PacketCodec
import Savvy.Protocol.PacketRoundTrip
import Savvy.Protocol.Crc
import Savvy.Protocol.StreamParser
import Savvy.Protocol.StreamParserQueue
import Savvy.Protocol.StreamParserLength
import Savvy.Json.Number
import Savvy.Json.Parse
import Savvy.Json.Print
import Savvy.Json.Codec
import Savvy.Json.RoundTrip
import Savvy.Json.NumberText
import Savvy.Json.PrintBuffer
import Savvy.Json.PrintMemory
import Savvy.Json.DataResult
import Savvy.Json.Utf8
import Savvy.Json.Utf8Memory
import Savvy.Json.TreeChecks
import Savvy.Json.Literals
import Savvy.Json.Strings
import Savvy.Json.DataResultPolicy
import Savvy.Ipc.Envelope
import Savvy.Ipc.Agreement
import Savvy.Ipc.Poll
import Savvy.Ipc.Transport
import Savvy.Ipc.Descriptors
import Savvy.Tcp.Channel
import Savvy.Tcp.Sockets
import Savvy.Tcp.Response
import Savvy.Tcp.Worker
import Savvy.Tcp.SocketTurns
import Savvy.Tcp.SocketSafety
import Savvy.Tcp.StopWaits
import Savvy.Tcp.Coalescing
import Savvy.Tcp.Requests
import Savvy.Tcp.Completion
import Savvy.Tcp.Restart
import Savvy.Tcp.FirstPacket
import Savvy.Settings.FieldTable
import Savvy.Settings.Store
import Savvy.Settings.Layout
import Savvy.Settings.LayoutRoundTrip
import Savvy.Settings.ApplyTable
import Savvy.Settings.TypedTable
import Savvy.Stream.ResultPolicy
import Savvy.Stream.Alarm
import Savvy.Stream.Completions
import Savvy.Stream.Wav
import Savvy.Stream.Bzip
import Savvy.Stream.BzipStreaming
import Savvy.Stream.BzipBuffer
import Savvy.Stream.BzipLossless
import Savvy.Stream.Session
import Savvy.Stream.Capacity
import Savvy.Stream.WireRoundTrip
import Savvy.Stream.Sends
import Savvy.Stream.Records
import Savvy.Stream.Release
import Savvy.Stream.ParserInput
import Savvy.Stream.Replies
import Savvy.Stream.Corruption
import Savvy.MgrIpc.Client
import Savvy.MgrIpc.Life
import Savvy.MgrIpc.LifeInvariant
import Savvy.MgrIpc.LifeWorkers
import Savvy.MgrIpc.LifeCustody
import Savvy.MgrIpc.LifeRoles
import Savvy.MgrIpc.Frame
import Savvy.MgrIpc.LifeSteps
import Savvy.MgrIpc.Safety
import Savvy.MgrIpc.Waiters
import Savvy.MgrIpc.Destroys
import Savvy.MgrIpc.Progress
import Savvy.MgrIpc.Link
import Savvy.MgrIpc.Transport
import Savvy.MgrIpc.Dispatch
import Savvy.MgrIpc.Callbacks
import Savvy.MgrIpc.Reconnect
import Savvy.Json.ValueMemory
