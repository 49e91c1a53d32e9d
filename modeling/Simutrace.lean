import Simutrace.MemoryEncoder.RoundTrip
import Simutrace.Store.Commit
import Simutrace.Store.Reopened
import Simutrace.Store.Announced
import Simutrace.Store.HeaderTable
import Simutrace.Store.Interrupted
import Simutrace.Buffer.FreeList
import Simutrace.Buffer.Identity
import Simutrace.Buffer.FailedSubmit
import Simutrace.Buffer.Prefetch
import Simutrace.Manager.Counting
import Simutrace.Manager.Sharing
import Simutrace.Stream.Neighbours
import Simutrace.Stream.CycleSearch
import Simutrace.Stream.Accounting
import Simutrace.Client.Enumeration
import Simutrace.Rpc.Framing
import Simutrace.Server.Payload
import Simutrace.MemoryEncoder.Initialization
import Simutrace.MemoryEncoder.Lifetime
import Simutrace.Multiplexer.CycleCount
import Simutrace.Multiplexer.RoundRobin
import Simutrace.VariableData.Find
import Simutrace.VariableData.ReadBack
import Simutrace.Buffer.Validation
import Simutrace.Client.PreviousEntry
import Simutrace.Client.Rundown
import Simutrace.Stream.OpenOrders
import Simutrace.MemoryEncoder.DecodeAttempts
import Simutrace.Manager.Eviction
import Simutrace.Multiplexer.TypeInference
import Simutrace.GenericEncoder.Compression
import Simutrace.Store.Opening
import Simutrace.Store.FrameCodec
import Simutrace.Store.Bookkeeping
import Simutrace.Stream.Statistics
import Simutrace.MemoryEncoder.SegmentBounds
import Simutrace.MemoryEncoder.Selection
import Simutrace.MemoryEncoder.Partition
import Simutrace.Store.FrameOpening
import Simutrace.Threading.WaitContext
import Simutrace.Threading.PoolClosing
import Simutrace.Store.Rundown
import Simutrace.Session.Stores
import Simutrace.Session.Access
import Simutrace.Rpc.Calls
import Simutrace.Library.Records
import Simutrace.Tracing.ReadBack
