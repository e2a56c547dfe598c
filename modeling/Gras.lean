import Gras.Lib.TransitionSystem
import Gras.Lib.ByteMemory
import Gras.Lib.BoundedDeque
import Gras.Lib.RingLayout
import Gras.Lib.FifoHistory
import Gras.Lib.ForRange
import Gras.Buffers.SBuffer
import Gras.Buffers.BufferRelease
import Gras.Buffers.BufferQueue
import Gras.Buffers.RingSafety
import Gras.Buffers.InputBufferQueues
import Gras.Buffers.InputBytes
import Gras.Buffers.InputFifo
import Gras.Buffers.Accumulate
import Gras.Buffers.OutputBufferQueues
import Gras.Buffers.InputRuns
import Gras.Buffers.PreloadRuns
import Gras.Buffers.OutputPorts
import Gras.Buffers.Backing
import Gras.Buffers.PoolBacking
import Gras.Buffers.RingBacking
import Gras.Buffers.UnusedBuffers
import Gras.Buffers.Connection
import Gras.Buffers.ConnectionStream
import Gras.Actor.Messages
import Gras.Actor.BlockActor
import Gras.Actor.TaskMain
import Gras.Actor.Handlers
import Gras.Actor.Control
import Gras.Actor.Moves
import Gras.Actor.ActorSystem
import Gras.Actor.FrontReady
import Gras.Actor.InputCalls
import Gras.Actor.MsgDelivery
import Gras.Actor.MsgDeliveryRuns
import Gras.Actor.SuspendedInput
import Gras.Actor.SuspendedInputRuns
import Gras.Actor.EndOfStream
import Gras.Actor.EndOfStreamRuns
import Gras.Actor.GracePeriodRuns
import Gras.Actor.BlockRuns
import Gras.Actor.UserCalls
import Gras.Actor.ItemCounters
import Gras.Actor.ItemCounterRuns
import Gras.Actor.OutputReserve
import Gras.Actor.OutputReserveRuns
import Gras.Actor.TagPassing
import Gras.Actor.TagPassingRuns
import Gras.Buffers.PortSteps
import Gras.Buffers.PreloadShrink
import Gras.Buffers.PoolPort
import Gras.Buffers.PoolReadiness
import Gras.Actor.PortMoves
import Gras.Actor.MarkDone
import Gras.Actor.MarkDoneRuns
import Gras.Actor.Allocation
import Gras.Actor.AllocationRuns
import Gras.Actor.TopToken
import Gras.Actor.TopTokenRuns
import Gras.Actor.Readiness
import Gras.Actor.WakeUp
import Gras.Actor.WakeUpRuns
import Gras.Actor.BufferSizing
import Gras.Actor.Restart
import Gras.Actor.OutputSpace
import Gras.Actor.WorkPort
import Gras.Actor.OutputFail
import Gras.Actor.WorkCalls
import Gras.Actor.PostedBuffers
import Gras.Actor.QueueTokens
import Gras.Actor.Migration
import Gras.Lib.TimeSpans
import Gras.Buffers.IdleClock
import Gras.Buffers.IdleClockRuns
import Gras.Thread.InterruptibleThread
import Gras.Thread.CallHandshake
import Gras.Thread.Deadlock
import Gras.Thread.TimedWait
import Gras.Serialize.SerializeTypes
import Gras.Serialize.SerializeRoundTrip
import Gras.Query.JsonParser
import Gras.Query.JsonRoundTrip
import Gras.Lib.ParentTree
import Gras.Element.ElementTree
import Gras.Element.ElementUid
import Gras.Element.ElementPaths
import Gras.Lib.Int64Exact
import Gras.Time.TimeTag
import Gras.Time.TimeTagOrder
import Gras.Actor.TagOrder
import Gras.Actor.StreamEnd
import Gras.Actor.InputStream
import Gras.Actor.LinkRuns
import Gras.Actor.Additions
import Gras.Actor.InputMail
import Gras.Actor.Network
import Gras.Actor.NetworkRuns
import Gras.Actor.NetworkMessages
import Gras.Actor.Broadcast
import Gras.Actor.AllocationHints
import Gras.Actor.AllocationHintRuns
import Gras.Calls.Callable
import Gras.Calls.RemoteCalls
import Gras.Calls.RemoteCallRuns
import Gras.Calls.CallProgress
