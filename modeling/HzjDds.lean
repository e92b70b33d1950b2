import HzjDds.Bench.Accounting
import HzjDds.Bench.Benchmark
import HzjDds.Bench.Codec
import HzjDds.Bench.Delta
import HzjDds.Bench.Image
import HzjDds.Bench.Pacing
import HzjDds.Bench.ResolveDimos
import HzjDds.Bench.Status
import HzjDds.Bench.Summary
import HzjDds.Bench.Timeout
import HzjDds.Conversion.Copy
import HzjDds.Conversion.Lengths
import HzjDds.Conversion.RoundTrip
import HzjDds.Cpp.BitmapRange
import HzjDds.Cpp.OrderedVector
import HzjDds.Cpp.UnorderedVector
import HzjDds.Evals.Containment
import HzjDds.G1.Commands
import HzjDds.G1.StopTimer
import HzjDds.Gates.AdrRows
import HzjDds.Gates.Citations
import HzjDds.Gates.DualChain
import HzjDds.Gates.Markers
import HzjDds.PubSub.Bookkeeping
import HzjDds.PubSub.CompletionSignal
import HzjDds.PubSub.CompletionWait
import HzjDds.PubSub.Discovery
import HzjDds.PubSub.Dispatch
import HzjDds.PubSub.FirstSubscribe
import HzjDds.PubSub.Linearize
import HzjDds.PubSub.NewTopics
import HzjDds.PubSub.Participants
import HzjDds.PubSub.Publishers
import HzjDds.PubSub.SharedDds
import HzjDds.PubSub.StoppedDds
import HzjDds.PubSub.Unsubscribe
import HzjDds.Rmw.Attachment
import HzjDds.Rmw.EventCounts
import HzjDds.Rmw.EventGuards
import HzjDds.Rmw.EventLocks
import HzjDds.Rmw.EventStatus
import HzjDds.Rmw.Events
import HzjDds.Rmw.EventsKept
import HzjDds.Rmw.Locks
import HzjDds.Rmw.Reader
import HzjDds.Rmw.RmwAttached
import HzjDds.Rmw.RmwSettle
import HzjDds.Rmw.RmwWaits
import HzjDds.Rmw.Settle
import HzjDds.Rmw.Told
import HzjDds.Rmw.Triggered
import HzjDds.Rmw.Wait
import HzjDds.Rmw.WaitSet
import HzjDds.Rmw.Wakeup
import HzjDds.Rtps.Delivery
import HzjDds.Rtps.Lost
import HzjDds.Rtps.Progress
import HzjDds.Rtps.Protocol
import HzjDds.Rtps.ReaderProxy
import HzjDds.Rtps.Reading
import HzjDds.Rtps.Reliable
import HzjDds.Rtps.Settled
import HzjDds.Rtps.StatefulReader
import HzjDds.Rtps.StatefulWriter
import HzjDds.Rtps.WriterProxy
import HzjDds.Transition.Atomic
import HzjDds.Transition.Ledger
import HzjDds.Transition.Lifecycle
import HzjDds.Transition.LockOrder
import HzjDds.Transition.RLock
import HzjDds.Transition.Simulation
import HzjDds.Transport.DdsTransport
import HzjDds.Transport.Reduce
import HzjDds.Transport.RosTransport
