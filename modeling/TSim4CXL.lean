import TSim4CXL.Lib.Transition
import TSim4CXL.Lib.Store
import TSim4CXL.Lib.Groups
import TSim4CXL.Lib.RingBuffer
import TSim4CXL.Lib.Rounding
import TSim4CXL.Lib.Pool
import TSim4CXL.Lib.Linked
import TSim4CXL.Model.Payload
import TSim4CXL.Model.Log
import TSim4CXL.Model.SimWrapper
import TSim4CXL.Model.Usp
import TSim4CXL.Model.Controller
import TSim4CXL.Model.MemWrapper
import TSim4CXL.Model.Top
import TSim4CXL.Model.LoneHost
import TSim4CXL.Model.Timing
import TSim4CXL.Model.Shmem
import TSim4CXL.Model.Host
import TSim4CXL.Model.FedHost
import TSim4CXL.Model.Pools
import TSim4CXL.Model.AckLink
import TSim4CXL.Model.TraceFile
import TSim4CXL.Model.MmNodes
import TSim4CXL.Trace.SimWrapper
import TSim4CXL.Trace.Usp
import TSim4CXL.Trace.Controller
import TSim4CXL.Trace.MemWrapper
import TSim4CXL.Trace.Top
import TSim4CXL.Trace.Path
import TSim4CXL.Trace.Control
import TSim4CXL.Trace.Flight
import TSim4CXL.Trace.Pools
import TSim4CXL.Trace.LoneHost
import TSim4CXL.Trace.LoneRuns
import TSim4CXL.Properties.ForwardPath
import TSim4CXL.Properties.UspStranding
import TSim4CXL.Properties.ResponsePath
import TSim4CXL.Properties.Lifetimes
import TSim4CXL.Properties.Routing
import TSim4CXL.Properties.Signals
import TSim4CXL.Properties.Shutdown
import TSim4CXL.Properties.Visibility
import TSim4CXL.Properties.SignalOwner
import TSim4CXL.Properties.ReadAssembly
import TSim4CXL.Properties.Timing
import TSim4CXL.Properties.Channel
import TSim4CXL.Properties.Accounting
import TSim4CXL.Properties.MemConservation
import TSim4CXL.Properties.HostBuffers
import TSim4CXL.Properties.RequestRange
import TSim4CXL.Properties.FlatWrite
import TSim4CXL.Properties.Vocabulary
import TSim4CXL.Properties.Fragmentation
import TSim4CXL.Properties.PayloadPools
import TSim4CXL.Properties.PacketCount
import TSim4CXL.Properties.AckSlots
import TSim4CXL.Properties.Latency
import TSim4CXL.Properties.MemStats
import TSim4CXL.Properties.PortLatency
import TSim4CXL.Properties.FlitPacking
import TSim4CXL.Properties.MmChain
import TSim4CXL.Properties.AckPacking
import TSim4CXL.Properties.TraceFile
import TSim4CXL.Properties.DramController
import TSim4CXL.Properties.Shipped
import TSim4CXL.Properties.ReadOrder
import TSim4CXL.Properties.HostLink
import TSim4CXL.Properties.Cosim
import TSim4CXL.Lib.Progress
import TSim4CXL.Properties.Work
import TSim4CXL.Properties.Faults
import TSim4CXL.Properties.Rest
import TSim4CXL.Properties.Orderly
import TSim4CXL.Properties.Service
import TSim4CXL.Trace.DramOrder
import TSim4CXL.Trace.Assembly
import TSim4CXL.Properties.FinalStore
import TSim4CXL.Properties.Handling
import TSim4CXL.Properties.CallStore
import TSim4CXL.Properties.ReadBack
import TSim4CXL.Properties.CallReads
import TSim4CXL.Lib.ServiceQueue
import TSim4CXL.Properties.ReadService
