import ModuleServices.Lib.Paged
import ModuleServices.Lib.Run
import ModuleServices.Growth.Policy
import ModuleServices.Buffers.Image
import ModuleServices.Buffers.Version
import ModuleServices.Buffers.Journal
import ModuleServices.Buffers.Build
import ModuleServices.Buffers.CatchUp
import ModuleServices.Buffers.JournalRun
import ModuleServices.Buffers.Proof.Journal
import ModuleServices.Buffers.Proof.Naming
import ModuleServices.Buffers.Proof.Replay
import ModuleServices.Buffers.Proof.Upload
import ModuleServices.Buffers.Proof.CatchUp
import ModuleServices.Lib.Intervals
import ModuleServices.Buffers.Predecessor
import ModuleServices.Buffers.Proof.Predecessor
import ModuleServices.Buffers.Tickets
import ModuleServices.Buffers.Proof.Tickets
import ModuleServices.Buffers.Publish
import ModuleServices.Buffers.Proof.Publish
import ModuleServices.Buffers.Proof.Publication
import ModuleServices.Pool.Step
import ModuleServices.Pool.Proof.Attended
import ModuleServices.Pool.Proof.Acquire
import ModuleServices.Pool.Proof.NoLostWake
import ModuleServices.Pool.Custody
import ModuleServices.Pool.Proof.Custody
import ModuleServices.Pool.Proof.Partition
import ModuleServices.Pool.Proof.Nearest
import ModuleServices.Buffers.Bound
import ModuleServices.Buffers.Proof.Bound
import ModuleServices.Lib.Table
import ModuleServices.Graph.Types
import ModuleServices.Graph.State
import ModuleServices.Graph.Select
import ModuleServices.Graph.Edges
import ModuleServices.Graph.Advance
import ModuleServices.Graph.Request
import ModuleServices.Graph.Complete
import ModuleServices.Graph.Reclaim
import ModuleServices.Graph.Drain
import ModuleServices.Graph.Calls
import ModuleServices.Graph.Proof.Builds
import ModuleServices.Graph.View
import ModuleServices.Graph.Proof.Views
import ModuleServices.Graph.Proof.ViewMoves
import ModuleServices.Graph.Proof.ViewCalls
import ModuleServices.Graph.Proof.ViewRequests
import ModuleServices.Graph.Proof.ViewReads
import ModuleServices.Graph.Proof.Coherence
import ModuleServices.Graph.Proof.Admission
import ModuleServices.Lib.Search
import ModuleServices.Graph.Proof.Cycles
import ModuleServices.Graph.Proof.Refused
import ModuleServices.Async.Proof.Exchange
import ModuleServices.Async.Proof.Pump
import ModuleServices.Pool.Proof.Clock
import ModuleServices.Pool.Proof.Pins
import ModuleServices.Async.Assembly
import ModuleServices.Async.Delayed
import ModuleServices.Async.Proof.Delayed
import ModuleServices.Async.Proof.Settling
import ModuleServices.Async.Proof.Sealing
import ModuleServices.Async.Proof.Assembly
import ModuleServices.Lib.Encoding
import ModuleServices.Shader.Request
import ModuleServices.Shader.Key
import ModuleServices.Shader.Proof.Key
import ModuleServices.Shader.Cache
import ModuleServices.Shader.Proof.Cache
import ModuleServices.Lib.Shared
import ModuleServices.Buffers.SharedJournal
import ModuleServices.Buffers.Proof.SharedJournal
import ModuleServices.Buffers.BuildCall
import ModuleServices.Buffers.Proof.BuildCall
import ModuleServices.Buffers.Family
import ModuleServices.Buffers.Proof.Family
import ModuleServices.Pipelines.Service
import ModuleServices.Pipelines.Proof.Service
import ModuleServices.Pipelines.Proof.Registry
import ModuleServices.Growth.Proof.Policy
import ModuleServices.Buffers.ByteIntervals
import ModuleServices.Buffers.Proof.ByteIntervals
import ModuleServices.Growth.Elastic
import ModuleServices.Growth.Extent
import ModuleServices.Growth.Proof.Elastic
import ModuleServices.Lib.Shares
import ModuleServices.Flights.Proof.Callbacks
import ModuleServices.Graph.Proof.Awaits
import ModuleServices.Graph.Proof.Residue
import ModuleServices.Graph.Proof.Identity
import ModuleServices.Growth.Proof.Extent
import ModuleServices.Growth.Proof.Kept
import ModuleServices.Growth.Proof.Round
