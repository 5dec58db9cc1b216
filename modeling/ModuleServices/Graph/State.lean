import ModuleServices.Graph.Types
import ModuleServices.Lib.Table

/-!
# The graph's tables and queues

`World` is `StateGraph::Impl` together with what surrounds it: the leases that are
alive, the answers of the submission sets, the builds and acceptance actions that run
elsewhere, and the locals of the drain slice in progress (`Slice`).

A lease token is alive while it is in `liveLeases`; `versionLeases` holds tokens
weakly, so an entry whose token is gone has expired. `versionsByAddress` is not kept:
it is `versions` sorted, `addressVersions`. The scratch of the cycle search stands in
`cycleVisits` instead of in the nodes. `history` is not in the source: it logs what
callers, producers and awaiters were told.
-/

namespace ModuleServices.Graph

/-- A queued version of an address. -/
structure RequestedVersion where
  revision : Nat := 0
  generation : Nat := 0
  fingerprint : Nat := 0
  input : ArtifactPayload := {}
  requirements : List ArtifactRequirement := []
  requestedRequirements : List ArtifactRequirement := []
  lease : Option Nat := none
  coalescibleIntent : Bool := false
  deriving DecidableEq, Repr

structure VersionSignature where
  fingerprint : Nat := 0
  inputType : Nat := 0
  requirements : List ArtifactRequirement := []
  deriving DecidableEq, Repr

structure Node where
  key : ArtifactKey := {}
  desiredRevision : Nat := 0
  latestRequestedRevision : Nat := 0
  producedRevision : Nat := 0
  generation : Nat := 0
  versionGeneration : Nat := 0
  requestFingerprint : Nat := 0
  lease : Option Nat := none
  state : ArtifactReadiness := .missing
  payload : ArtifactPayload := {}
  input : ArtifactPayload := {}
  checkpoint : ArtifactPayload := {}
  requestedRequirements : List ArtifactRequirement := []
  requirements : List ArtifactRequirement := []
  resolvedDependencies : List ArtifactSnapshot := []
  installedWaiterKeys : List ArtifactKey := []
  gpuSubmissions : Option Nat := none
  waitingGpuSubmissions : Option Nat := none
  retryAt : Option Nat := none
  suspension : Option ArtifactSuspension := none
  error : String := ""
  buildInFlight : Bool := false
  buildAttempted : Bool := false
  desired : Bool := false
  terminalFailure : Bool := false
  published : Bool := false
  latestSuccessorNeeded : Bool := false
  completedWaiterEdgesPruned : Bool := false
  coalescibleIntent : Bool := false
  /-- The cancellation flag shared with the builds of this version. -/
  superseded : Nat := 0
  successors : List RequestedVersion := []
  deriving DecidableEq, Repr

structure Completion where
  key : ArtifactKey
  revision : Nat
  generation : Nat
  dependencies : List ArtifactSnapshot := []
  result : ArtifactBuildResult
  gpuSubmitted : Bool := false
  gpuComplete : Bool := false
  deriving DecidableEq, Repr

/-- `ArtifactBuildContext`, with the flag its `stopRequested` reads. -/
structure BuildContext where
  key : ArtifactKey
  revision : Nat
  generation : Nat
  dependencies : List ArtifactSnapshot := []
  input : ArtifactPayload := {}
  checkpoint : ArtifactPayload := {}
  superseded : Nat := 0
  continuation : Bool := false
  deriving DecidableEq, Repr

/-- An acceptance action in flight: the completion that comes back after it. -/
structure AcceptanceDispatch where
  completion : Completion
  snapshot : ArtifactSnapshot
  deriving DecidableEq, Repr

structure RetryEntry where
  deadline : Nat
  key : ArtifactKey
  generation : Nat
  deriving DecidableEq, Repr

/-- The consumers still to be woken for a dependency. The source visits a set in an order of its
own; a wake here takes any of them. -/
structure PendingWaiterWake where
  dependency : ArtifactKey
  consumers : List ArtifactKey
  deriving DecidableEq, Repr

structure ExactWaiter where
  subscription : Nat
  version : VersionID
  milestone : ArtifactReadiness
  lease : Option Nat := none
  deriving DecidableEq, Repr

/-- A queued change of the graph other than a request. -/
inductive Mutation where
  | requestBatch (intents : List ArtifactIntent) (coalescible : Bool)
  | invalidate (key : ArtifactKey) (desiredRevision : Nat)
  | cancel (key : ArtifactKey)
  | release (keys : List ArtifactKey)
  | markPublished (versions : List VersionID)
  | markPublishedRevision (key : ArtifactKey) (revision : Nat)
  | pumpGpuCompletions
  | addReadyCallback (subscription : Nat)
  | removeReadyCallback (subscription : Nat)
  /-- The level that `ObserveWithSnapshot` delivers once. -/
  | observe (address : ArtifactKey) (subscription : Nat)
  deriving DecidableEq, Repr

inductive PostedRequest where
  | request (intent : ArtifactIntent) (coalescible : Bool) (generation : Nat) (lease : Option Nat)
  | mutation (m : Mutation)
  deriving DecidableEq, Repr

structure PostedAwait where
  subscription : Nat
  version : VersionID
  milestone : ArtifactReadiness := .missing
  lease : Option Nat := none
  cancel : Bool := false
  deriving DecidableEq, Repr

structure GpuSignal where
  key : ArtifactKey
  generation : Nat
  token : Nat
  deriving DecidableEq, Repr

structure EvaluatedGpu where
  signal : GpuSignal
  submitted : Bool
  complete : Bool
  failed : Bool
  error : String
  deriving DecidableEq, Repr

structure ArtifactTermination where
  version : VersionID
  readiness : ArtifactReadiness
  error : String
  refused : Bool
  deriving DecidableEq, Repr

/-- What an awaiter was called with. -/
inductive AwaitOutcome where
  | reached (snapshot : ArtifactSnapshot)
  | terminal (termination : ArtifactTermination)
  deriving DecidableEq, Repr

/-- What was said to callers, producers and awaiters. -/
inductive Event where
  /-- A request was applied and answered. -/
  | answered (key : ArtifactKey) (revision : Nat) (coalescible : Bool)
      (result : ArtifactRequestResult)
  /-- A posted request was given its handle. -/
  | posted (version : VersionID) (lease : Nat)
  /-- A build was handed to its producer. -/
  | handed (context : BuildContext)
  /-- A completion was judged, with the dependencies it captured. -/
  | judged (key : ArtifactKey) (generation : Nat) (stale : Bool)
      (dependencies : List ArtifactSnapshot)
  /-- One of an awaiter's two callbacks was called. -/
  | awaited (subscription : Nat) (outcome : AwaitOutcome)
  | reclaimed (version : VersionID)
  deriving DecidableEq, Repr

structure ArchivedView where
  revision : Nat := 0
  generation : Nat := 0
  snapshot : ArtifactSnapshot := {}
  deriving DecidableEq, Repr

/-- `AddressView`, without its time. -/
structure AddressView where
  current : ArtifactSnapshot := {}
  desiredRevision : Nat := 0
  latestRequestedRevision : Nat := 0
  versionGeneration : Nat := 0
  desired : Bool := false
  error : String := ""
  requirements : List ArtifactRequirement := []
  blockers : List (ArtifactKey × Bool) := []
  archived : List ArchivedView := []
  aliases : List (Nat × Nat) := []
  pendingSuccessors : List (Nat × Nat) := []
  deriving DecidableEq, Repr

/-- Where the drain stands. -/
inductive Phase where
  | idle | awaits | suspensions | requests | gpuCollect | gpuRecover | gpuEvaluate
  | popPublished | popCompletions | gpuApply | retry | complete | wake | build | dispatch
  | reclaim | retire | callbacks
  deriving DecidableEq, Repr

/-- The locals of one drain slice. `count` is the number of items the phase has taken, and `late`
says that the deadline may have been looked at since the last one. -/
structure Slice where
  phase : Phase := .idle
  count : Nat := 0
  late : Bool := false
  settledAwaits : List (PostedAwait × ArtifactSnapshot) := []
  now : Nat := 0
  recoveryChecks : Nat := 0
  signalledGpu : List GpuSignal := []
  evaluatedGpu : List EvaluatedGpu := []
  publishedReady : List VersionID := []
  readyCompletions : List Completion := []
  ready : List ArtifactSnapshot := []
  evaluatedWaiters : List ArtifactKey := []
  builds : List BuildContext := []
  exactDispatches : List (ExactWaiter × ArtifactSnapshot) := []
  acceptanceDispatches : List AcceptanceDispatch := []
  pendingGpuSubscriptions : List ArtifactKey := []
  retiredVersions : List ArtifactSnapshot := []
  deriving DecidableEq, Repr

structure World where
  artifactPolicies : List ArtifactKindPolicy := []
  producers : Table Nat Producer := ∅
  nodes : Table ArtifactKey Node := ∅
  versions : Table VersionID ArtifactSnapshot := ∅
  versionGenerations : Table VersionKey Nat := ∅
  reservedGenerations : Table VersionKey Nat := ∅
  nextVersionGeneration : Nat := 0
  versionSignatures : Table VersionKey VersionSignature := ∅
  versionLeases : Table VersionID Nat := ∅
  generationAliases : Table VersionID VersionID := ∅
  refusalReasons : Table VersionID ArtifactRequestStatus := ∅
  waiters : Table ArtifactKey (List ArtifactKey) := ∅
  exactRecipePins : Table VersionID Nat := ∅
  exactWaiters : Table VersionID (List ExactWaiter) := ∅
  suspendedByIdentity : Table Nat VersionID := ∅
  cycleVisits : Table ArtifactKey (Nat × Option ArtifactKey) := ∅
  nextCycleVisitEpoch : Nat := 0
  readModel : Table ArtifactKey (Option AddressView) := ∅
  dirtyViews : List ArtifactKey := []
  -- counters
  nodeStateCounts : ArtifactReadiness → Nat := fun _ => 0
  outstandingByKind : Nat → Nat := fun _ => 0
  archivedVersionsByKind : Nat → Nat := fun _ => 0
  exactWaiterCount : Nat := 0
  gpuWaiting : Nat := 0
  reclaimedVersions : Nat := 0
  -- queues
  postedAwaits : List PostedAwait := []
  cancelledAwaitSubscriptions : List Nat := []
  postedSuspensions : List Nat := []
  satisfiedSuspensions : List Nat := []
  postedIntents : List PostedRequest := []
  gpuSignals : List ArtifactKey := []
  gpuRecovery : List ArtifactKey := []
  publishedSignals : List VersionID := []
  completions : List Completion := []
  pending : List ArtifactKey := []
  pendingWaiterWakes : List PendingWaiterWake := []
  propagatedReady : List ArtifactSnapshot := []
  retries : List RetryEntry := []
  reclaimQueue : List VersionID := []
  pendingRetirement : List ArtifactSnapshot := []
  pendingCancellations : List Nat := []
  readyCallbacks : List Nat := []
  nextSubscription : Nat := 0
  slice : Slice := {}
  -- around the graph
  liveLeases : Table Nat VersionID := ∅
  nextLease : Nat := 1
  gpu : Table Nat GpuStatus := ∅
  supersededFlags : List Nat := []
  nextFlag : Nat := 1
  running : List BuildContext := []
  acceptances : List AcceptanceDispatch := []
  now : Nat := 0
  history : List Event := []

namespace World

/-- `kArtifactKindCount`. -/
def kindCount (s : World) : Nat := s.artifactPolicies.length

/-- `KindPolicy`. -/
def kindPolicy (s : World) (kind : Nat) : ArtifactKindPolicy := s.artifactPolicies.getD kind {}

/-- `FindProducer`. -/
def findProducer (s : World) (kind : Nat) : Option Producer := s.producers.find? kind

def gpuStatus (s : World) (token : Nat) : GpuStatus := (s.gpu.find? token).getD {}

def log (s : World) (event : Event) : World := { s with history := s.history ++ [event] }

def modifyNode (s : World) (key : ArtifactKey) (f : Node → Node) : World :=
  { s with nodes := s.nodes.modify key f }

def queueReclaim (s : World) (versions : List VersionID) : World :=
  { s with reclaimQueue := s.reclaimQueue ++ versions }

/-- `ready.push_back`. -/
def announce (s : World) (snapshot : ArtifactSnapshot) : World :=
  { s with slice := { s.slice with ready := s.slice.ready ++ [snapshot] } }

/-- `MarkViewDirty`, when there is something to publish. -/
def markDirty (dirty : List ArtifactKey) (key : ArtifactKey) (changed : Bool) : List ArtifactKey :=
  if changed && !dirty.contains key then dirty ++ [key] else dirty

def markViewDirty (s : World) (key : ArtifactKey) : World :=
  { s with dirtyViews := markDirty s.dirtyViews key true }

/-! ## Counted writes

A write is one update of the record whatever it finds, so that every field it does not
name is the old one by computation. -/

/-- One more of what counts, one less of what does not any more; a zero stays. -/
def recount (counts : Nat → Nat) (index limit : Nat) (was now : Bool) : Nat → Nat :=
  fun i => if i = index ∧ index < limit then
    if !was && now then counts i + 1 else if was && !now then counts i - 1 else counts i
  else counts i

/-- One node less in the first state and one more in the second. -/
def moveCount (counts : ArtifactReadiness → Nat) (previous state : ArtifactReadiness) :
    ArtifactReadiness → Nat :=
  fun i => if previous = state then counts i
    else if i = previous then counts i - 1 else if i = state then counts i + 1 else counts i

/-- `SetDesired`. -/
def setDesired (s : World) (key : ArtifactKey) (desired : Bool) : World :=
  { s with
    nodes := s.nodes.modify key fun node => { node with desired }
    dirtyViews := markDirty s.dirtyViews key
      ((s.nodes.find? key).any fun node => node.desired != desired)
    outstandingByKind := (s.nodes.find? key).elim s.outstandingByKind fun node =>
      recount s.outstandingByKind node.key.kind s.kindCount
        (node.desired && node.state.outstanding) (desired && node.state.outstanding) }

/-- `SetState`. -/
def setState (s : World) (key : ArtifactKey) (state : ArtifactReadiness) : World :=
  { s with
    nodes := s.nodes.modify key fun node => { node with state }
    dirtyViews := markDirty s.dirtyViews key
      ((s.nodes.find? key).any fun node => node.state != state)
    nodeStateCounts := (s.nodes.find? key).elim s.nodeStateCounts fun node =>
      moveCount s.nodeStateCounts node.state state
    outstandingByKind := (s.nodes.find? key).elim s.outstandingByKind fun node =>
      recount s.outstandingByKind node.key.kind s.kindCount
        (node.desired && node.state.outstanding) (node.desired && state.outstanding) }

end World

end ModuleServices.Graph
