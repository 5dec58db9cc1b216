import ModuleServices.Graph.Request

/-!
# What comes back

Build completions (`applyCompletion`), signals of the submission sets (`applyGpu`),
retries, satisfied suspensions and the registrations of exact awaiters: everything that
reaches a node from outside the graph and is applied to it by the drain.
-/

namespace ModuleServices.Graph.World

/-- Whether a completion is still the node's: its generation, and what it captured. -/
def accepts (s : World) (node : Node) (completion : Completion) : Bool :=
  node.generation == completion.generation && s.dependenciesStillMatch completion.dependencies

/-- The producer's declared output type, if it has one and the payload is of another. -/
def outputMismatch (s : World) (kind : Nat) (payload : ArtifactPayload) : Bool :=
  (s.findProducer kind).any fun producer =>
    producer.outputType != 0 && payload.type != producer.outputType

/-- `PrepareAcceptance`: a result with an acceptance action goes to it first. -/
def prepareAcceptance (s : World) (completion : Completion) : Option AcceptanceDispatch :=
  if completion.result.outcome ≠ .ready ∨ completion.result.acceptance = false then none
  else
    match s.nodes.find? completion.key with
    | none => none
    | some node =>
      if s.accepts node completion = false
          ∨ s.outputMismatch node.key.kind completion.result.payload then none
      else
        some {
          completion := { completion with
            result := { completion.result with acceptance := false } }
          snapshot :=
            { key := node.key, revision := completion.revision, generation := node.versionGeneration
              readiness := .preparing, payload := completion.result.payload
              gpuSubmissions := completion.result.gpuSubmissions, lease := node.lease } }

/-! ## Applying a result -/

/-- The node as a Ready result leaves it, before its state is set. -/
def produced (node : Node) (completion : Completion) : Node :=
  let latest := node.requestedRequirements.any fun r => r.invalidation == .latest
  { node with
    terminalFailure := false
    payload := completion.result.payload
    resolvedDependencies :=
      completion.dependencies.filter fun d => hasLatest node.requestedRequirements d.key
    -- moved away where it was valid; a payload keeps its type then
    input := if latest then node.input else { node.input with value := none }
    checkpoint := { node.checkpoint with value := none }
    retryAt := none
    suspension := none
    producedRevision := completion.revision
    published := false
    gpuSubmissions := completion.result.gpuSubmissions }

/-- The submission set of a node is waited for. -/
def awaitGpu (s : World) (key : ArtifactKey) (token : Nat) : World :=
  { s.modifyNode key fun node => { node with waitingGpuSubmissions := some token } with
    gpuWaiting := s.gpuWaiting + 1
    slice := { s.slice with
      pendingGpuSubscriptions := s.slice.pendingGpuSubscriptions ++ [key] }
    gpuRecovery :=
      if (s.gpuStatus token).completionNotificationsAreAuthoritative then s.gpuRecovery
      else s.gpuRecovery ++ [key] }

/-- A version that has reached a milestone is announced and stored, and its waiters woken. -/
def reach (s : World) (key : ArtifactKey) : World :=
  ((s.announceNode key).storeVersion key).wakeWaiters key

/-- What follows a submission or a completion: the version a Latest edge has called for, or the
next one in the queue. -/
def handOn (s : World) (key : ArtifactKey) : World :=
  match s.nodes.find? key with
  | none => s
  | some node => if node.latestSuccessorNeeded then s.queueLatestSuccessor key
    else s.promoteSuccessor key

/-- The Ready branch of `ApplyCompletion`. -/
def applyReady (s : World) (node : Node) (completion : Completion) : World :=
  let key := completion.key
  let s := s.queueReclaim (capturedVersions node.resolvedDependencies)
  let s := (s.modifyNode key fun node => produced node completion).pruneCompletedWaiterEdges key
  match completion.result.gpuSubmissions with
  | some token =>
    if completion.gpuSubmitted = false then
      ((s.awaitGpu key token).setState key .cpuReady).reach key
    else if completion.gpuComplete = false then
      (((s.awaitGpu key token).setState key .uploadSubmitted).reach key).handOn key
    else (((s.modifyNode key fun node => { node with waitingGpuSubmissions := none }).setState key
      .gpuReady).reach key).handOn key
  | none => (((s.modifyNode key fun node => { node with waitingGpuSubmissions := none }).setState key
      .gpuReady).reach key).handOn key

/-- The recipe a NeedsDependencies result replaces the old one by. -/
def applyNeeds (s : World) (key : ArtifactKey) (result : ArtifactBuildResult) : World :=
  let s := (s.modifyNode key fun node => { node with terminalFailure := false }).removeWaiterEdges key
  let s := s.modifyNode key fun node => { node with
    requirements := result.requirements, checkpoint := result.checkpoint, retryAt := none }
  (s.installWaiterEdges key []).startVersion key

def applyRetryAfter (s : World) (node : Node) (result : ArtifactBuildResult) : World :=
  let deadline := s.now + result.retryDelay
  let s := s.modifyNode node.key fun node => { node with
    terminalFailure := false, checkpoint := result.checkpoint, retryAt := some deadline }
  { s.setState node.key .blocked with
    retries := s.retries ++ [{ deadline, key := node.key, generation := node.generation }] }

/-- The Suspended branch of `ApplyCompletion`. -/
def applySuspended (s : World) (node : Node) (result : ArtifactBuildResult)
    (suspension : ArtifactSuspension) : World :=
  let key := node.key
  let s := (s.modifyNode key fun node => { node with
    terminalFailure := false, checkpoint := result.checkpoint, retryAt := none
    suspension := some suspension }).setState key .blocked
  if suspension.kind = .exactDependency then
    let s := (s.removeWaiterEdges key).modifyNode key fun node => { node with
      requirements := node.requirements ++ [exact suspension.dependency suspension.milestone] }
    let s := (s.installWaiterEdges key []).modifyNode key fun node => { node with
      suspension := none }
    s.queueNode key
  else if suspension.identity = 0 then
    ((s.modifyNode key fun node => { node with
      error := "suspension identity must be non-zero", terminalFailure := true }).setState key
      .failed).announceNode key
  else if suspension.identity ∈ s.satisfiedSuspensions then
    ({ s with satisfiedSuspensions := s.satisfiedSuspensions.erase suspension.identity }.modifyNode
      key fun node => { node with suspension := none }).queueNode key
  else
    let version : VersionID := ⟨key, node.desiredRevision, node.generation⟩
    { s with suspendedByIdentity := s.suspendedByIdentity.insert suspension.identity version }

/-- The announcement of a build that ended, under the generation it was started with. -/
def announceEnd (s : World) (completion : Completion) (node : Node) (state : ArtifactReadiness) :
    World :=
  s.announce { key := node.key, revision := completion.revision
               generation := completion.generation, readiness := state, lease := node.lease }

/-- The Cancelled branch of `ApplyCompletion`. -/
def applyCancelled (s : World) (node : Node) (completion : Completion) : World :=
  ((((s.setState node.key .cancelled).announceEnd completion node .cancelled).storeVersion
    node.key).wakeWaiters node.key).promoteSuccessor node.key

/-- The Failed branch of `ApplyCompletion`. -/
def applyFailed (s : World) (node : Node) (completion : Completion) (error : String) : World :=
  let s := s.modifyNode node.key fun node => { node with error, terminalFailure := true }
  ((((s.setState node.key .failed).announceEnd completion node .failed).storeVersion
    node.key).wakeWaiters node.key).promoteSuccessor node.key

/-- The result as it counts: a payload of the wrong type is a failure. -/
def checkedResult (s : World) (node : Node) (result : ArtifactBuildResult) : ArtifactBuildResult :=
  if result.outcome = .ready ∧ s.outputMismatch node.key.kind result.payload then
    failure "artifact output type mismatch"
  else result

/-- The branches of `ApplyCompletion` for a completion that is the node's. -/
def applyResult (s : World) (node : Node) (completion : Completion) (result : ArtifactBuildResult) :
    World :=
  match result.outcome with
  | .ready => s.applyReady node { completion with result }
  | .needsDependencies =>
    if completion.revision ≠ node.desiredRevision then s.queueNode node.key
    else s.applyNeeds node.key result
  | .retryAfter =>
    if completion.revision ≠ node.desiredRevision then s.queueNode node.key
    else s.applyRetryAfter node result
  | .suspended =>
    match result.suspension with
    | some suspension =>
      if completion.revision ≠ node.desiredRevision then s.queueNode node.key
      else s.applySuspended node result suspension
    | none => s.queueNode node.key
  | .cancelled => s.applyCancelled node completion
  | .failed => s.applyFailed node completion result.error

/-- `ApplyCompletion`. -/
def applyCompletion (s : World) (completion : Completion) : World :=
  match s.nodes.find? completion.key with
  | none => s
  | some node =>
    let stale := !s.accepts node completion
    let landed := (s.modifyNode completion.key fun node => { node with
      buildInFlight := false }).log (.judged completion.key completion.generation stale
        completion.dependencies)
    if stale then landed.queueNode completion.key
    else landed.applyResult { node with buildInFlight := false } completion
      (s.checkedResult node completion.result)

/-- The node of a completion goes once nobody wants it and nothing waits for it. -/
def cleanUp (s : World) (key : ArtifactKey) : World :=
  match s.nodes.find? key with
  | none => s
  | some node =>
    if !node.desired && !node.buildInFlight && s.hasNoDependents key then s.eraseNode key else s

/-- One completion of the drain's batch. -/
def landCompletion (s : World) (completion : Completion) : World :=
  let s :=
    match s.prepareAcceptance completion with
    | some dispatch => { s with slice := { s.slice with
        acceptanceDispatches := s.slice.acceptanceDispatches ++ [dispatch] } }
    | none => s.applyCompletion completion
  s.cleanUp completion.key

/-- A completion as it is taken from the queue: its submission set is asked once. -/
def evaluateCompletion (s : World) (completion : Completion) : Completion :=
  match completion.result.outcome, completion.result.gpuSubmissions with
  | .ready, some token =>
    let status := s.gpuStatus token
    if status.failed then { completion with result := failure status.failure }
    else { completion with
      gpuSubmitted := status.submitted, gpuComplete := status.submitted && status.complete }
  | _, _ => completion

/-! ## Submission sets -/

/-- `Failed` of a set found failed. -/
def gpuFailed (s : World) (key : ArtifactKey) (error : String) : World :=
  let s := (s.modifyNode key fun node => { node with
    error := if error = "" then "GPU submission failed" else error
    terminalFailure := true, waitingGpuSubmissions := none }).setState key .failed
  let s := (((s.storeVersion key).announceNode key).wakeWaiters key).promoteSuccessor key
  { s with gpuWaiting := s.gpuWaiting - 1 }

/-- The set has been submitted: the version may be consumed on the GPU. -/
def gpuSubmitted (s : World) (key : ArtifactKey) : World :=
  ((((s.setState key .uploadSubmitted).storeVersion key).announceNode key).wakeWaiters key)

/-- The set has completed. -/
def gpuCompleted (s : World) (key : ArtifactKey) (node : Node) : World :=
  let s := (s.modifyNode key fun node => { node with waitingGpuSubmissions := none }).setState key
    (if node.published then .published else .gpuReady)
  let s := (((s.storeVersion key).announceNode key).wakeWaiters key).promoteSuccessor key
  { s with gpuWaiting := s.gpuWaiting - 1 }

/-- One evaluated signal. -/
def applyGpu (s : World) (evaluation : EvaluatedGpu) : World :=
  let key := evaluation.signal.key
  match s.nodes.find? key with
  | none => s
  | some node =>
    if node.generation ≠ evaluation.signal.generation
        ∨ node.waitingGpuSubmissions ≠ some evaluation.signal.token then s
    else if evaluation.failed then s.gpuFailed key evaluation.error
    else if node.state = .cpuReady ∧ evaluation.submitted then
      let s := s.gpuSubmitted key
      if evaluation.complete then s.gpuCompleted key node else s.handOn key
    else if node.state ≠ .uploadSubmitted ∨ evaluation.complete = false then s
    else s.gpuCompleted key node

/-! ## Retries and suspensions -/

/-- The top of the retry queue. -/
def nextRetry (retries : List RetryEntry) : Option RetryEntry :=
  retries.find? fun entry => retries.all fun other => decide (entry.deadline ≤ other.deadline)

/-- The node the entry was made for has moved on. -/
def retryStale (s : World) (entry : RetryEntry) : Bool :=
  match s.nodes.find? entry.key with
  | none => true
  | some node => node.generation != entry.generation || node.retryAt != some entry.deadline

/-- A retry that is due. -/
def applyRetry (s : World) (entry : RetryEntry) : World :=
  (s.modifyNode entry.key fun node => { node with retryAt := none }).queueNode entry.key

/-- `ApplySuspensionSatisfied`. -/
def applySuspensionSatisfied (s : World) (identity : Nat) : World :=
  match s.suspendedByIdentity.find? identity with
  | none =>
    { s with satisfiedSuspensions :=
        if identity ∈ s.satisfiedSuspensions then s.satisfiedSuspensions
        else s.satisfiedSuspensions ++ [identity] }
  | some version =>
    let s := { s with suspendedByIdentity := s.suspendedByIdentity.erase identity }
    match s.nodes.find? version.address with
    | none => s
    | some node =>
      if node.desiredRevision = version.revision ∧ node.generation = version.generation
          ∧ node.suspension.map ArtifactSuspension.identity = some identity then
        (s.modifyNode version.address fun node => { node with suspension := none }).queueNode
          version.address
      else s

/-! ## Exact awaiters -/

/-- `TerminationFor`. -/
def terminationFor (s : World) (snapshot : ArtifactSnapshot) : ArtifactTermination :=
  match s.refusalReasons.find? snapshot.version with
  | some status =>
    { version := snapshot.version, readiness := snapshot.readiness, refused := true
      error := "request refused (" ++ status.name ++ ")" }
  | none =>
    let error :=
      match s.nodes.find? snapshot.key with
      | some node =>
        if node.versionGeneration = snapshot.generation ∧ node.error ≠ "" then node.error
        else snapshot.readiness.name
      | none => snapshot.readiness.name
    { version := snapshot.version, readiness := snapshot.readiness, refused := false, error }

/-- `DispatchExactOutcome`: one of the two callbacks, called once. -/
def dispatchExactOutcome (s : World) (subscription : Nat) (snapshot : ArtifactSnapshot) : World :=
  s.log (.awaited subscription
    (if snapshot.readiness.terminal then .terminal (s.terminationFor snapshot)
     else .reached snapshot))

/-- The snapshot settles an awaiter of the milestone. -/
def settles (snapshot : ArtifactSnapshot) (milestone : ArtifactReadiness) : Bool :=
  snapshot.readiness.terminal || snapshot.readiness.satisfies milestone

/-- A cancelled awaiter is unregistered, or remembered until its registration arrives. -/
def cancelAwait (s : World) (v : VersionID) (subscription : Nat) : World :=
  let registered := (s.exactWaiters.find? v).getD []
  if registered.any fun waiter => waiter.subscription == subscription then
    let rest := registered.filter fun waiter => waiter.subscription != subscription
    { s with
      exactWaiters := if rest = [] then s.exactWaiters.erase v else s.exactWaiters.insert v rest
      exactWaiterCount := s.exactWaiterCount - 1 }
  else
    { s with cancelledAwaitSubscriptions :=
        if subscription ∈ s.cancelledAwaitSubscriptions then s.cancelledAwaitSubscriptions
        else s.cancelledAwaitSubscriptions ++ [subscription] }

/-- One operation of `ApplyPostedAwaits`. -/
def applyAwait (s : World) (operation : PostedAwait) : World :=
  let v := s.canonical operation.version
  if operation.cancel then s.cancelAwait v operation.subscription
  else if operation.subscription ∈ s.cancelledAwaitSubscriptions then
    { s with cancelledAwaitSubscriptions :=
        s.cancelledAwaitSubscriptions.erase operation.subscription }
  else
    let (s, snapshot) := s.snapshotExact operation.version
    if settles snapshot operation.milestone then
      { s with slice := { s.slice with
        settledAwaits := s.slice.settledAwaits ++ [(operation, snapshot)] } }
    else
      { s with
        exactWaiters := s.exactWaiters.insert v ((s.exactWaiters.find? v).getD [] ++
          [{ subscription := operation.subscription, version := v
             milestone := operation.milestone, lease := operation.lease }])
        exactWaiterCount := s.exactWaiterCount + 1 }

/-- The awaiters one announced snapshot settles leave the table for the slice's dispatches. -/
def dispatchReady (s : World) (snapshot : ArtifactSnapshot) : World :=
  match s.exactWaiters.find? snapshot.version with
  | none => s
  | some registered =>
    let settled := fun waiter : ExactWaiter =>
      snapshot.generation == waiter.version.generation && settles snapshot waiter.milestone
    let rest := registered.filter fun waiter => !settled waiter
    { s with
      exactWaiters :=
        if rest = [] then s.exactWaiters.erase snapshot.version
        else s.exactWaiters.insert snapshot.version rest
      exactWaiterCount := s.exactWaiterCount - (registered.filter settled).length
      slice := { s.slice with exactDispatches := s.slice.exactDispatches ++
        (registered.filter settled).map fun waiter => (waiter, snapshot) } }

end ModuleServices.Graph.World
