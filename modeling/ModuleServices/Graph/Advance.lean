import ModuleServices.Graph.Edges

/-!
# How a node moves on

`queueNode` admits the active version to its build or leaves it blocked, `promoteSuccessor`
replaces a version that has gone as far as it will by the next queued one, and
`wakeWaiter` tells a consumer that a dependency has changed. They are the functions
every other entry into the graph ends in.
-/

namespace ModuleServices.Graph

/-- Not to be queued: undesired, failed for good, building, queued, or already as far as a build
brings it. -/
def Node.settled (node : Node) : Bool :=
  !node.desired || node.terminalFailure || node.buildInFlight || node.state == .queued
    || (node.state == .cpuReady && node.waitingGpuSubmissions.isSome)
    || node.state == .uploadSubmitted
    || (node.producedRevision == node.desiredRevision
      && (node.state == .gpuReady || node.state == .published))

namespace World

/-- The version at the cursor. -/
def cursorVersion (node : Node) : VersionID :=
  ⟨node.key, node.producedRevision, node.versionGeneration⟩

/-- The node has something to store: nothing produced, or no payload, is nothing. -/
def storable (s : World) (key : ArtifactKey) : Option Node :=
  (s.nodes.find? key).filter fun node => node.producedRevision != 0 && node.payload.valid

/-- `StoreVersion`. -/
def storeVersion (s : World) (key : ArtifactKey) : World :=
  let stored := s.storable key
  { s with
    dirtyViews := markDirty s.dirtyViews key stored.isSome
    versions := stored.elim s.versions fun node =>
      s.versions.insert (cursorVersion node) { makeSnapshot node with lease := none }
    archivedVersionsByKind := stored.elim s.archivedVersionsByKind fun node =>
      recount s.archivedVersionsByKind node.key.kind s.kindCount
        (s.versions.contains (cursorVersion node)) true
    reclaimQueue := s.reclaimQueue ++ (stored.map cursorVersion).toList }

def push (s : World) (key : ArtifactKey) : World := { s with pending := s.pending ++ [key] }

def propagate (s : World) (snapshot : ArtifactSnapshot) : World :=
  { s with propagatedReady := s.propagatedReady ++ [snapshot] }

/-- The node's snapshot joins the ones to be announced, at once or after the wakes. -/
def announceNode (s : World) (key : ArtifactKey) : World :=
  { s with slice := { s.slice with
      ready := s.slice.ready ++ ((s.nodes.find? key).map makeSnapshot).toList } }

def propagateNode (s : World) (key : ArtifactKey) : World :=
  { s with propagatedReady := s.propagatedReady ++ ((s.nodes.find? key).map makeSnapshot).toList }

/-- The first mandatory requirement whose selected version has ended. -/
def terminalDependency (s : World) (node : Node) :
    Option (ArtifactRequirement × ArtifactReadiness) :=
  node.requirements.findSome? fun r =>
    if r.policy ≠ .allOf ∨ r.invalidation = .lifetimeHold then none
    else ((s.selectSnapshot r).filter fun d => d.readiness.terminal).map fun d => (r, d.readiness)

/-- The end of a node whose mandatory dependency has ended. -/
def failDependent (s : World) (key : ArtifactKey) (r : ArtifactRequirement)
    (readiness : ArtifactReadiness) : World :=
  let error := "required dependency " ++ keyString r.key ++ " terminated in state "
    ++ readiness.name
  (((((s.modifyNode key fun node => { node with error, terminalFailure := true }).setState key
    .failed).storeVersion key).propagateNode key).wakeWaiters key)

/-- What `QueueNode` decides for a node that is not settled, its gates latched. -/
def admitNode (s : World) (key : ArtifactKey) : World :=
  match s.nodes.find? key with
  | none => s
  | some node =>
    if s.dependenciesSatisfied node then (s.setState key .queued).push key
    else
      match s.terminalDependency node with
      | some (r, readiness) => s.failDependent key r readiness
      | none => s.setState key .blocked

/-- `QueueNode`. -/
def queueNode (s : World) (key : ArtifactKey) : World :=
  match s.nodes.find? key with
  | none => s
  | some node => if node.settled then s else (s.latchReadyGates key).admitNode key

/-- The end of both ways to install a version: a recipe in a cycle fails, any other is queued. -/
def startVersion (s : World) (key : ArtifactKey) : World :=
  let (s, cycle) := s.detectCycle key
  if cycle = [] then s.queueNode key else s.failCycle cycle

/-- A new cancellation flag. -/
def freshFlag (s : World) : World := { s with nextFlag := s.nextFlag + 1 }

/-- The node as `PromoteSuccessor` sets it up for a queued version. -/
def promoted (node : Node) (successor : RequestedVersion) (successors : List RequestedVersion)
    (flag : Nat) : Node :=
  { node with
    desiredRevision := successor.revision
    versionGeneration := successor.generation
    requestFingerprint := successor.fingerprint
    lease := successor.lease
    requirements := successor.requirements
    requestedRequirements := successor.requestedRequirements
    input := successor.input
    checkpoint := {}
    payload := {}
    resolvedDependencies := []
    gpuSubmissions := none
    waitingGpuSubmissions := none
    producedRevision := 0
    published := false
    terminalFailure := false
    latestSuccessorNeeded := false
    coalescibleIntent := successor.coalescibleIntent
    superseded := flag
    buildAttempted := false
    error := ""
    retryAt := none
    generation := successor.generation
    successors }

/-- The version a node has produced, to be offered to reclamation once it is no longer the
cursor's. -/
def previousVersion (node : Node) : List VersionID :=
  if node.producedRevision = 0 then [] else [cursorVersion node]

/-- `PromoteSuccessor` up to its cycle search, for a node with a queued version. -/
def installSuccessor (s : World) (key : ArtifactKey) (node : Node) (successor : RequestedVersion)
    (successors : List RequestedVersion) : World :=
  let s := s.storeVersion key
  let s : World := { s with gpuWaiting :=
    if node.state = .uploadSubmitted then s.gpuWaiting - 1 else s.gpuWaiting }
  let s := (s.removeWaiterEdges key).unpinSuccessor key successor
  let s := (s.modifyNode key fun node => promoted node successor successors s.nextFlag).freshFlag
  ((s.installWaiterEdges key []).queueReclaim (previousVersion node)).setState key .missing

/-- `PromoteSuccessor`. -/
def promoteSuccessor (s : World) (key : ArtifactKey) : World :=
  match s.nodes.find? key with
  | none => s
  | some node =>
    if node.buildInFlight then s
    else
      match node.successors with
      | [] => s
      | successor :: successors => (s.installSuccessor key node successor successors).startVersion key

/-- The fingerprint of a version minted for a Latest edge that has advanced. -/
def latestFingerprint (fingerprint revision generation : Nat) : Nat :=
  let hash := hashRequestValue (hashRequestValue fingerprint revision) generation
  if hash = 0 then 1 else hash

/-- The successor minted for a Latest edge, appended to the node's queue. -/
def mintLatest (s : World) (key : ArtifactKey) (node : Node) : World :=
  let generation := s.nextVersionGeneration + 1
  let s := { s with nextVersionGeneration := generation }
  let (s, token) := s.acquireVersionLease ⟨key, node.desiredRevision, generation⟩
  let successor : RequestedVersion :=
    { revision := node.desiredRevision, generation
      fingerprint := latestFingerprint node.requestFingerprint node.desiredRevision generation
      input := node.input
      requirements := node.requestedRequirements
      requestedRequirements := node.requestedRequirements
      lease := some token
      coalescibleIntent := node.coalescibleIntent }
  (s.modifyNode key fun node => { node with
    successors := node.successors ++ [successor], latestSuccessorNeeded := false }).pinSuccessor key
    successor

/-- `QueueLatestSuccessor`. -/
def queueLatestSuccessor (s : World) (key : ArtifactKey) : World :=
  match s.nodes.find? key with
  | none => s
  | some node =>
    if node.buildInFlight ∨ node.producedRevision = 0 ∨ (node.state ≠ .uploadSubmitted
        ∧ node.state ≠ .gpuReady ∧ node.state ≠ .published) then s
    else if node.successors ≠ [] then
      (s.modifyNode key fun node => { node with latestSuccessorNeeded := false }).promoteSuccessor key
    else (s.mintLatest key node).promoteSuccessor key

/-- The requirement a wake from an address is about: the first the recipe has for it. -/
def wokenRequirement (node : Node) (key : ArtifactKey) : Option ArtifactRequirement :=
  node.requestedRequirements.find? fun r => r.key == key

/-- `keyIsSelected`: the recipe uses this address now. -/
def keyIsSelected (s : World) (node : Node) (r : ArtifactRequirement) : Bool :=
  if r.policy = .anyOf ∨ r.policy = .fallbackAllowed then
    (node.requestedRequirements.find? fun candidate =>
      alternative candidate r && s.requirementSatisfied candidate).any fun candidate =>
      candidate.key == r.key
  else s.requirementSatisfied r

/-- `exactSelectionAlreadyUsed`: the cursor's version is the one captured. Past 32 captured
dependencies the source reads an index of the first one of each address. -/
def exactSelectionAlreadyUsed (s : World) (node : Node) (key : ArtifactKey) : Bool :=
  match s.nodes.find? key with
  | none => false
  | some current =>
    let isCurrent := fun dependency : ArtifactSnapshot =>
      dependency.revision == current.producedRevision
        && dependency.generation == current.versionGeneration
    if 32 < node.resolvedDependencies.length then
      (node.resolvedDependencies.find? fun dependency => dependency.key == key).any isCurrent
    else node.resolvedDependencies.any fun dependency => dependency.key == key && isCurrent dependency

/-- A Latest dependency of the recipe has moved past what the node captured. -/
def latestMoved (s : World) (node : Node) (key : ArtifactKey) : Bool :=
  (wokenRequirement node key).any fun r =>
    r.invalidation == .latest && s.keyIsSelected node r && !s.exactSelectionAlreadyUsed node key

/-- `WakeWaiter`. -/
def wakeWaiter (s : World) (key waiter : ArtifactKey) : World :=
  match s.nodes.find? waiter with
  | none => s
  | some node =>
    let moved := s.latestMoved node key
    if moved ∧ (node.state = .gpuReady ∨ node.state = .published
        ∨ node.state = .uploadSubmitted) then
      s.queueLatestSuccessor waiter
    else if moved ∧ node.buildAttempted then
      (s.modifyNode waiter fun node => { node with latestSuccessorNeeded := true }).queueNode waiter
    else s.queueNode waiter

end World

end ModuleServices.Graph
