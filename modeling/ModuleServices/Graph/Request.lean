import ModuleServices.Graph.Advance

/-!
# Requests and the other queued mutations

`requestInternal` is the one way a version is asked for; `cancelLocked`, `releaseLocked`
and `markPublishedLocked` are the mutations that act on an address directly. All of them
are applied by the drain, one queue entry at a time.
-/

namespace ModuleServices.Graph

/-- The active version is not built and finished. -/
def Node.busy (node : Node) : Bool :=
  node.desiredRevision != 0
    && !(node.producedRevision == node.desiredRevision
      && (node.state == .gpuReady || node.state == .published))

/-- The revision is the active one or queued. -/
def Node.stillDesired (node : Node) (revision : Nat) : Bool :=
  node.desired && (node.desiredRevision == revision
    || node.successors.any fun successor => successor.revision == revision)

/-- The milestones that a publication may follow. -/
def ArtifactReadiness.publishable (state : ArtifactReadiness) : Bool :=
  state == uploadSubmitted || state == gpuReady || state == published

namespace World

/-! ## Cancel, release, publication -/

/-- `CancelLocked`. -/
def cancelLocked (s : World) (key : ArtifactKey) : World :=
  match s.nodes.find? key with
  | none => s
  | some node =>
    let s := s.removeWaiterEdges key
    let s := s.modifyNode key fun node => { node with generation := node.generation + 1 }
    let s := (s.setDesired key false).queueReclaim (s.addressVersions key)
    let s := s.clearSuccessors key
    let s : World := { s with
      gpuWaiting :=
        if (node.state = .cpuReady ∨ node.state = .uploadSubmitted)
            ∧ node.waitingGpuSubmissions.isSome then s.gpuWaiting - 1
        else s.gpuWaiting
      pendingCancellations := s.pendingCancellations ++ node.waitingGpuSubmissions.toList }
    (s.modifyNode key fun node => { node with
      retryAt := none, waitingGpuSubmissions := none, gpuSubmissions := none
      lease := none }).setState key .cancelled

/-- The node and its visit mark go; only the address's archive stays. -/
def eraseNode (s : World) (key : ArtifactKey) : World :=
  match s.nodes.find? key with
  | none => s
  | some node =>
    { s.markViewDirty key with
      nodeStateCounts := fun i =>
        if i = node.state then s.nodeStateCounts i - 1 else s.nodeStateCounts i
      nodes := s.nodes.erase key
      cycleVisits := s.cycleVisits.erase key }

/-- `ReleaseLocked`. -/
def releaseLocked (s : World) (key : ArtifactKey) : World :=
  let s := s.cancelLocked key
  match s.nodes.find? key with
  | none => s
  | some node => if !node.buildInFlight && s.hasNoDependents key then s.eraseNode key else s

/-- The archived copy's part of `MarkPublishedLocked`. -/
def publishArchived (s : World) (v : VersionID) : World :=
  match s.versions.find? v with
  | none => s
  | some archived =>
    if archived.readiness.publishable = false then s
    else if archived.readiness = .published then s.queueReclaim [v]
    else
      { s.queueReclaim [v] with
        versions := s.versions.insert v { archived with readiness := .published }
        publishedSignals := s.publishedSignals ++ [v] }

/-- The cursor's part of `MarkPublishedLocked`. -/
def publishCursor (s : World) (v : VersionID) : World :=
  match s.nodes.find? v.address with
  | none => s
  | some node =>
    if node.producedRevision ≠ v.revision ∨ node.versionGeneration ≠ v.generation then s
    else if node.state.publishable = false then s
    else if node.published ∧ node.state = .published then s
    else
      let s := s.modifyNode v.address fun node => { node with published := true }
      let s := if node.state = .gpuReady then s.setState v.address .published else s
      (s.storeVersion v.address).wakeWaiters v.address

/-- `MarkPublishedLocked`. -/
def markPublishedLocked (s : World) (requested : VersionID) : World :=
  if requested.isNamed then
    let version := s.canonical requested
    (s.publishArchived version).publishCursor version
  else s

/-- `MarkPublishedRevisionLocked`: every archived generation of the revision, then the cursor. -/
def markPublishedRevisionLocked (s : World) (key : ArtifactKey) (revision : Nat) : World :=
  let archived := (s.addressVersions key).filter fun v => v.revision == revision
  let s := archived.foldl markPublishedLocked s
  match s.nodes.find? key with
  | none => s
  | some node =>
    if node.producedRevision = revision then
      s.markPublishedLocked ⟨key, revision, node.versionGeneration⟩
    else s

/-! ## Generations, aliases and refusals -/

/-- `ReserveGeneration`. -/
def reserveGeneration (s : World) (v : VersionKey) : World × Nat :=
  match s.reservedGenerations.find? v with
  | some generation => (s, generation)
  | none =>
    ({ s with
      nextVersionGeneration := s.nextVersionGeneration + 1
      reservedGenerations := s.reservedGenerations.insert v (s.nextVersionGeneration + 1) },
      s.nextVersionGeneration + 1)

/-- `CanonicalizeRequirements`. -/
def canonicalizeRequirements (s : World) (requirements : List ArtifactRequirement) :
    List ArtifactRequirement :=
  requirements.map fun r =>
    if r.requiredGeneration = 0 then r
    else { r with requiredGeneration := (s.canonical r.version).generation }

/-- `MigrateAliasedVersion`. -/
def migrateAliasedVersion (s : World) (predicted version : VersionID) : World :=
  if predicted = version then s
  else
    let s : World :=
      match s.exactWaiters.find? predicted with
      | none => s
      | some waiting =>
        let destination := (s.exactWaiters.find? version).getD []
        { s with exactWaiters := (s.exactWaiters.insert version
            (destination ++ waiting.map fun waiter : ExactWaiter => { waiter with version })).erase predicted }
    let s : World :=
      match s.exactRecipePins.find? predicted with
      | none => s
      | some count =>
        { s with exactRecipePins := (s.exactRecipePins.insert version
            ((s.exactRecipePins.find? version).getD 0 + count)).erase predicted }
    s.registerVersionLease version (s.leaseOf predicted)

/-- `aliasPredicted`. -/
def aliasPredicted (s : World) (requested : VersionKey) (preassigned generation : Nat) : World :=
  if preassigned = 0 ∨ preassigned = generation then s
  else
    let predicted : VersionID := ⟨requested.address, requested.revision, preassigned⟩
    let version : VersionID := ⟨requested.address, requested.revision, generation⟩
    ({ s.markViewDirty requested.address with
      generationAliases := s.generationAliases.insert predicted version }).migrateAliasedVersion
      predicted version

/-- `StoreRefusedVersion`. -/
def storeRefusedVersion (s : World) (v : VersionID) (status : ArtifactRequestStatus)
    (lease : Option Nat) : World :=
  let refused : ArtifactSnapshot :=
    { key := v.address, revision := v.revision, generation := v.generation, readiness := .failed }
  let s : World := { s with
    versions := s.versions.insert v refused
    archivedVersionsByKind := fun i =>
      if i = v.address.kind ∧ i < s.kindCount then s.archivedVersionsByKind i + 1
      else s.archivedVersionsByKind i
    refusalReasons := s.refusalReasons.insert v status }
  ((s.registerVersionLease v lease).queueReclaim [v]).markViewDirty v.address

/-- `rejectPredicted`: the generation the caller is told is `generation` in every case. -/
def rejectPredicted (s : World) (requested : VersionKey) (status : ArtifactRequestStatus)
    (preassigned generation : Nat) (lease : Option Nat) (createdHere : Bool) : World :=
  if preassigned = 0 ∨ (createdHere = false ∧ preassigned = generation) then s
  else
    let refused : VersionID := ⟨requested.address, requested.revision, preassigned⟩
    let s := (s.storeRefusedVersion refused status lease).propagate
      { key := requested.address, revision := requested.revision, generation := preassigned
        readiness := .failed }
    if createdHere then
      { s with
        versionGenerations := s.versionGenerations.erase requested
        reservedGenerations := s.reservedGenerations.erase requested }
    else s

/-! ## RequestInternal -/

/-- One call of `RequestInternal`; the two last fields are those of a posted handle. -/
structure RequestArgs where
  key : ArtifactKey
  desiredRevision : Nat
  requirements : List ArtifactRequirement := []
  input : ArtifactPayload := {}
  requestFingerprint : Nat := 0
  coalescibleIntent : Bool := false
  preassignedGeneration : Nat := 0
  preassignedLease : Option Nat := none
  deriving DecidableEq, Repr

namespace RequestArgs

def version (a : RequestArgs) : VersionKey := ⟨a.key, a.desiredRevision⟩

/-- The refusals that need no graph state: the coalescing policy, the input's type and a missing
fingerprint. -/
def refusal (s : World) (a : RequestArgs) : Option ArtifactRequestStatus :=
  if a.coalescibleIntent ∧ (s.kindPolicy a.key.kind).allowCoalescing = false then some .typeMismatch
  else if (s.findProducer a.key.kind).any fun producer =>
      producer.inputType != 0 && (!a.input.valid || a.input.type != producer.inputType) then
    some .typeMismatch
  else if a.input.valid ∧ a.requestFingerprint = 0 then some .missingFingerprint
  else none

/-- The fingerprint, and the recipe through the aliases known by now. -/
def prepare (s : World) (a : RequestArgs) : RequestArgs :=
  { a with
    requestFingerprint :=
      if a.requestFingerprint = 0 then
        canonicalRequestFingerprint a.key a.desiredRevision a.requirements
      else a.requestFingerprint
    requirements := s.canonicalizeRequirements a.requirements }

def signature (a : RequestArgs) : VersionSignature :=
  { fingerprint := a.requestFingerprint, inputType := a.input.type, requirements := a.requirements }

def asSuccessor (a : RequestArgs) (generation : Nat) (lease : Nat) : RequestedVersion :=
  { revision := a.desiredRevision, generation, fingerprint := a.requestFingerprint, input := a.input
    requirements := a.requirements, requestedRequirements := a.requirements, lease := some lease
    coalescibleIntent := a.coalescibleIntent }

end RequestArgs

/-- The answer about a version, with the node's generation as it is now. -/
def answer (s : World) (a : RequestArgs) (status : ArtifactRequestStatus) (generation : Nat)
    (lease : Option Nat) : ArtifactRequestResult :=
  { status, generation := ((s.nodes.find? a.key).map Node.generation).getD 0
    version := ⟨a.key, a.desiredRevision, generation⟩, lease }

/-- The generation of the requested revision: the one it has, the one predicted, or the reserved
one. -/
def ensureGeneration (s : World) (a : RequestArgs) : World × Nat :=
  match s.versionGenerations.find? a.version with
  | some generation => (s, generation)
  | none =>
    let (s, generation) :=
      if a.preassignedGeneration ≠ 0 then (s, a.preassignedGeneration)
      else s.reserveGeneration a.version
    ({ s with versionGenerations := s.versionGenerations.insert a.version generation }, generation)

/-- `nodes.try_emplace(key)`, with the key written and the address desired. -/
def ensureNode (s : World) (key : ArtifactKey) : World :=
  let s : World :=
    match s.nodes.find? key with
    | some _ => s.modifyNode key fun node => { node with key }
    | none =>
      { s with
        nodes := s.nodes.insert key { key, superseded := s.nextFlag }
        nextFlag := s.nextFlag + 1
        nodeStateCounts := fun i =>
          if i = .missing then s.nodeStateCounts i + 1 else s.nodeStateCounts i }
  s.setDesired key true

def acceptsIntent (s : World) (key : ArtifactKey) (node : Node) : Bool :=
  !s.hasExactDependent ⟨key, node.desiredRevision, node.versionGeneration⟩

/-- The loop that drops the queued intents a newer one replaces, from the back up to the last that
is exact or that a recipe pins. -/
def coalesceFrom (key : ArtifactKey) : World → List RequestedVersion → World × List RequestedVersion
  | s, [] => (s, [])
  | s, successor :: rest =>
    if successor.coalescibleIntent
        && !s.hasExactDependent ⟨key, successor.revision, successor.generation⟩ then
      coalesceFrom key (s.unpinSuccessor key successor) rest
    else (s, (successor :: rest).reverse)

/-- What a coalescible intent does to the active version and the queue of an address that is still
busy. -/
def supersede (s : World) (key : ArtifactKey) (node : Node) : World :=
  let s :=
    if s.acceptsIntent key node then
      { s with supersededFlags :=
          if node.superseded ∈ s.supersededFlags then s.supersededFlags
          else s.supersededFlags ++ [node.superseded] }
    else s
  let (s, successors) := coalesceFrom key s node.successors.reverse
  s.modifyNode key fun node => { node with successors }

/-- A queued version of an unfinished address: appended, and promoted at once when the active
version is an intent nobody waits for or has been submitted. -/
def queueSuccessor (s : World) (a : RequestArgs) (node : Node) (generation lease : Nat) : World :=
  let s := if a.coalescibleIntent then s.supersede a.key node else s
  let successor := a.asSuccessor generation lease
  let s := (s.modifyNode a.key fun node => { node with
    successors := node.successors ++ [successor] }).pinSuccessor a.key successor
  let obsoleteBeforeBuild := a.coalescibleIntent && !node.buildInFlight && s.acceptsIntent a.key node
    && (node.state == .missing || node.state == .blocked || node.state == .queued)
  if obsoleteBeforeBuild || (node.state == .uploadSubmitted && !node.buildInFlight) then
    s.promoteSuccessor a.key
  else s

/-- The node as a request sets it up in place. -/
def replaced (node : Node) (a : RequestArgs) (generation lease flag : Nat) : Node :=
  { node with
    desiredRevision := a.desiredRevision
    versionGeneration := generation
    generation
    requestFingerprint := a.requestFingerprint
    lease := some lease
    requirements := a.requirements
    requestedRequirements := a.requirements
    input := a.input
    payload := {}
    checkpoint := {}
    resolvedDependencies := []
    gpuSubmissions := none
    waitingGpuSubmissions := none
    producedRevision := 0
    terminalFailure := false
    latestSuccessorNeeded := false
    coalescibleIntent := a.coalescibleIntent
    superseded := flag
    buildAttempted := false
    error := ""
    retryAt := none }

/-- A request that takes the address over: nothing is active, or it has finished. -/
def replaceVersion (s : World) (a : RequestArgs) (node : Node) (generation lease : Nat) : World :=
  let s := (s.storeVersion a.key).removeWaiterEdges a.key
  let s := (s.modifyNode a.key fun node => replaced node a generation lease s.nextFlag).freshFlag
  let s := (s.queueReclaim (previousVersion node)).setState a.key .missing
  (s.installWaiterEdges a.key (requirementKeys a.requirements)).startVersion a.key

/-- An admitted request: the version is leased and signed, then queued or installed. -/
def acceptRequest (s : World) (a : RequestArgs) (generation : Nat) :
    World × ArtifactRequestResult :=
  let version : VersionID := ⟨a.key, a.desiredRevision, generation⟩
  let s := s.aliasPredicted a.version a.preassignedGeneration generation
  let s := s.registerVersionLease version a.preassignedLease
  let (s, lease) := s.acquireVersionLease version
  let s : World := { s with versionSignatures :=
    if s.versionSignatures.contains a.version then s.versionSignatures
    else s.versionSignatures.insert a.version a.signature }
  let s := (s.modifyNode a.key fun node => { node with
    latestRequestedRevision := a.desiredRevision }).markViewDirty a.key
  let node := (s.nodes.find? a.key).getD {}
  let s :=
    if node.busy then s.queueSuccessor a node generation lease
    else s.replaceVersion a node generation lease
  (s, s.answer a .accepted generation (some lease))

/-- The request found its version already wanted. -/
def alreadyDesired (s : World) (a : RequestArgs) (generation : Nat) :
    World × ArtifactRequestResult :=
  let version : VersionID := ⟨a.key, a.desiredRevision, generation⟩
  let s := s.aliasPredicted a.version a.preassignedGeneration generation
  let s := s.registerVersionLease version a.preassignedLease
  let (s, lease) := s.acquireVersionLease version
  (s, s.answer a .alreadyDesired generation (some lease))

def rejectRequest (s : World) (a : RequestArgs) (status : ArtifactRequestStatus) (generation : Nat)
    (createdHere : Bool) : World × ArtifactRequestResult :=
  let s := s.rejectPredicted a.version status a.preassignedGeneration generation a.preassignedLease
    createdHere
  (s, s.answer a status generation none)

/-- An identical request of a version that is no longer wanted: it keeps its generation only while
the archive still has it. -/
def renewGeneration (s : World) (a : RequestArgs) (generation : Nat) : World × Nat :=
  if s.versions.contains ⟨a.key, a.desiredRevision, generation⟩ then (s, generation)
  else
    let renewed := s.nextVersionGeneration + 1
    ({ s with
      nextVersionGeneration := renewed
      versionGenerations := s.versionGenerations.insert a.version renewed
      reservedGenerations := s.reservedGenerations.insert a.version renewed }, renewed)

/-- `RequestInternal` from the version's signature on. -/
def decideRequest (s : World) (a : RequestArgs) (generation : Nat) (createdHere : Bool) :
    World × ArtifactRequestResult :=
  let node := (s.nodes.find? a.key).getD {}
  match s.versionSignatures.find? a.version with
  | some known =>
    if known ≠ a.signature then
      s.rejectRequest a .conflictingRevision generation createdHere
    else if !node.stillDesired a.desiredRevision
        && decide (a.desiredRevision < node.latestRequestedRevision) then
      s.rejectRequest a .staleRevision generation createdHere
    else if node.stillDesired a.desiredRevision then s.alreadyDesired a generation
    else
      let (s, generation) := s.renewGeneration a generation
      s.acceptRequest a generation
  | none =>
    if node.latestRequestedRevision ≠ 0 ∧ a.desiredRevision < node.latestRequestedRevision then
      s.rejectRequest a .staleRevision generation createdHere
    else s.acceptRequest a generation

/-- `RequestInternal`, without the log entry. -/
def requestBody (s : World) (a : RequestArgs) : World × ArtifactRequestResult :=
  match a.refusal s with
  | some status => (s, { status })
  | none =>
    let a := a.prepare s
    let createdHere := !s.versionGenerations.contains a.version
    let (s, generation) := s.ensureGeneration a
    (s.ensureNode a.key).decideRequest a generation createdHere

/-- `RequestInternal`. -/
def requestInternal (s : World) (a : RequestArgs) : World :=
  let (s, result) := s.requestBody a
  s.log (.answered a.key a.desiredRevision a.coalescibleIntent result)

def ofIntent (intent : ArtifactIntent) (coalescible : Bool) : RequestArgs :=
  { key := intent.key, desiredRevision := intent.desiredRevision
    requirements := intent.requirements, input := intent.input
    requestFingerprint := intent.requestFingerprint, coalescibleIntent := coalescible }

/-- `Invalidate`: the newest recipe of the address, requested again. -/
def invalidateArgs (s : World) (key : ArtifactKey) (desiredRevision : Nat) : RequestArgs :=
  match s.nodes.find? key with
  | none => { key, desiredRevision }
  | some node =>
    match node.successors.getLast? with
    | some latest =>
      { key, desiredRevision, requirements := latest.requirements, input := latest.input
        requestFingerprint := latest.fingerprint }
    | none =>
      { key, desiredRevision, requirements := node.requirements, input := node.input
        requestFingerprint := node.requestFingerprint }

/-- `PumpGpuCompletionsLocked`. -/
def pumpGpuCompletions (s : World) : World :=
  { s with gpuSignals := s.gpuSignals ++ (s.nodes.toList.filter fun entry =>
      (entry.2.state == .cpuReady || entry.2.state == .uploadSubmitted)
        && entry.2.waitingGpuSubmissions.isSome).map Prod.fst }

/-- The intents of `SubmitLatestIntentBatch` that its validation lets through. -/
def validIntent (s : World) (coalescible : Bool) (intent : ArtifactIntent) : Bool :=
  !coalescible || ((s.kindPolicy intent.key.kind).allowCoalescing
    && !(intent.input.valid && intent.requestFingerprint == 0))

def applyMutation (s : World) : Mutation → World
  | .requestBatch intents coalescible =>
    (intents.filter (s.validIntent coalescible)).foldl
      (fun s intent => s.requestInternal (ofIntent intent coalescible)) s
  | .invalidate key desiredRevision => s.requestInternal (s.invalidateArgs key desiredRevision)
  | .cancel key => s.cancelLocked key
  | .release keys => keys.foldl releaseLocked s
  | .markPublished versions => versions.foldl markPublishedLocked s
  | .markPublishedRevision key revision => s.markPublishedRevisionLocked key revision
  | .pumpGpuCompletions => s.pumpGpuCompletions
  | .addReadyCallback subscription =>
    { s with readyCallbacks :=
        if subscription ∈ s.readyCallbacks then s.readyCallbacks
        else s.readyCallbacks ++ [subscription] }
  | .removeReadyCallback subscription =>
    { s with readyCallbacks := s.readyCallbacks.filter (· != subscription) }
  | .observe address subscription =>
    if subscription ∈ s.readyCallbacks then
      match s.nodes.find? address with
      | none => s
      | some node => s.propagate { makeSnapshot node with lease := none }
    else s

/-- One entry of `ApplyPostedRequestBatch`. -/
def applyPosted (s : World) : PostedRequest → World
  | .request intent coalescible generation lease =>
    s.requestInternal { ofIntent intent coalescible with
      preassignedGeneration := generation, preassignedLease := lease }
  | .mutation m => s.applyMutation m

end World

end ModuleServices.Graph
