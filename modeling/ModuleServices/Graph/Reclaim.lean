import ModuleServices.Graph.Complete

/-!
# Builds, reclamation and the published views

The later half of a drain slice: starting the queued builds, letting go of versions
nothing refers to, and publishing the addresses that changed.
-/

namespace ModuleServices.Graph.World

/-! ## Builds -/

/-- The end of a node whose kind has nothing to build it with. -/
def failProducerless (s : World) (key : ArtifactKey) : World :=
  ((s.modifyNode key fun node => { node with error := "no producer registered" }).setState key
    .failed).announceNode key

/-- A build starts: it captures its dependencies and joins the slice's builds. -/
def startBuild (s : World) (key : ArtifactKey) (node : Node) : World :=
  let continuation := node.buildAttempted
  let s := (s.modifyNode key fun node => { node with
    buildInFlight := true, buildAttempted := true }).setState key .preparing
  let (s, dependencies) := s.dependencySnapshots node
  let context : BuildContext :=
    { key, revision := node.desiredRevision, generation := node.generation, dependencies
      input := node.input, checkpoint := node.checkpoint, superseded := node.superseded
      continuation }
  { s with slice := { s.slice with builds := s.slice.builds ++ [context], late := true } }

/-- One entry of the build queue. The recipe may have changed since it was queued, so it is judged
again. -/
def takePending (s : World) (key : ArtifactKey) : World :=
  match s.nodes.find? key with
  | none => s
  | some node =>
    if node.state ≠ .queued ∨ node.buildInFlight then s
    else
      let s := s.latchReadyGates key
      match s.nodes.find? key with
      | none => s
      | some node =>
        if s.dependenciesSatisfied node = false then s.setState key .blocked
        else if (s.findProducer node.key.kind).any Producer.callable then s.startBuild key node
        else s.failProducerless key

/-! ## Reclamation -/

/-- `RecipeReferences`. -/
def recipeReferences (s : World) (v : VersionID) (requirements : List ArtifactRequirement) : Bool :=
  requirements.any fun r =>
    r.key == v.address &&
      if r.invalidation = .latest then
        (s.selectSnapshot r).any fun selected =>
          selected.revision == v.revision && selected.generation == v.generation
      else
        r.minimumRevision == v.revision
          && (r.requiredGeneration == 0 || r.requiredGeneration == v.generation)

def waiterReferenced (s : World) (v : VersionID) : Bool :=
  ((s.waiters.find? v.address).getD []).any fun consumer =>
    (s.nodes.find? consumer).any fun node =>
      s.recipeReferences v node.requirements || s.recipeReferences v node.requestedRequirements
        || node.successors.any fun successor => s.recipeReferences v successor.requirements

def cursorReferenced (s : World) (v : VersionID) : Bool :=
  (s.nodes.find? v.address).any fun node =>
    node.desired &&
      ((node.desiredRevision == v.revision && node.versionGeneration == v.generation)
        || (node.producedRevision == v.revision && node.versionGeneration == v.generation)
        || node.successors.any fun successor =>
          successor.revision == v.revision && successor.generation == v.generation)

/-- Something still needs the archived version. -/
def referenced (s : World) (v : VersionID) : Bool :=
  s.hasExactDependent v || (s.leaseOf v).isSome || s.waiterReferenced v || s.cursorReferenced v

/-- The weak token of a version goes once it has expired. -/
def forgetLease (s : World) (v : VersionID) : World :=
  { s with versionLeases :=
      if (s.leaseOf v).isSome then s.versionLeases else s.versionLeases.erase v }

/-- The version leaves the archive. -/
def reclaimVersion (s : World) (v : VersionID) (snapshot : ArtifactSnapshot) : World :=
  ({ s.markViewDirty v.address with
    pendingRetirement := s.pendingRetirement ++ [snapshot]
    versions := s.versions.erase v
    archivedVersionsByKind := fun i =>
      if i = v.address.kind ∧ i < s.kindCount then s.archivedVersionsByKind i - 1
      else s.archivedVersionsByKind i
    reclaimedVersions := s.reclaimedVersions + 1
    refusalReasons := s.refusalReasons.erase v
    slice := { s.slice with late := true } }.forgetLease v).log (.reclaimed v)

/-- One candidate of `ReclaimUnreferencedVersions`. -/
def reclaimCandidate (s : World) (v : VersionID) : World :=
  match s.versions.find? v with
  | none => s.forgetLease v
  | some snapshot => if s.referenced v then s else s.reclaimVersion v snapshot

/-! ## Views -/

/-- The view of an address, or nothing when the graph does not know it. -/
def addressView (s : World) (key : ArtifactKey) : Option AddressView :=
  let archived := (s.addressVersions key).filterMap fun v =>
    (s.versions.find? v).map fun snapshot => ({
      revision := v.revision, generation := v.generation
      snapshot := { snapshot with lease := none } } : ArchivedView)
  let aliases := (s.generationAliases.toList.filter fun entry => entry.1.address == key).map
    fun entry => (entry.1.generation, entry.2.generation)
  match s.nodes.find? key with
  | none =>
    if archived = [] then none else some { current := { key }, archived, aliases }
  | some node =>
    some
      { current := { makeSnapshot node with lease := none }
        desiredRevision := node.desiredRevision
        latestRequestedRevision := node.latestRequestedRevision
        versionGeneration := node.versionGeneration
        desired := node.desired
        error := node.error
        requirements := node.requirements
        blockers := node.requirements.map fun r =>
          (r.key, s.diagnosticRequirementSatisfied node r)
        archived
        aliases
        pendingSuccessors := node.successors.map fun successor =>
          (successor.revision, successor.generation) }

/-- What publishing one address writes: an unknown one is cleared only if it was published. -/
def publishView (s : World) (views : Table ArtifactKey (Option AddressView)) (key : ArtifactKey) :
    Table ArtifactKey (Option AddressView) :=
  match s.addressView key with
  | none => if views.contains key then views.insert key none else views
  | some view => views.insert key (some view)

/-- `PublishDirtyViews`. -/
def publishDirtyViews (s : World) : World :=
  { s with readModel := s.dirtyViews.foldl s.publishView s.readModel, dirtyViews := [] }

end ModuleServices.Graph.World
