import ModuleServices.Graph.State
import Mathlib.Data.List.Sort

/-!
# Which version a requirement means

`selectSnapshot` finds the version a requirement selects, in the archive or at the
address's cursor; the admission of a build (`dependenciesSatisfied`), what the build is
given (`dependencySnapshots`) and the judgement of its completion
(`dependenciesStillMatch`) all read the same two places.
-/

namespace ModuleServices.Graph

/-- `MakeSnapshot`. A node that ends before it produced anything is described by the version it was
to produce. -/
def makeSnapshot (node : Node) : ArtifactSnapshot :=
  { key := node.key
    revision := if node.state.terminal && node.producedRevision == 0 then node.desiredRevision
      else node.producedRevision
    generation := node.versionGeneration
    readiness := node.state
    payload := node.payload
    gpuSubmissions := node.gpuSubmissions
    lease := node.lease }

/-- The order of `AddressVersionIndex`. -/
def VersionID.before (a b : VersionID) : Prop :=
  a.revision < b.revision ∨ a.revision = b.revision ∧ a.generation ≤ b.generation

instance : DecidableRel VersionID.before := fun a b => by
  unfold VersionID.before
  infer_instance

namespace World

/-- `Canonical`: a predicted version is the one installed for it. -/
def canonical (s : World) (v : VersionID) : VersionID := (s.generationAliases.find? v).getD v

/-- `versionsByAddress[key]`, oldest first. -/
def addressVersions (s : World) (key : ArtifactKey) : List VersionID :=
  (s.versions.keys.filter fun v => v.address == key).insertionSort VersionID.before

/-- The newest archived version of the address with `p`. -/
def newestArchived (s : World) (key : ArtifactKey) (p : ArtifactSnapshot → Bool) :
    Option ArtifactSnapshot :=
  ((s.addressVersions key).reverse.filterMap s.versions.find?).find? p

/-- The archive's answer to a requirement of one revision: its generation, or the newest when any
will do. -/
def archivedExact (s : World) (r : ArtifactRequirement) : Option ArtifactSnapshot :=
  if r.requiredGeneration ≠ 0 then s.versions.find? (s.canonical r.version)
  else
    ((s.addressVersions r.key).reverse.filter fun v => v.revision == r.minimumRevision).head?.bind
      s.versions.find?

/-- The cursor's answer to a requirement of one revision. -/
def cursorExact (s : World) (r : ArtifactRequirement) : Option ArtifactSnapshot :=
  match s.nodes.find? r.key with
  | none => none
  | some node =>
    if node.producedRevision = r.minimumRevision ∧
        (r.requiredGeneration = 0 ∨ node.versionGeneration = r.requiredGeneration) then
      some (makeSnapshot node)
    else none

/-- The cursor's answer to a requirement of the latest ready version. -/
def cursorLatest (s : World) (r : ArtifactRequirement) : Option ArtifactSnapshot :=
  match s.nodes.find? r.key with
  | none => none
  | some node =>
    if r.minimumRevision ≤ node.producedRevision ∧
        (makeSnapshot node).readiness.satisfies r.requiredReadiness then
      some (makeSnapshot node)
    else none

/-- The archive's answer to a requirement of the latest ready version. -/
def archivedLatest (s : World) (r : ArtifactRequirement) : Option ArtifactSnapshot :=
  s.newestArchived r.key fun snapshot =>
    decide (r.minimumRevision ≤ snapshot.revision)
      && snapshot.readiness.satisfies r.requiredReadiness

/-- The archived version unless the selected one is as new. -/
def newer (selected archived : Option ArtifactSnapshot) : Option ArtifactSnapshot :=
  match selected, archived with
  | none, archived => archived
  | selected, none => selected
  | some selected, some archived =>
    if selected.revision < archived.revision ∨
        archived.revision = selected.revision ∧ selected.generation < archived.generation then
      some archived
    else some selected

end World

/-- Names one revision rather than the latest ready one. -/
def ArtifactRequirement.isExact (r : ArtifactRequirement) : Bool :=
  r.invalidation == .exactSnapshot || r.invalidation == .lifetimeHold
    || (r.invalidation == .readyGate && r.minimumRevision != 0)

namespace World

/-- `SelectSnapshot`. -/
def selectSnapshot (s : World) (r : ArtifactRequirement) : Option ArtifactSnapshot :=
  if r.isExact then (s.archivedExact r).or (s.cursorExact r)
  else newer (s.cursorLatest r) (s.archivedLatest r)

/-- `RequirementSatisfied`. -/
def requirementSatisfied (s : World) (r : ArtifactRequirement) : Bool :=
  (s.selectSnapshot r).any fun snapshot => snapshot.readiness.satisfies r.requiredReadiness

/-- `DiagnosticRequirementSatisfied`. -/
def diagnosticRequirementSatisfied (s : World) (node : Node) (r : ArtifactRequirement) : Bool :=
  (r.invalidation == .readyGate && node.producedRevision == node.desiredRevision
    && node.state.satisfies .cpuReady) || s.requirementSatisfied r

/-- Another alternative of the same group. -/
def alternative (a b : ArtifactRequirement) : Bool :=
  a.policy == b.policy && a.alternativeGroup == b.alternativeGroup

/-- `DependenciesSatisfied`: every gating requirement, or some alternative of its group. -/
def dependenciesSatisfied (s : World) (node : Node) : Bool :=
  let gates := node.requirements.filter ArtifactRequirement.gates
  gates.all fun r =>
    if r.policy = .allOf then s.requirementSatisfied r
    else gates.any fun r' => alternative r r' && s.requirementSatisfied r'

/-- What `LatchReadyGates` makes of one requirement. -/
def latchGate (s : World) (r : ArtifactRequirement) : ArtifactRequirement :=
  if r.invalidation ≠ .readyGate ∨ r.minimumRevision ≠ 0 then r
  else
    let cursor := (s.nodes.find? r.key).map makeSnapshot |>.filter fun snapshot =>
      snapshot.revision != 0 && snapshot.readiness.satisfies r.requiredReadiness
    let archived := s.newestArchived r.key fun snapshot =>
      snapshot.readiness.satisfies r.requiredReadiness
    let selected :=
      match cursor, archived with
      | none, archived => archived
      | cursor, none => cursor
      | some cursor, some archived =>
        if cursor.revision < archived.revision then some archived else some cursor
    match selected with
    | none => r
    | some snapshot =>
      { r with minimumRevision := snapshot.revision, requiredGeneration := snapshot.generation }

/-! ## Leases -/

/-- `MakeLeaseToken`. -/
def makeLeaseToken (s : World) (v : VersionID) : World × Nat :=
  ({ s with liveLeases := s.liveLeases.insert s.nextLease v, nextLease := s.nextLease + 1 },
    s.nextLease)

/-- The registered token of the version, unless it has expired. -/
def leaseOf (s : World) (v : VersionID) : Option Nat :=
  (s.versionLeases.find? v).filter s.liveLeases.contains

/-- `RegisterVersionLease`: the first token that is alive stays. -/
def registerVersionLease (s : World) (v : VersionID) (token : Option Nat) : World :=
  { s with versionLeases :=
      match token, s.leaseOf v with
      | some token, none => s.versionLeases.insert v token
      | _, _ => s.versionLeases }

/-- `AcquireVersionLease`. -/
def acquireVersionLease (s : World) (v : VersionID) : World × Nat :=
  ({ s with
      versionLeases := if (s.leaseOf v).isSome then s.versionLeases
        else s.versionLeases.insert v s.nextLease
      liveLeases := if (s.leaseOf v).isSome then s.liveLeases
        else s.liveLeases.insert s.nextLease v
      nextLease := if (s.leaseOf v).isSome then s.nextLease else s.nextLease + 1 },
    (s.leaseOf v).getD s.nextLease)

/-- The loop of `DependencySnapshots`: `groups` are the alternatives already chosen. -/
def dependencySnapshotsFrom (s : World) (groups : List (DependencyPolicy × Nat)) :
    List ArtifactRequirement → World × List ArtifactSnapshot
  | [] => (s, [])
  | r :: requirements =>
    let isAlternative := r.policy == .anyOf || r.policy == .fallbackAllowed
    let group := (r.policy, r.alternativeGroup)
    if isAlternative && groups.contains group then s.dependencySnapshotsFrom groups requirements
    else
      match (s.selectSnapshot r).filter fun snapshot =>
          snapshot.readiness.satisfies r.requiredReadiness with
      | none => s.dependencySnapshotsFrom groups requirements
      | some snapshot =>
        let (s, token) := s.acquireVersionLease snapshot.version
        let (s, rest) := s.dependencySnapshotsFrom
          (if isAlternative then group :: groups else groups) requirements
        (s, { snapshot with lease := some token } :: rest)

/-- `DependencySnapshots`. -/
def dependencySnapshots (s : World) (node : Node) : World × List ArtifactSnapshot :=
  s.dependencySnapshotsFrom [] node.requirements

/-- Where `DependenciesStillMatch` finds a captured version: at the cursor if that is the version
produced there, else in the archive. -/
def capturedReadiness (s : World) (dependency : ArtifactSnapshot) : Option ArtifactReadiness :=
  match s.nodes.find? dependency.key with
  | some active =>
    if active.producedRevision = dependency.revision ∧
        active.versionGeneration = dependency.generation then
      some active.state
    else (s.versions.find? dependency.version).map ArtifactSnapshot.readiness
  | none => (s.versions.find? dependency.version).map ArtifactSnapshot.readiness

/-- `DependenciesStillMatch`. -/
def dependenciesStillMatch (s : World) (dependencies : List ArtifactSnapshot) : Bool :=
  dependencies.all fun dependency =>
    (s.capturedReadiness dependency).any fun readiness => readiness.satisfies dependency.readiness

/-- `SnapshotExactLocked`: the version's state as the graph has it, and a lease of it if it is
archived. -/
def snapshotExact (s : World) (requested : VersionID) : World × ArtifactSnapshot :=
  let version := s.canonical requested
  let unknown : ArtifactSnapshot :=
    { key := version.address, revision := version.revision, generation := version.generation }
  match s.versions.find? version with
  | some archived =>
    let (s, token) := s.acquireVersionLease version
    (s, { archived with lease := some token })
  | none =>
    match s.nodes.find? version.address with
    | none => (s, unknown)
    | some current =>
      if current.producedRevision = version.revision ∧
          current.versionGeneration = version.generation then
        (s, makeSnapshot current)
      else if current.desiredRevision = version.revision ∧
          current.versionGeneration = version.generation then
        (s, { unknown with
          readiness := current.state, payload := current.payload
          gpuSubmissions := current.gpuSubmissions, lease := current.lease })
      else
        match current.successors.find? fun successor =>
            successor.revision == version.revision
              && successor.generation == version.generation with
        | some successor => (s, { unknown with readiness := .blocked, lease := successor.lease })
        | none => (s, unknown)

end World

end ModuleServices.Graph
