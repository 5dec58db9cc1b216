import ModuleServices.Graph.Calls

/-!
# The published read model

Readers ask the views the drain published last and never the graph. A view is rebuilt
when some mutation has marked its address (`dirtyViews`); `Coherent` says that whoever
reads a version there reads what the graph itself would answer.
-/

namespace ModuleServices.Graph

/-- The generation a view reads for a requested one: the first alias of that generation decides. -/
def AddressView.canonical (view : AddressView) (generation : Nat) : Nat :=
  ((view.aliases.find? fun entry => entry.1 == generation).map Prod.snd).getD generation

/-- What a view says of a version of its address, if it knows it. -/
def AddressView.read (view : AddressView) (version : VersionID) : Option ArtifactSnapshot :=
  let generation := view.canonical version.generation
  match view.archived.find? fun archived =>
      archived.revision == version.revision && archived.generation == generation with
  | some archived => some archived.snapshot
  | none =>
    if view.current.revision = version.revision ∧ view.current.generation = generation
        ∧ view.current.revision ≠ 0 then some view.current
    else if view.desiredRevision = version.revision ∧ view.versionGeneration = generation then
      some { view.current with revision := version.revision, generation }
    else if view.pendingSuccessors.any fun successor =>
        successor.1 == version.revision && successor.2 == generation then
      some { key := version.address, revision := version.revision, generation
             readiness := .blocked }
    else none

namespace World

/-- `SnapshotFromView`. -/
def snapshotFromView (s : World) (version : VersionID) : ArtifactSnapshot :=
  let unknown : ArtifactSnapshot :=
    { key := version.address, revision := version.revision, generation := version.generation }
  match (s.readModel.find? version.address).join with
  | none => unknown
  | some view => (view.read version).getD unknown

/-- The read model and the graph agree on a version. -/
def ReadsTrue (s : World) (version : VersionID) : Prop :=
  (s.snapshotFromView version).readiness = (s.snapshotExact version).2.readiness
    ∧ (s.snapshotFromView version).payload = (s.snapshotExact version).2.payload

instance (s : World) (version : VersionID) : Decidable (s.ReadsTrue version) :=
  inferInstanceAs (Decidable (_ ∧ _))

/-- The read model answers for every version as the graph does. -/
def Coherent (s : World) : Prop := ∀ version : VersionID, version.isNamed = true → s.ReadsTrue version

/-- The archive has a copy that a publication moves on. -/
def movesArchived (s : World) (version : VersionID) : Bool :=
  (s.versions.find? version).any fun archived =>
    archived.readiness.publishable && archived.readiness != .published

/-- The cursor has the version, not acknowledged yet: a publication sets it or stores it there. -/
def storesCursor (s : World) (version : VersionID) : Bool :=
  (s.nodes.find? version.address).any fun node =>
    node.producedRevision == version.revision && node.versionGeneration == version.generation
      && node.state.publishable && !(node.published && node.state == .published)
      && (node.payload.valid || node.state == .gpuReady)

end World

/-- A publication that moves an archived copy on does so at an address that is marked, or stores the
version at the cursor. -/
def MarksPublication : World → Call → Prop
  | s, .markPublished requested =>
    requested.isNamed = true → s.movesArchived (s.canonical requested) = true →
      (s.canonical requested).address ∈ s.dirtyViews ∨ s.storesCursor (s.canonical requested) = true
  | _, _ => True

instance (s : World) : (call : Call) → Decidable (MarksPublication s call)
  | .markPublished requested => inferInstanceAs (Decidable (requested.isNamed = true →
      s.movesArchived (s.canonical requested) = true →
      (s.canonical requested).address ∈ s.dirtyViews
        ∨ s.storesCursor (s.canonical requested) = true))
  | .await _ | .suspensionSatisfied _ | .request _ | .cancel _ | .release _ | .gpu _ | .retry _
  | .complete _ | .wake _ _ | .build _ | .reclaim _ => .isTrue trivial

instance {Q : World → Call → Prop} [∀ s call, Decidable (Q s call)] (s : World) (a : Action) :
    Decidable (CallsMeet Q s a) :=
  inferInstanceAs (Decidable (∀ entry ∈ calls s a, Q entry.1 entry.2))

end ModuleServices.Graph
