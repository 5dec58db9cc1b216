import ModuleServices.Graph.Select

/-!
# Recipe pins, wake edges and cycles

What a recipe holds while it is installed: a pin on every exact version it names
(`exactRecipePins`), and an edge from every address it names to its consumer
(`waiters`). Installing, removing and pruning keep both in step; `detectCycle` walks the
recipes forward.
-/

namespace ModuleServices.Graph.World

/-- `PinsExactRecipe`. -/
def pinsExactRecipe (s : World) (consumer : ArtifactKey) (coalescible : Bool)
    (r : ArtifactRequirement) : Bool :=
  if r.minimumRevision = 0 ∨ r.invalidation = .latest ∨ r.invalidation = .readyGate then false
  else
    !coalescible || (s.kindPolicy consumer.kind).pinExactContent
      || (s.kindPolicy r.key.kind).pinExactContent

/-- One pin more on a version. -/
def pin (pins : Table VersionID Nat) (v : VersionID) : Table VersionID Nat :=
  pins.insert v ((pins.find? v).getD 0 + 1)

/-- One pin less. -/
def unpin (pins : Table VersionID Nat) (v : VersionID) : Table VersionID Nat :=
  match pins.find? v with
  | none => pins
  | some count => if count ≤ 1 then pins.erase v else pins.insert v (count - 1)

/-- The versions whose last pin goes, each offered to reclamation. -/
def unpinned : Table VersionID Nat → List VersionID → List VersionID
  | _, [] => []
  | pins, v :: versions =>
    (if (pins.find? v).any fun count => decide (count ≤ 1) then [v] else [])
      ++ unpinned (unpin pins v) versions

/-- The pins a recipe takes, one for each occurrence. -/
def recipePins (s : World) (consumer : ArtifactKey) (coalescible : Bool)
    (requirements : List ArtifactRequirement) : List VersionID :=
  (requirements.filter (s.pinsExactRecipe consumer coalescible)).map ArtifactRequirement.version

/-- `AdjustExactRecipePins` by +1. -/
def pinRecipe (s : World) (consumer : ArtifactKey) (coalescible : Bool)
    (requirements : List ArtifactRequirement) : World :=
  { s with exactRecipePins :=
      (s.recipePins consumer coalescible requirements).foldl pin s.exactRecipePins }

def unpinVersions (s : World) (versions : List VersionID) : World :=
  { s with
    exactRecipePins := versions.foldl unpin s.exactRecipePins
    reclaimQueue := s.reclaimQueue ++ unpinned s.exactRecipePins versions }

/-- `AdjustExactRecipePins` by -1. -/
def unpinRecipe (s : World) (consumer : ArtifactKey) (coalescible : Bool)
    (requirements : List ArtifactRequirement) : World :=
  s.unpinVersions (s.recipePins consumer coalescible requirements)

/-- `PinSuccessor`. -/
def pinSuccessor (s : World) (key : ArtifactKey) (successor : RequestedVersion) : World :=
  s.pinRecipe key successor.coalescibleIntent successor.requirements

/-- `UnpinSuccessor`. -/
def unpinSuccessor (s : World) (key : ArtifactKey) (successor : RequestedVersion) : World :=
  s.unpinRecipe key successor.coalescibleIntent successor.requirements

def successorPins (s : World) (key : ArtifactKey) (successors : List RequestedVersion) :
    List VersionID :=
  successors.flatMap fun successor =>
    s.recipePins key successor.coalescibleIntent successor.requirements

/-- `ClearSuccessors`. -/
def clearSuccessors (s : World) (key : ArtifactKey) : World :=
  (s.unpinVersions (s.successorPins key
    (((s.nodes.find? key).map Node.successors).getD []))).modifyNode key fun node => { node with
      successors := [] }

/-- `HasExactDependent`; generation 0 pins every generation of the revision. -/
def hasExactDependent (s : World) (v : VersionID) : Bool :=
  s.exactRecipePins.contains v || s.exactRecipePins.contains ⟨v.address, v.revision, 0⟩

/-- The wake for those waiting on an address, if there are any. -/
def wakeFor (s : World) (key : ArtifactKey) : List PendingWaiterWake :=
  match s.waiters.find? key with
  | none | some [] => []
  | some consumers => [{ dependency := key, consumers }]

/-- `WakeWaiters`. -/
def wakeWaiters (s : World) (key : ArtifactKey) : World :=
  { s with pendingWaiterWakes := s.pendingWaiterWakes ++ s.wakeFor key }

/-- No edge leads from the address. -/
def hasNoDependents (s : World) (key : ArtifactKey) : Bool :=
  (s.waiters.find? key).all List.isEmpty

def addWaiter (consumer : ArtifactKey) (waiters : Table ArtifactKey (List ArtifactKey))
    (dependency : ArtifactKey) : Table ArtifactKey (List ArtifactKey) :=
  let consumers := (waiters.find? dependency).getD []
  waiters.insert dependency (if consumer ∈ consumers then consumers else consumers ++ [consumer])

def removeWaiter (consumer : ArtifactKey) (waiters : Table ArtifactKey (List ArtifactKey))
    (dependency : ArtifactKey) : Table ArtifactKey (List ArtifactKey) :=
  match waiters.find? dependency with
  | none => waiters
  | some consumers =>
    if consumers.filter (· != consumer) = [] then waiters.erase dependency
    else waiters.insert dependency (consumers.filter (· != consumer))

/-- The versions whose reclamation one requirement held up. -/
def heldVersions (s : World) (r : ArtifactRequirement) : List VersionID :=
  if r.minimumRevision = 0 ∨ r.invalidation = .latest then []
  else if r.requiredGeneration ≠ 0 then [r.version]
  else (s.addressVersions r.key).filter fun v => v.revision == r.minimumRevision

/-- The versions of the captured snapshots that name one. -/
def capturedVersions (dependencies : List ArtifactSnapshot) : List VersionID :=
  (dependencies.map ArtifactSnapshot.version).filter VersionID.isNamed

/-- What `RemoveWaiterEdges` offers to reclamation once the pins are gone. -/
def releasedVersions (s : World) (node : Node) : List VersionID :=
  capturedVersions node.resolvedDependencies ++ node.requirements.flatMap s.heldVersions
    ++ (if node.requestedRequirements = node.requirements then []
        else node.requestedRequirements.flatMap s.heldVersions)

/-- The pins of the active recipe. -/
def nodePins (s : World) (key : ArtifactKey) (node : Node) : List VersionID :=
  s.recipePins key node.coalescibleIntent node.requirements

/-- `RemoveWaiterEdges`. -/
def removeWaiterEdges (s : World) (key : ArtifactKey) : World :=
  let node := s.nodes.find? key
  let unpinning := s.unpinVersions ((node.map (s.nodePins key)).getD [])
  { unpinning with
    reclaimQueue := unpinning.reclaimQueue ++ (node.map s.releasedVersions).getD []
    waiters := ((node.map Node.installedWaiterKeys).getD []).foldl (removeWaiter key) s.waiters
    nodes := s.nodes.modify key fun node => { node with
      installedWaiterKeys := [], completedWaiterEdgesPruned := false } }

/-- Each address once, in the order of its first requirement. -/
def requirementKeys (requirements : List ArtifactRequirement) : List ArtifactKey :=
  requirements.foldl (fun keys r => if r.key ∈ keys then keys else keys ++ [r.key]) []

/-- The addresses a node's edges lead from; `prepared` are those a request has collected
beforehand. -/
def waiterKeys (key : ArtifactKey) (node : Node) (prepared : List ArtifactKey) : List ArtifactKey :=
  (if prepared = [] then requirementKeys (node.requirements ++ node.requestedRequirements)
    else prepared).filter (· != key)

/-- `InstallWaiterEdges`. -/
def installWaiterEdges (s : World) (key : ArtifactKey) (prepared : List ArtifactKey) : World :=
  let node := s.nodes.find? key
  { s with
    exactRecipePins := ((node.map (s.nodePins key)).getD []).foldl pin s.exactRecipePins
    waiters := ((node.map fun node => waiterKeys key node prepared).getD []).foldl (addWaiter key)
      s.waiters
    nodes := s.nodes.modify key fun node => { node with
      installedWaiterKeys := waiterKeys key node prepared, completedWaiterEdgesPruned := false } }

def hasLatest (requirements : List ArtifactRequirement) (key : ArtifactKey) : Bool :=
  requirements.any fun r => r.key == key && r.invalidation == .latest

/-- `PruneCompletedWaiterEdges`: only the edges of Latest requirements stay. -/
def pruneCompletedWaiterEdges (s : World) (key : ArtifactKey) : World :=
  let dropped := (s.nodes.find? key).map fun node =>
    node.installedWaiterKeys.filter fun dependency =>
      !hasLatest node.requestedRequirements dependency
  { s with
    waiters := (dropped.getD []).foldl (removeWaiter key) s.waiters
    nodes := s.nodes.modify key fun node => { node with
      installedWaiterKeys := node.installedWaiterKeys.filter (hasLatest node.requestedRequirements)
      completedWaiterEdgesPruned := true } }

/-- `LatchReadyGates`. A ready gate pins nothing (`pinsExactRecipe_readyGate`), so the pin the
source would take here for a latched one is never taken. -/
def latchReadyGates (s : World) (key : ArtifactKey) : World :=
  s.modifyNode key fun node => { node with requirements := node.requirements.map s.latchGate }

theorem pinsExactRecipe_readyGate (s : World) (consumer : ArtifactKey) (coalescible : Bool)
    {r : ArtifactRequirement} (h : r.invalidation = .readyGate) :
    s.pinsExactRecipe consumer coalescible r = false := by
  unfold pinsExactRecipe
  rw [if_pos (.inr (.inr h))]

/-! ## Cycles -/

def visited (s : World) (epoch : Nat) (key : ArtifactKey) : Bool :=
  (s.cycleVisits.find? key).any fun visit => visit.1 == epoch

/-- The roots of the search: the node's own requirements, or the key at fault when one of them is
the node itself and not a version already archived. -/
def cycleRoots (epoch : Nat) (node : Node) :
    World → List ArtifactKey → List ArtifactRequirement → World × List ArtifactKey × Bool
  | s, stack, [] => (s, stack, false)
  | s, stack, r :: requirements =>
    if !r.gates then cycleRoots epoch node s stack requirements
    else if r.key = node.key then
      if r.invalidation = .exactSnapshot ∧ r.requiredGeneration ≠ 0
          ∧ r.minimumRevision ≠ node.desiredRevision ∧ s.versions.contains r.version then
        cycleRoots epoch node s stack requirements
      else (s, stack, true)
    else if !s.nodes.contains r.key || s.visited epoch r.key then
      cycleRoots epoch node s stack requirements
    else
      cycleRoots epoch node
        { s with cycleVisits := s.cycleVisits.insert r.key (epoch, some node.key) }
        (r.key :: stack) requirements

/-- The requirements of one visited node: the stack they leave, and whether one of them is the node
searched for. -/
def cycleEdges (epoch : Nat) (target current : ArtifactKey) :
    World → List ArtifactKey → List ArtifactRequirement → World × List ArtifactKey × Bool
  | s, stack, [] => (s, stack, false)
  | s, stack, r :: requirements =>
    if !r.gates then cycleEdges epoch target current s stack requirements
    else if r.key = target then (s, stack, true)
    else if !s.nodes.contains r.key || s.visited epoch r.key then
      cycleEdges epoch target current s stack requirements
    else
      cycleEdges epoch target current
        { s with cycleVisits := s.cycleVisits.insert r.key (epoch, some current) }
        (r.key :: stack) requirements

/-- The parents followed from a key back to the node searched for, that node excluded. -/
def cyclePath (s : World) (target : ArtifactKey) : Nat → ArtifactKey → List ArtifactKey
  | 0, _ => []
  | fuel + 1, cursor =>
    if cursor = target then []
    else
      match (if s.nodes.contains cursor then s.cycleVisits.find? cursor else none) with
      | some (_, some parent) => s.cyclePath target fuel parent ++ [cursor]
      | _ => [cursor]

/-- The search proper. Every node is pushed at most once, so the number of nodes bounds the
rounds. -/
def cycleSearch (epoch : Nat) (target : ArtifactKey) :
    Nat → World → List ArtifactKey → World × List ArtifactKey
  | 0, s, _ => (s, [])
  | _ + 1, s, [] => (s, [])
  | fuel + 1, s, current :: stack =>
    match s.nodes.find? current with
    | none => cycleSearch epoch target fuel s stack
    | some node =>
      match cycleEdges epoch target current s stack node.requirements with
      | (s, _, true) =>
        (s, target :: s.cyclePath target (s.nodes.keys.length + 1) current ++ [target])
      | (s, stack, false) => cycleSearch epoch target fuel s stack

/-- A new visit epoch; when the counter wraps, every visit is forgotten. -/
def nextEpoch (s : World) : World :=
  let epoch := (s.nextCycleVisitEpoch + 1) % 2 ^ 64
  if epoch = 0 then
    { s with
      nextCycleVisitEpoch := 1
      cycleVisits := s.cycleVisits.keys.foldl
        (fun visits key => visits.modify key fun visit => (0, visit.2)) s.cycleVisits }
  else { s with nextCycleVisitEpoch := epoch }

/-- `DetectCycle`: the path of a cycle through the node, or nothing. -/
def detectCycle (s : World) (key : ArtifactKey) : World × List ArtifactKey :=
  match s.nodes.find? key with
  | none => (s, [])
  | some node =>
    let s := s.nextEpoch
    let epoch := s.nextCycleVisitEpoch
    match cycleRoots epoch node s [] node.requirements with
    | (s, _, true) => (s, [key, key])
    | (s, stack, false) => cycleSearch epoch key (s.nodes.keys.length + 1) s stack

/-- `CycleString`. -/
def cycleString (cycle : List ArtifactKey) : String := " -> ".intercalate (cycle.map keyString)

/-- What `FailCycle` does to one node of the cycle. -/
def failCycleNode (error : String) (s : World) (key : ArtifactKey) : World :=
  (s.modifyNode key fun node => { node with
    error, terminalFailure := true, generation := node.generation + 1, retryAt := none }).setState
    key .failed

/-- `FailCycle`. -/
def failCycle (s : World) (cycle : List ArtifactKey) : World :=
  cycle.eraseDups.foldl (failCycleNode ("dependency cycle: " ++ cycleString cycle)) s

end ModuleServices.Graph.World
