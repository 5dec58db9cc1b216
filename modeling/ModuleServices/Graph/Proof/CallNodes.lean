import ModuleServices.Graph.Proof.Calls

/-!
# What each call does to the node table

The calls of `Does`, one equation each, as `Nodes` has them for the functions they are
made of. A call changes one node, and the function that changes it is named after the
call.
-/

namespace ModuleServices.Graph.Proof

open World

variable (s : World) (key : ArtifactKey)

/-! ## Submission sets -/

def gpuEndedNode (error : String) (node : Node) : Node :=
  { node with
    error := if error = "" then "GPU submission failed" else error
    terminalFailure := true, waitingGpuSubmissions := none, state := .failed }

theorem gpuEnded_nodes (error : String) :
    (gpuEnded s key error).nodes = s.nodes.modify key (gpuEndedNode error) := by
  simp only [gpuEnded, wakeWaiters_nodes, announceNode_nodes, storeVersion_nodes, setState_nodes,
    modifyNode_nodes, Table.modify_modify]
  rfl

theorem gpuSubmitted_nodes : (s.gpuSubmitted key).nodes
    = s.nodes.modify key fun node => { node with state := .uploadSubmitted } := rfl

def gpuReachedNode (published : Bool) (node : Node) : Node :=
  { node with
    waitingGpuSubmissions := none, state := if published then .published else .gpuReady }

theorem gpuReached_nodes (published : Bool) :
    (gpuReached s key published).nodes = s.nodes.modify key (gpuReachedNode published) := by
  simp only [gpuReached, wakeWaiters_nodes, announceNode_nodes, storeVersion_nodes, setState_nodes,
    modifyNode_nodes, Table.modify_modify]
  rfl

/-! ## Completions -/

@[simp] theorem landed_nodes (completion : Completion) (stale : Bool) :
    (landed s completion stale).nodes
      = s.nodes.modify completion.key fun node => { node with buildInFlight := false } := rfl

@[simp] theorem takeCompletion_nodes (rest : List Completion) :
    (takeCompletion s rest).nodes = s.nodes := rfl

@[simp] theorem awaiting_nodes (token : Option Nat) : (awaiting s key token).nodes
    = s.nodes.modify key fun node => { node with waitingGpuSubmissions := token } := by
  cases token <;> rfl

/-- The node of a version that has been produced. -/
def readiedNode (completion : Completion) (node : Node) : Node :=
  let node := produced node completion
  { node with
    installedWaiterKeys := node.installedWaiterKeys.filter (hasLatest node.requestedRequirements)
    completedWaiterEdgesPruned := true
    waitingGpuSubmissions := (readyState completion).2
    state := (readyState completion).1 }

theorem readied_nodes (node : Node) (completion : Completion) :
    (readied s node completion).nodes
      = s.nodes.modify completion.key (readiedNode completion) := by
  simp only [readied, reach, wakeWaiters_nodes, announceNode_nodes, storeVersion_nodes,
    setState_nodes, awaiting_nodes, pruneCompletedWaiterEdges_nodes, modifyNode_nodes,
    queueReclaim_nodes, Table.modify_modify]
  rfl

/-- A node with the recipe its build has discovered. -/
def neededNode (key : ArtifactKey) (result : ArtifactBuildResult) (node : Node) : Node :=
  let node := { node with
    terminalFailure := false, installedWaiterKeys := [], completedWaiterEdgesPruned := false
    requirements := result.requirements, checkpoint := result.checkpoint, retryAt := none }
  { node with installedWaiterKeys := waiterKeys key node [] }

theorem needed_nodes (result : ArtifactBuildResult) :
    (needed s key result).nodes = s.nodes.modify key (neededNode key result) := by
  simp only [needed, installWaiterEdges_nodes, removeWaiterEdges_nodes, modifyNode_nodes,
    Table.modify_modify]
  rfl

def endedNode (error : Option String) (node : Node) : Node :=
  match error with
  | some error => { node with error, terminalFailure := true, state := .failed }
  | none => { node with state := .cancelled }

theorem ended_nodes (node : Node) (completion : Completion) (error : Option String) :
    (ended s node completion error).nodes = s.nodes.modify node.key (endedNode error) := by
  cases error with
  | none => rfl
  | some error =>
    simp only [ended, noted, wakeWaiters_nodes, storeVersion_nodes, announceEnd, announce_nodes,
      setState_nodes, modifyNode_nodes, Table.modify_modify]
    rfl

def retryAfterNode (result : ArtifactBuildResult) (deadline : Nat) (node : Node) : Node :=
  { node with
    terminalFailure := false, checkpoint := result.checkpoint, retryAt := some deadline
    state := .blocked }

theorem applyRetryAfter_nodes (node : Node) (result : ArtifactBuildResult) :
    (s.applyRetryAfter node result).nodes
      = s.nodes.modify node.key (retryAfterNode result (s.now + result.retryDelay)) := by
  simp only [applyRetryAfter, setState_nodes, modifyNode_nodes, Table.modify_modify]
  rfl

/-- A node blocked on a suspension. -/
def suspending (s : World) (key : ArtifactKey) (result : ArtifactBuildResult)
    (suspension : ArtifactSuspension) : World :=
  (s.modifyNode key fun node => { node with
    terminalFailure := false, checkpoint := result.checkpoint, retryAt := none
    suspension := some suspension }).setState key .blocked

/-- The dependency of an exact suspension has joined the recipe. -/
def discovering (s : World) (key : ArtifactKey) (suspension : ArtifactSuspension) : World :=
  let s := (s.removeWaiterEdges key).modifyNode key fun node => { node with
    requirements := node.requirements ++ [exact suspension.dependency suspension.milestone] }
  (s.installWaiterEdges key []).modifyNode key fun node => { node with suspension := none }

/-- A suspension without an identity is a failure. -/
def unidentified (s : World) (key : ArtifactKey) : World :=
  ((s.modifyNode key fun node => { node with
    error := "suspension identity must be non-zero", terminalFailure := true }).setState key
    .failed).announceNode key

/-- The suspension had been satisfied before it was reported. -/
def alreadySatisfied (s : World) (key : ArtifactKey) (identity : Nat) : World :=
  { s with satisfiedSuspensions := s.satisfiedSuspensions.erase identity }.modifyNode key
    fun node => { node with suspension := none }

theorem applySuspended_eq (node : Node) (result : ArtifactBuildResult)
    (suspension : ArtifactSuspension) :
    s.applySuspended node result suspension
      = let s := suspending s node.key result suspension
        if suspension.kind = .exactDependency then
          (discovering s node.key suspension).queueNode node.key
        else if suspension.identity = 0 then unidentified s node.key
        else if suspension.identity ∈ s.satisfiedSuspensions then
          (alreadySatisfied s node.key suspension.identity).queueNode node.key
        else
          let version : VersionID := ⟨node.key, node.desiredRevision, node.generation⟩
          { s with suspendedByIdentity := s.suspendedByIdentity.insert suspension.identity version } :=
  rfl

def suspendingNode (result : ArtifactBuildResult) (suspension : ArtifactSuspension)
    (node : Node) : Node :=
  { node with
    terminalFailure := false, checkpoint := result.checkpoint, retryAt := none
    suspension := some suspension, state := .blocked }

@[simp] theorem suspending_nodes (result : ArtifactBuildResult) (suspension : ArtifactSuspension) :
    (suspending s key result suspension).nodes
      = s.nodes.modify key (suspendingNode result suspension) := by
  simp only [suspending, setState_nodes, modifyNode_nodes, Table.modify_modify]
  rfl

def discoveringNode (key : ArtifactKey) (suspension : ArtifactSuspension) (node : Node) : Node :=
  let node := { node with
    installedWaiterKeys := [], completedWaiterEdgesPruned := false
    requirements := node.requirements ++ [exact suspension.dependency suspension.milestone] }
  { node with installedWaiterKeys := waiterKeys key node [], suspension := none }

@[simp] theorem discovering_nodes (suspension : ArtifactSuspension) :
    (discovering s key suspension).nodes
      = s.nodes.modify key (discoveringNode key suspension) := by
  simp only [discovering, installWaiterEdges_nodes, removeWaiterEdges_nodes, modifyNode_nodes,
    Table.modify_modify]
  rfl

@[simp] theorem unidentified_nodes : (unidentified s key).nodes
    = s.nodes.modify key fun node => { node with
      error := "suspension identity must be non-zero", terminalFailure := true
      state := .failed } := by
  simp only [unidentified, announceNode_nodes, setState_nodes, modifyNode_nodes,
    Table.modify_modify]

@[simp] theorem alreadySatisfied_nodes (identity : Nat) :
    (alreadySatisfied s key identity).nodes
      = s.nodes.modify key fun node => { node with suspension := none } := rfl

/-! ## Builds -/

def startedNode (node : Node) : Node :=
  { node with buildInFlight := true, buildAttempted := true, state := .preparing }

/-- Everything but the leases. -/
def LeasesOnly (s s' : World) : Prop :=
  ∃ versionLeases liveLeases nextLease, s' = { s with versionLeases, liveLeases, nextLease }

theorem LeasesOnly.refl : LeasesOnly s s := ⟨_, _, _, rfl⟩

variable {s} in
theorem LeasesOnly.trans {s' s'' : World} (h : LeasesOnly s s') (h' : LeasesOnly s' s'') :
    LeasesOnly s s'' := by
  obtain ⟨_, _, _, rfl⟩ := h
  obtain ⟨versionLeases, liveLeases, nextLease, rfl⟩ := h'
  exact ⟨versionLeases, liveLeases, nextLease, rfl⟩

theorem dependencySnapshotsFrom_leases (groups : List (DependencyPolicy × Nat))
    (requirements : List ArtifactRequirement) :
    LeasesOnly s (s.dependencySnapshotsFrom groups requirements).1 := by
  induction requirements generalizing s groups with
  | nil => exact .refl s
  | cons r requirements ih =>
    unfold dependencySnapshotsFrom
    simp only
    split
    · exact ih _ _
    · split
      · exact ih _ _
      · exact .trans ⟨_, _, _, rfl⟩ (ih _ _)

theorem dependencySnapshots_leases (node : Node) :
    LeasesOnly s (s.dependencySnapshots node).1 := dependencySnapshotsFrom_leases s _ _

/-- What `startBuild` has set up when it captures the dependencies. -/
def starting (s : World) (key : ArtifactKey) : World :=
  (s.modifyNode key fun node => { node with
    buildInFlight := true, buildAttempted := true }).setState key .preparing

/-- The build of a node. -/
def buildContext (key : ArtifactKey) (node : Node) (dependencies : List ArtifactSnapshot) :
    BuildContext :=
  { key, revision := node.desiredRevision, generation := node.generation, dependencies
    input := node.input, checkpoint := node.checkpoint, superseded := node.superseded
    continuation := node.buildAttempted }

theorem startBuild_eq (node : Node) :
    ∃ u, LeasesOnly (starting s key) u ∧ s.startBuild key node = { u with slice := { u.slice with
      builds := u.slice.builds
        ++ [buildContext key node ((starting s key).dependencySnapshots node).2]
      late := true } } :=
  ⟨_, dependencySnapshots_leases _ _, rfl⟩

theorem startBuild_nodes (node : Node) :
    (s.startBuild key node).nodes = s.nodes.modify key startedNode := by
  obtain ⟨_, ⟨_, _, _, rfl⟩, heq⟩ := startBuild_eq s key node
  rw [heq]
  simp only [starting, setState_nodes, modifyNode_nodes, Table.modify_modify]
  rfl

def producerlessNode (node : Node) : Node :=
  { node with error := "no producer registered", state := .failed }

theorem failProducerless_nodes :
    (s.failProducerless key).nodes = s.nodes.modify key producerlessNode := by
  simp only [failProducerless, announceNode_nodes, setState_nodes, modifyNode_nodes,
    Table.modify_modify]
  rfl

/-! ## Requests -/

/-- `replaceVersion` up to the start of the version it installs. -/
def replacing (s : World) (a : RequestArgs) (node : Node) (generation lease : Nat) : World :=
  let s := (s.storeVersion a.key).removeWaiterEdges a.key
  let s := (s.modifyNode a.key fun node => replaced node a generation lease s.nextFlag).freshFlag
  let s := (s.queueReclaim (previousVersion node)).setState a.key .missing
  s.installWaiterEdges a.key (requirementKeys a.requirements)

theorem replaceVersion_eq (a : RequestArgs) (node : Node) (generation lease : Nat) :
    s.replaceVersion a node generation lease
      = (replacing s a node generation lease).startVersion a.key := rfl

def replacedNode (a : RequestArgs) (generation lease flag : Nat) (node : Node) : Node :=
  let node := replaced node a generation lease flag
  { node with
    installedWaiterKeys := waiterKeys a.key node (requirementKeys a.requirements)
    completedWaiterEdgesPruned := false
    state := .missing }

theorem replacing_nodes (a : RequestArgs) (node : Node) (generation lease : Nat) :
    (replacing s a node generation lease).nodes
      = s.nodes.modify a.key (replacedNode a generation lease s.nextFlag) := by
  simp only [replacing, installWaiterEdges_nodes, setState_nodes, queueReclaim_nodes,
    freshFlag_nodes, modifyNode_nodes, removeWaiterEdges_nodes, storeVersion_nodes,
    Table.modify_modify]
  rfl

end ModuleServices.Graph.Proof
