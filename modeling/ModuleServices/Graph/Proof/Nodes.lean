import ModuleServices.Graph.Proof.Moves

/-!
# What each function does to the node table

One equation for each function that writes a node, read through `find?`. The invariants
of the graph cite these and never unfold the functions again.
-/

namespace ModuleServices.Graph.Proof

open World

variable (s : World) (key k : ArtifactKey)

@[simp] theorem modifyNode_nodes (f : Node → Node) :
    (s.modifyNode key f).nodes = s.nodes.modify key f := rfl

@[simp] theorem setState_nodes (state : ArtifactReadiness) :
    (s.setState key state).nodes = s.nodes.modify key fun node => { node with state } := rfl

@[simp] theorem setDesired_nodes (desired : Bool) :
    (s.setDesired key desired).nodes = s.nodes.modify key fun node => { node with desired } := rfl

@[simp] theorem storeVersion_nodes : (s.storeVersion key).nodes = s.nodes := rfl
@[simp] theorem wakeWaiters_nodes : (s.wakeWaiters key).nodes = s.nodes := rfl
@[simp] theorem announceNode_nodes : (s.announceNode key).nodes = s.nodes := rfl
@[simp] theorem propagateNode_nodes : (s.propagateNode key).nodes = s.nodes := rfl
@[simp] theorem announce_nodes (snapshot : ArtifactSnapshot) :
    (s.announce snapshot).nodes = s.nodes := rfl
@[simp] theorem propagate_nodes (snapshot : ArtifactSnapshot) :
    (s.propagate snapshot).nodes = s.nodes := rfl
@[simp] theorem queueReclaim_nodes (versions : List VersionID) :
    (s.queueReclaim versions).nodes = s.nodes := rfl
@[simp] theorem push_nodes : (s.push key).nodes = s.nodes := rfl
@[simp] theorem log_nodes (event : Event) : (s.log event).nodes = s.nodes := rfl
@[simp] theorem freshFlag_nodes : s.freshFlag.nodes = s.nodes := rfl
@[simp] theorem markViewDirty_nodes : (s.markViewDirty key).nodes = s.nodes := rfl
@[simp] theorem unpinVersions_nodes (versions : List VersionID) :
    (s.unpinVersions versions).nodes = s.nodes := rfl
@[simp] theorem unpinSuccessor_nodes (successor : RequestedVersion) :
    (s.unpinSuccessor key successor).nodes = s.nodes := rfl
@[simp] theorem pinSuccessor_nodes (successor : RequestedVersion) :
    (s.pinSuccessor key successor).nodes = s.nodes := rfl
@[simp] theorem registerVersionLease_nodes (v : VersionID) (token : Option Nat) :
    (s.registerVersionLease v token).nodes = s.nodes := rfl
@[simp] theorem acquireVersionLease_nodes (v : VersionID) :
    (s.acquireVersionLease v).1.nodes = s.nodes := rfl

@[simp] theorem removeWaiterEdges_nodes :
    (s.removeWaiterEdges key).nodes = s.nodes.modify key fun node => { node with
      installedWaiterKeys := [], completedWaiterEdgesPruned := false } := rfl

@[simp] theorem installWaiterEdges_nodes (prepared : List ArtifactKey) :
    (s.installWaiterEdges key prepared).nodes = s.nodes.modify key fun node => { node with
      installedWaiterKeys := waiterKeys key node prepared
      completedWaiterEdgesPruned := false } := rfl

@[simp] theorem pruneCompletedWaiterEdges_nodes :
    (s.pruneCompletedWaiterEdges key).nodes = s.nodes.modify key fun node => { node with
      installedWaiterKeys := node.installedWaiterKeys.filter (hasLatest node.requestedRequirements)
      completedWaiterEdgesPruned := true } := rfl

@[simp] theorem clearSuccessors_nodes :
    (s.clearSuccessors key).nodes = s.nodes.modify key fun node => { node with
      successors := [] } := rfl

@[simp] theorem latchReadyGates_nodes :
    (s.latchReadyGates key).nodes = s.nodes.modify key fun node => { node with
      requirements := node.requirements.map s.latchGate } := rfl

@[simp] theorem failDependent_nodes (r : ArtifactRequirement) (readiness : ArtifactReadiness) :
    (s.failDependent key r readiness).nodes = (s.nodes.modify key fun node => { node with
      error := "required dependency " ++ keyString r.key ++ " terminated in state "
        ++ readiness.name
      terminalFailure := true }).modify key fun node => { node with state := .failed } := rfl

/-! ## The cycle search only leaves its marks -/

/-- Everything but the marks of the search. -/
def CycleMarksOnly (s s' : World) : Prop :=
  ∃ visits epoch, s' = { s with cycleVisits := visits, nextCycleVisitEpoch := epoch }

theorem CycleMarksOnly.refl : CycleMarksOnly s s := ⟨_, _, rfl⟩

variable {s} in
theorem CycleMarksOnly.trans {s' s'' : World} (h : CycleMarksOnly s s')
    (h' : CycleMarksOnly s' s'') : CycleMarksOnly s s'' := by
  obtain ⟨_, _, rfl⟩ := h
  obtain ⟨visits, epoch, rfl⟩ := h'
  exact ⟨visits, epoch, rfl⟩

theorem nextEpoch_marks : CycleMarksOnly s s.nextEpoch := by
  unfold nextEpoch
  simp only
  split
  · exact ⟨_, _, rfl⟩
  · exact ⟨_, _, rfl⟩

theorem cycleRoots_marks (epoch : Nat) (node : Node) (stack : List ArtifactKey)
    (requirements : List ArtifactRequirement) :
    CycleMarksOnly s (cycleRoots epoch node s stack requirements).1 := by
  induction requirements generalizing s stack with
  | nil => exact .refl s
  | cons r requirements ih =>
    unfold cycleRoots
    split
    · exact ih _ _
    · split
      · split
        · exact ih _ _
        · exact .refl s
      · split
        · exact ih _ _
        · exact .trans ⟨_, _, rfl⟩ (ih _ _)

theorem cycleEdges_marks (epoch : Nat) (target current : ArtifactKey) (stack : List ArtifactKey)
    (requirements : List ArtifactRequirement) :
    CycleMarksOnly s (cycleEdges epoch target current s stack requirements).1 := by
  induction requirements generalizing s stack with
  | nil => exact .refl s
  | cons r requirements ih =>
    unfold cycleEdges
    split
    · exact ih _ _
    · split
      · exact .refl s
      · split
        · exact ih _ _
        · exact .trans ⟨_, _, rfl⟩ (ih _ _)

theorem cycleSearch_marks (epoch : Nat) (target : ArtifactKey) (fuel : Nat)
    (stack : List ArtifactKey) : CycleMarksOnly s (cycleSearch epoch target fuel s stack).1 := by
  induction fuel generalizing s stack with
  | zero => exact .refl s
  | succ fuel ih =>
    cases stack with
    | nil => exact .refl s
    | cons current stack =>
      unfold cycleSearch
      split
      · exact ih _ _
      · rename_i node _
        have hedges := cycleEdges_marks s epoch target current stack node.requirements
        split <;> (rename_i heq; rw [heq] at hedges)
        · exact hedges
        · exact hedges.trans (ih _ _)

theorem detectCycle_marks : CycleMarksOnly s (s.detectCycle key).1 := by
  unfold detectCycle
  split
  · exact .refl s
  · rename_i node _
    simp only
    have hroots := (nextEpoch_marks s).trans
      (cycleRoots_marks s.nextEpoch s.nextEpoch.nextCycleVisitEpoch node [] node.requirements)
    split <;> (rename_i heq; rw [heq] at hroots)
    · exact hroots
    · exact hroots.trans (cycleSearch_marks _ _ _ _ _)

@[simp] theorem detectCycle_nodes : (s.detectCycle key).1.nodes = s.nodes := by
  obtain ⟨_, _, h⟩ := detectCycle_marks s key
  rw [h]

/-! ## The moves -/

/-- A node once its gates are latched. -/
def latched (s : World) (node : Node) : Node :=
  { node with requirements := node.requirements.map s.latchGate }

/-- What a judgement may make of a node that was not settled. -/
inductive Judged (s : World) (node : Node) : Node → Prop where
  | queued : Judged s node { latched s node with state := .queued }
  | blocked : Judged s node { latched s node with state := .blocked }
  | failed (error : String) :
      Judged s node { latched s node with error, terminalFailure := true, state := .failed }

/-- A judgement changes the one node, if it was not settled, and leaves it judged. -/
theorem queueNode_nodes :
    s.queueNode key = s ∨ ∃ node f, s.nodes.find? key = some node ∧ node.settled = false
      ∧ (s.queueNode key).nodes = s.nodes.modify key f ∧ Judged s node (f node) := by
  rcases queueNode_cases s key with
    heq | ⟨node, hfind, hsettled, ⟨heq, _⟩ | ⟨r, readiness, heq⟩ | ⟨heq, _⟩⟩
  · exact .inl heq
  · refine .inr ⟨node, fun node => { latched s node with state := .queued }, hfind, hsettled, ?_,
      .queued⟩
    rw [heq]
    simp only [push_nodes, setState_nodes, latchReadyGates_nodes, Table.modify_modify]
    rfl
  · refine .inr ⟨node, fun node => { latched s node with
      error := "required dependency " ++ keyString r.key ++ " terminated in state "
        ++ readiness.name, terminalFailure := true, state := .failed }, hfind, hsettled, ?_,
      .failed _⟩
    rw [heq]
    simp only [failDependent_nodes, latchReadyGates_nodes, Table.modify_modify]
    rfl
  · refine .inr ⟨node, fun node => { latched s node with state := .blocked }, hfind, hsettled, ?_,
      .blocked⟩
    rw [heq]
    simp only [setState_nodes, latchReadyGates_nodes, Table.modify_modify]
    rfl

theorem queueNode_other (h : k ≠ key) :
    (s.queueNode key).nodes.find? k = s.nodes.find? k := by
  rcases queueNode_cases s key with heq | ⟨_, _, _, ⟨heq, _⟩ | ⟨r, readiness, heq⟩ | ⟨heq, _⟩⟩ <;>
    rw [heq] <;> simp [h]

variable {s key k}

/-- A node after a judgement is what it was, or was not settled and has been judged. -/
theorem queueNode_find {node' : Node} (h : (s.queueNode key).nodes.find? k = some node') :
    s.nodes.find? k = some node'
      ∨ k = key ∧ ∃ node, s.nodes.find? key = some node ∧ node.settled = false
        ∧ Judged s node node' := by
  by_cases hk : k = key
  · subst hk
    rcases queueNode_cases s k with
      heq | ⟨node, hfind, hsettled, ⟨heq, _⟩ | ⟨r, readiness, heq⟩ | ⟨heq, _⟩⟩ <;> rw [heq] at h
    · exact .inl h
    · refine .inr ⟨rfl, node, hfind, hsettled, ?_⟩
      simp only [push_nodes, setState_nodes, latchReadyGates_nodes, Table.find?_modify, if_true,
        hfind, Option.map_some, Option.some.injEq] at h
      subst h
      exact .queued
    · refine .inr ⟨rfl, node, hfind, hsettled, ?_⟩
      simp only [failDependent_nodes, latchReadyGates_nodes, Table.find?_modify, if_true,
        hfind, Option.map_some, Option.some.injEq] at h
      subst h
      exact .failed _
    · refine .inr ⟨rfl, node, hfind, hsettled, ?_⟩
      simp only [setState_nodes, latchReadyGates_nodes, Table.find?_modify, if_true,
        hfind, Option.map_some, Option.some.injEq] at h
      subst h
      exact .blocked
  · rw [queueNode_other s key k hk] at h
    exact .inl h

/-- A judgement neither makes nor removes a node. -/
theorem queueNode_isSome :
    ((s.queueNode key).nodes.find? k).isSome = (s.nodes.find? k).isSome := by
  by_cases hk : k = key
  · subst hk
    rcases queueNode_cases s k with
      heq | ⟨node, hfind, _, ⟨heq, _⟩ | ⟨r, readiness, heq⟩ | ⟨heq, _⟩⟩ <;> rw [heq] <;>
      simp [*]
  · rw [queueNode_other s key k hk]

variable (s key k)

/-- The node of a cycle. -/
def cycleFailed (error : String) (node : Node) : Node :=
  { node with error, terminalFailure := true, generation := node.generation + 1, retryAt := none
              state := .failed }

@[simp] theorem failCycleNode_nodes (error : String) :
    (failCycleNode error s key).nodes = s.nodes.modify key (cycleFailed error) := by
  simp only [failCycleNode, setState_nodes, modifyNode_nodes, Table.modify_modify]
  rfl

/-- The node a queued version is installed on. -/
def installed (key : ArtifactKey) (successor : RequestedVersion)
    (successors : List RequestedVersion) (flag : Nat) (node : Node) : Node :=
  let node := promoted node successor successors flag
  { node with
    installedWaiterKeys := waiterKeys key node []
    completedWaiterEdgesPruned := false
    state := .missing }

@[simp] theorem installSuccessor_nodes (node : Node) (successor : RequestedVersion)
    (successors : List RequestedVersion) :
    (s.installSuccessor key node successor successors).nodes
      = s.nodes.modify key (installed key successor successors s.nextFlag) := by
  simp only [installSuccessor, setState_nodes, queueReclaim_nodes, installWaiterEdges_nodes,
    freshFlag_nodes, modifyNode_nodes, unpinSuccessor_nodes, removeWaiterEdges_nodes,
    storeVersion_nodes, Table.modify_modify]
  rfl

/-- A node given up. -/
def cancelled (node : Node) : Node :=
  { node with
    installedWaiterKeys := [], completedWaiterEdgesPruned := false
    generation := node.generation + 1, desired := false, successors := [], retryAt := none
    waitingGpuSubmissions := none, gpuSubmissions := none, lease := none, state := .cancelled }

theorem cancelLocked_nodes :
    (s.cancelLocked key).nodes = s.nodes.modify key cancelled := by
  unfold cancelLocked
  split
  · rename_i hfind
    simp only [Table.modify, hfind]
  · simp only [setState_nodes, modifyNode_nodes, clearSuccessors_nodes, queueReclaim_nodes,
      setDesired_nodes, removeWaiterEdges_nodes, Table.modify_modify]
    rfl

end ModuleServices.Graph.Proof
