import ModuleServices.Graph.Drain
import ModuleServices.Lib.Run
import Mathlib.Logic.Relation

/-!
# What a node's advance is made of

`QueueNode`, `PromoteSuccessor`, `QueueLatestSuccessor` and `WakeWaiter` call each other,
and every entry into the graph ends in one of them. Whatever they do, they do by the few
moves of `Move`: judge a node for its build, install the next queued version or one minted
for a Latest edge, fail a node of a cycle. An invariant of the graph is therefore shown
for these moves once.
-/

namespace ModuleServices.Graph.Proof

open World

/-- A node with one more queued version, minted for a Latest edge. -/
def withLatest (successor : RequestedVersion) (node : Node) : Node :=
  { node with successors := node.successors ++ [successor], latestSuccessorNeeded := false }

/-- The version `mintLatest` queues. -/
def latestSuccessor (s : World) (key : ArtifactKey) (node : Node) : RequestedVersion :=
  { revision := node.desiredRevision, generation := s.nextVersionGeneration + 1
    fingerprint := latestFingerprint node.requestFingerprint node.desiredRevision
      (s.nextVersionGeneration + 1)
    input := node.input
    requirements := node.requestedRequirements
    requestedRequirements := node.requestedRequirements
    lease := some (({ s with nextVersionGeneration := s.nextVersionGeneration + 1
      }.acquireVersionLease ⟨key, node.desiredRevision, s.nextVersionGeneration + 1⟩).2)
    coalescibleIntent := node.coalescibleIntent }

theorem mintLatest_nodes (s : World) (key : ArtifactKey) (node : Node) :
    (s.mintLatest key node).nodes
      = s.nodes.modify key (withLatest (latestSuccessor s key node)) := rfl

/-- One move; `may` says of which nodes the queued version is installed. -/
inductive Move (may : Node → Prop) (s : World) : World → Prop where
  | queue (key : ArtifactKey) : Move may s (s.queueNode key)
  | detect (key : ArtifactKey) : Move may s (s.detectCycle key).1
  | failCycleNode (error : String) (key : ArtifactKey) : Move may s (failCycleNode error s key)
  | install {key : ArtifactKey} {node : Node} {successor : RequestedVersion}
      {successors : List RequestedVersion} (hfind : s.nodes.find? key = some node)
      (hflight : node.buildInFlight = false) (hqueue : node.successors = successor :: successors)
      (hmay : may node) : Move may s (s.installSuccessor key node successor successors)
  | latest {key : ArtifactKey} {node : Node} (hfind : s.nodes.find? key = some node)
      (hflight : node.buildInFlight = false) (hproduced : node.producedRevision ≠ 0)
      (hstate : node.state.publishable = true) (hqueue : node.successors = []) :
      Move may s ((s.mintLatest key node).installSuccessor key
        (withLatest (latestSuccessor s key node) node) (latestSuccessor s key node) [])
  | needLatest (key : ArtifactKey) (needed : Bool) :
      Move may s (s.modifyNode key fun node => { node with latestSuccessorNeeded := needed })

/-- Any number of moves. -/
abbrev Moves (may : Node → Prop) : World → World → Prop := Relation.ReflTransGen (Move may)

variable {may : Node → Prop} {s s' : World}

theorem Move.moves (h : Move may s s') : Moves may s s' := .single h

/-- **The invariant rule of the moves.** -/
theorem Moves.invariant {I : World → Prop} (hmove : ∀ {u v}, Move may u v → I u → I v)
    (h : Moves may s s') (hinv : I s) : I s' := by
  induction h with
  | refl => exact hinv
  | tail _ hlast ih => exact hmove hlast ih

theorem failCycle_moves (s : World) (cycle : List ArtifactKey) :
    Moves may s (s.failCycle cycle) := by
  unfold failCycle
  generalize "dependency cycle: " ++ cycleString cycle = error
  induction cycle.eraseDups generalizing s with
  | nil => exact .refl
  | cons key keys ih => exact .head (.failCycleNode error key) (ih _)

theorem startVersion_moves (s : World) (key : ArtifactKey) : Moves may s (s.startVersion key) := by
  unfold startVersion
  have hdetect : Move may s (s.detectCycle key).1 := .detect key
  split
  rename_i s₁ cycle heq
  rw [heq] at hdetect
  split
  · exact .head hdetect (Move.queue key).moves
  · exact .head hdetect (failCycle_moves _ _)

theorem promoteSuccessor_moves (s : World) (key : ArtifactKey)
    (hmay : ∀ node, s.nodes.find? key = some node → may node) :
    Moves may s (s.promoteSuccessor key) := by
  unfold promoteSuccessor
  split
  · exact .refl
  · rename_i node hfind
    split
    · exact .refl
    · rename_i hflight
      split
      · exact .refl
      · rename_i successor successors hqueue
        exact .head (.install hfind (Bool.eq_false_iff.mpr hflight) hqueue (hmay node hfind))
          (startVersion_moves _ _)

theorem publishable_of {state : ArtifactReadiness}
    (h : ¬(state ≠ .uploadSubmitted ∧ state ≠ .gpuReady ∧ state ≠ .published)) :
    state.publishable = true := by
  cases state <;> first | rfl | exact absurd ⟨nofun, nofun, nofun⟩ h

/-- A Latest successor is installed over a version that was produced and can be consumed. -/
theorem queueLatestSuccessor_moves (s : World) (key : ArtifactKey)
    (hmay : ∀ node : Node, node.producedRevision ≠ 0 → node.state.publishable = true → may node) :
    Moves may s (s.queueLatestSuccessor key) := by
  unfold queueLatestSuccessor
  split
  · exact .refl
  rename_i node hfind
  split
  · exact .refl
  rename_i hguard
  obtain ⟨hflight, hproduced, hstate⟩ := not_or.mp hguard |>.imp id not_or.mp
  have hpublishable := publishable_of hstate
  split
  · refine .head (.needLatest key false) (promoteSuccessor_moves _ _ fun node' hfind' => ?_)
    simp only [modifyNode, Table.find?_modify, if_true, hfind, Option.map_some,
      Option.some.injEq] at hfind'
    subst hfind'
    exact hmay _ hproduced hpublishable
  · rename_i hqueue
    have hnil := not_not.mp hqueue
    have hminted : (s.mintLatest key node).nodes.find? key
        = some (withLatest (latestSuccessor s key node) node) := by
      rw [mintLatest_nodes, Table.find?_modify, if_pos rfl, hfind]
      rfl
    have hsuccessors : (withLatest (latestSuccessor s key node) node).successors
        = [latestSuccessor s key node] := by
      unfold withLatest
      rw [hnil]
      rfl
    unfold promoteSuccessor
    rw [hminted]
    simp only
    rw [if_neg (by exact hflight), hsuccessors]
    exact .head (.latest hfind (Bool.eq_false_iff.mpr hflight) hproduced hpublishable hnil)
      (startVersion_moves _ _)

theorem wakeWaiter_moves (s : World) (key waiter : ArtifactKey)
    (hmay : ∀ node : Node, node.producedRevision ≠ 0 → node.state.publishable = true → may node) :
    Moves may s (s.wakeWaiter key waiter) := by
  unfold wakeWaiter
  split
  · exact .refl
  · simp only
    split
    · exact queueLatestSuccessor_moves _ _ hmay
    · split
      · exact .head (.needLatest waiter true) (Move.queue waiter).moves
      · exact (Move.queue waiter).moves

theorem handOn_moves (s : World) (key : ArtifactKey)
    (hmay : ∀ node : Node, node.producedRevision ≠ 0 → node.state.publishable = true → may node)
    (hnode : ∀ node, s.nodes.find? key = some node → may node) : Moves may s (s.handOn key) := by
  unfold handOn
  split
  · exact .refl
  · split
    · exact queueLatestSuccessor_moves _ _ hmay
    · exact promoteSuccessor_moves _ _ hnode

/-- A node that has gone on from where its version was set up. -/
def Begun (node : Node) : Prop := node.state ≠ .missing

theorem begun_of_publishable {node : Node} (h : node.state.publishable = true) : Begun node := by
  intro hmissing
  rw [hmissing] at h
  cases h

/-! ## What the judgement of a node comes to -/

/-- `QueueNode` does nothing, queues the node, fails it or leaves it blocked. -/
theorem queueNode_cases (s : World) (key : ArtifactKey) :
    s.queueNode key = s
      ∨ ∃ node, s.nodes.find? key = some node ∧ node.settled = false
        ∧ (s.queueNode key = ((s.latchReadyGates key).setState key .queued).push key
            ∧ (s.latchReadyGates key).dependenciesSatisfied
              { node with requirements := node.requirements.map s.latchGate } = true
          ∨ (∃ r readiness, s.queueNode key
              = (s.latchReadyGates key).failDependent key r readiness)
          ∨ s.queueNode key = (s.latchReadyGates key).setState key .blocked
            ∧ (s.latchReadyGates key).dependenciesSatisfied
              { node with requirements := node.requirements.map s.latchGate } = false
            ∧ (s.latchReadyGates key).terminalDependency
              { node with requirements := node.requirements.map s.latchGate } = none) := by
  unfold queueNode
  split
  · exact .inl rfl
  rename_i node hfind
  split
  · exact .inl rfl
  rename_i hsettled
  refine .inr ⟨node, hfind, Bool.eq_false_iff.mpr hsettled, ?_⟩
  have hlatched : (s.latchReadyGates key).nodes.find? key
      = some { node with requirements := node.requirements.map s.latchGate } := by
    simp [latchReadyGates, modifyNode, hfind]
  unfold admitNode
  rw [hlatched]
  simp only
  split
  · exact .inl ⟨rfl, ‹_›⟩
  · split
    · exact .inr (.inl ⟨_, _, rfl⟩)
    · exact .inr (.inr ⟨rfl, Bool.eq_false_iff.mpr ‹_›, ‹_›⟩)

end ModuleServices.Graph.Proof
