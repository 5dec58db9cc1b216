import ModuleServices.Graph.Proof.Views

/-!
# The moves mark what they change

One lemma a function, and `Move.marked` for all of them: an install marks its address
because the version it replaces had begun, or because the request behind it has marked
the address already.
-/

namespace ModuleServices.Graph.Proof

open World

variable {claims : List (Nat × VersionKey)} {s s' : World} {key : ArtifactKey}

/-! ## Marks -/

theorem mem_markDirty {dirty : List ArtifactKey} {changed : Bool} {k : ArtifactKey}
    (h : k ∈ dirty) : k ∈ markDirty dirty key changed := by
  unfold markDirty
  split
  · exact List.mem_append_left _ h
  · exact h

theorem key_mem_markDirty (dirty : List ArtifactKey) (key : ArtifactKey) :
    key ∈ markDirty dirty key true := by
  unfold markDirty
  split
  · exact List.mem_append_right _ (List.mem_singleton.mpr rfl)
  · rename_i h
    simpa using h

theorem setState_dirty {node : Node} {state : ArtifactReadiness}
    (hfind : s.nodes.find? key = some node) (hne : node.state ≠ state) :
    key ∈ (s.setState key state).dirtyViews := by
  unfold setState
  rw [hfind]
  have hchanged : (node.state != state) = true := bne_iff_ne.mpr hne
  simp only [Option.any_some, hchanged]
  exact key_mem_markDirty _ _

theorem setState_marked (s : World) (key : ArtifactKey) (state : ArtifactReadiness) :
    Marked claims s (s.setState key state) := by
  refine .modify ⟨rfl, rfl, rfl, rfl, rfl, rfl, fun _ _ _ _ => .inl⟩ (setState_nodes s key state)
    (fun _ => mem_markDirty) (fun _ => id) fun node hfind => ⟨Unseen.kept ⟨rfl, rfl, rfl, rfl, rfl, rfl⟩, fun hnot => ?_⟩
  have hstate : node.state = state := by
    by_contra hne
    exact hnot (setState_dirty hfind hne)
  subst hstate
  rfl

theorem setDesired_marked (s : World) (key : ArtifactKey) :
    Marked claims s (s.setDesired key true) := by
  refine .modify ⟨rfl, rfl, rfl, rfl, rfl, rfl, fun _ _ _ _ => .inl⟩ (setDesired_nodes s key true)
    (fun _ => mem_markDirty) (fun _ => id) fun node _ =>
      ⟨⟨fun _ _ hnames => ?_, fun _ => nofun⟩, fun _ => rfl⟩
  cases hnames with
  | desired hne => exact .desired hne
  | produced hne => exact .produced hne
  | successor hmem => exact .successor hmem

/-- A node is changed where nobody reads it. -/
theorem modifyNode_marked (s : World) (key : ArtifactKey) {f : Node → Node}
    (hf : ∀ node, Unseen node (f node) ∧ (f node).state = node.state
      ∧ (f node).payload = node.payload) : Marked claims s (s.modifyNode key f) :=
  .unseen ⟨rfl, rfl, rfl, rfl, rfl, rfl, fun _ _ _ _ => .inl⟩ rfl rfl hf

theorem modifyNode_off (s : World) (f : Node → Node) {k : ArtifactKey} (hk : k ≠ key) :
    SameShown s (s.modifyNode key f) k := by
  have hbeside : Beside s (s.modifyNode key f) :=
    ⟨rfl, rfl, rfl, rfl, rfl, rfl, fun _ _ _ _ => .inl⟩
  exact sameShown_modify hbeside rfl fun heq => absurd heq hk

/-- A node is changed where nobody reads it, and its state set. -/
theorem modifyState_marked (s : World) (key : ArtifactKey) (state : ArtifactReadiness)
    {f : Node → Node} (hf : ∀ node, Unseen node (f node) ∧ (f node).state = node.state
      ∧ (f node).payload = node.payload) :
    Marked claims s ((s.modifyNode key f).setState key state) :=
  (modifyNode_marked s key hf).trans (setState_marked _ key state)

theorem storable_find {node : Node} (h : s.storable key = some node) :
    s.nodes.find? key = some node ∧ node.producedRevision ≠ 0 := by
  obtain ⟨hfind, hguard⟩ := Option.filter_eq_some_iff.mp h
  simp only [Bool.and_eq_true, bne_iff_ne, ne_eq] at hguard
  exact ⟨hfind, hguard.1⟩

/-- The snapshot of what was produced names the version at the cursor. -/
theorem cursorVersion_eq {node : Node} (h : node.producedRevision ≠ 0) :
    cursorVersion node = (makeSnapshot node).version := by
  unfold cursorVersion makeSnapshot ArtifactSnapshot.version
  simp [h]

/-- The version at the cursor is archived under its own name, and the address marked. -/
theorem storeVersion_marked (hkeyed : Keyed s) (key : ArtifactKey) :
    Marked claims s (s.storeVersion key) := by
  cases hstored : s.storable key with
  | none =>
    have hversions : (s.storeVersion key).versions = s.versions := by
      unfold storeVersion
      rw [hstored]
      rfl
    have hdirty : (s.storeVersion key).dirtyViews = s.dirtyViews := by
      unfold storeVersion
      rw [hstored]
      rfl
    exact .of_same ⟨hversions, rfl, rfl, rfl, rfl, rfl, fun _ _ _ _ => .inl⟩ rfl hdirty
  | some node =>
    obtain ⟨hfind, hproduced⟩ := storable_find hstored
    have hkey := hkeyed key node hfind
    have hversions (v : VersionID) : (s.storeVersion key).versions.find? v
        = if v = cursorVersion node then some { makeSnapshot node with lease := none }
          else s.versions.find? v := by
      unfold storeVersion
      rw [hstored]
      exact Table.find?_insert _ _ _ _
    have hmarked : key ∈ (s.storeVersion key).dirtyViews := by
      unfold storeVersion
      rw [hstored]
      exact key_mem_markDirty _ _
    exact
      { readModel := rfl
        dirty := fun _ => mem_markDirty
        owned := fun howned => howned.of_names (Nat.le_refl _) fun generation v hv => by
          left
          cases hv with
          | assigned h => exact .assigned h
          | reserved h => exact .reserved h
          | posted h hne => exact .posted h hne
          | node h hnames => exact .node h hnames
          | @archived v snapshot h =>
            rw [hversions] at h
            split at h
            · rename_i heq
              subst heq
              change Names s node.versionGeneration ⟨node.key, node.producedRevision⟩
              rw [hkey]
              exact .node hfind (.produced hproduced)
            · exact .archived h
          | predicted h => exact .predicted h
          | target h => exact .target h
        aliases := id
        unqueued := id
        keyed := id
        filed := fun hfiled v snapshot h => by
          rw [hversions] at h
          split at h
          · rename_i heq
            cases h
            exact (heq.trans (cursorVersion_eq hproduced)).symm
          · exact hfiled v snapshot h
        shown := fun k hnot => ⟨rfl, fun v hv => by
          rw [hversions, if_neg]
          rintro rfl
          exact hnot ((hkey.symm.trans hv) ▸ hmarked), fun _ _ => rfl⟩ }

/-! ## The judgement of a node -/

theorem latchReadyGates_marked (s : World) (key : ArtifactKey) :
    Marked claims s (s.latchReadyGates key) :=
  modifyNode_marked s key fun _ => ⟨⟨rfl, rfl, rfl, rfl, rfl, rfl⟩, rfl, rfl⟩

theorem failDependent_marked (hkeyed : Keyed s) (key : ArtifactKey) (r : ArtifactRequirement)
    (readiness : ArtifactReadiness) : Marked claims s (s.failDependent key r readiness) := by
  unfold failDependent
  simp only
  generalize "required dependency " ++ keyString r.key ++ " terminated in state "
    ++ readiness.name = error
  have hfailed : Marked claims s ((s.modifyNode key fun node => { node with
      error, terminalFailure := true }).setState key .failed) :=
    modifyState_marked s key .failed fun _ => ⟨⟨rfl, rfl, rfl, rfl, rfl, rfl⟩, rfl, rfl⟩
  refine (hfailed.trans (storeVersion_marked (hfailed.keyed hkeyed) key)).trans ?_
  exact .of_same ⟨rfl, rfl, rfl, rfl, rfl, rfl, fun _ _ _ _ => .inl⟩ rfl rfl

theorem queueNode_marked (hkeyed : Keyed s) (key : ArtifactKey) :
    Marked claims s (s.queueNode key) := by
  have hlatch : Marked claims s (s.latchReadyGates key) := latchReadyGates_marked s key
  rcases queueNode_cases s key with heq | ⟨_, _, _, ⟨heq, _⟩ | ⟨r, readiness, heq⟩ | ⟨heq, _⟩⟩ <;>
    rw [heq]
  · exact .refl s
  · refine (hlatch.trans (setState_marked _ key .queued)).trans ?_
    exact .of_same ⟨rfl, rfl, rfl, rfl, rfl, rfl, fun _ _ _ _ => .inl⟩ rfl rfl
  · exact hlatch.trans (failDependent_marked (hlatch.keyed hkeyed) key r readiness)
  · exact hlatch.trans (setState_marked _ key .blocked)

theorem detectCycle_marked (s : World) (key : ArtifactKey) :
    Marked claims s (s.detectCycle key).1 := by
  obtain ⟨_, _, heq⟩ := detectCycle_marks s key
  rw [heq]
  exact .of_same ⟨rfl, rfl, rfl, rfl, rfl, rfl, fun _ _ _ _ => .inl⟩ rfl rfl

theorem failCycleNode_marked (error : String) (s : World) (key : ArtifactKey) :
    Marked claims s (failCycleNode error s key) :=
  modifyState_marked s key .failed fun _ => ⟨⟨rfl, rfl, rfl, rfl, rfl, rfl⟩, rfl, rfl⟩

/-! ## Installs -/

/-- An install before it sets the state. -/
def beforeInstall (s : World) (key : ArtifactKey) (node : Node) (successor : RequestedVersion)
    (successors : List RequestedVersion) : World :=
  let s := s.storeVersion key
  let s : World := { s with gpuWaiting :=
    if node.state = .uploadSubmitted then s.gpuWaiting - 1 else s.gpuWaiting }
  let s := (s.removeWaiterEdges key).unpinSuccessor key successor
  let s := (s.modifyNode key fun node => promoted node successor successors s.nextFlag).freshFlag
  (s.installWaiterEdges key []).queueReclaim (previousVersion node)

/-- The node of `beforeInstall`. -/
def promotedNode (key : ArtifactKey) (successor : RequestedVersion)
    (successors : List RequestedVersion) (flag : Nat) (node : Node) : Node :=
  let node := promoted node successor successors flag
  { node with installedWaiterKeys := waiterKeys key node [], completedWaiterEdgesPruned := false }

theorem beforeInstall_nodes (s : World) (key : ArtifactKey) (node : Node)
    (successor : RequestedVersion) (successors : List RequestedVersion) :
    (beforeInstall s key node successor successors).nodes
      = s.nodes.modify key (promotedNode key successor successors s.nextFlag) := by
  simp only [beforeInstall, queueReclaim_nodes, installWaiterEdges_nodes, freshFlag_nodes,
    modifyNode_nodes, unpinSuccessor_nodes, removeWaiterEdges_nodes, storeVersion_nodes,
    Table.modify_modify]
  rfl

/-- A queued version becomes the active one. -/
theorem promotedNode_kept {node : Node} {successor : RequestedVersion}
    {successors : List RequestedVersion} (hqueue : node.successors = successor :: successors)
    (flag : Nat) : NodeKept node (promotedNode key successor successors flag node) where
  names generation revision hnames := by
    cases hnames with
    | desired => exact .successor (hqueue ▸ List.mem_cons_self)
    | produced hne => exact absurd rfl hne
    | successor hmem => exact .successor (hqueue ▸ List.mem_cons_of_mem _ hmem)
  unqueued hun hdesired := by
    rw [hun hdesired] at hqueue
    cases hqueue

theorem installSuccessor_marked (hkeyed : Keyed s) {node : Node} {successor : RequestedVersion}
    {successors : List RequestedVersion} (hfind : s.nodes.find? key = some node)
    (hqueue : node.successors = successor :: successors)
    (hmarks : key ∈ s.dirtyViews ∨ node.state ≠ .missing) :
    Marked claims s (s.installSuccessor key node successor successors) := by
  have hstored : Marked claims s (s.storeVersion key) := storeVersion_marked hkeyed key
  have hbeside : Beside (s.storeVersion key) (beforeInstall s key node successor successors) :=
    ⟨rfl, rfl, rfl, rfl, rfl, rfl, fun _ _ _ _ => .inl⟩
  have hnodes := beforeInstall_nodes s key node successor successors
  refine hstored.trans (.late key ?_ ?_ (setState_marked
    (beforeInstall s key node successor successors) key .missing) ?_)
  · refine .modify hbeside hnodes (fun _ => id) (fun _ => id) fun node' hfind' => ?_
    cases hfind.symm.trans hfind'
    exact promotedNode_kept hqueue _
  · exact fun k hk => sameShown_modify hbeside hnodes fun heq => absurd heq hk
  · rcases hmarks with hmarked | hbegun
    · exact mem_markDirty (mem_markDirty hmarked)
    · have hpromoted : (beforeInstall s key node successor successors).nodes.find? key
          = some (promotedNode key successor successors s.nextFlag node) := by
        rw [hnodes, Table.find?_modify, if_pos rfl, hfind]
        rfl
      exact setState_dirty hpromoted hbegun

theorem installSuccessor_dirty {node' : Node} (successor : RequestedVersion)
    (successors : List RequestedVersion) (node : Node) (hfind : s.nodes.find? key = some node')
    (hbegun : node'.state ≠ .missing) :
    key ∈ (s.installSuccessor key node successor successors).dirtyViews := by
  have hpromoted : (beforeInstall s key node successor successors).nodes.find? key
      = some (promotedNode key successor successors s.nextFlag node') := by
    rw [beforeInstall_nodes, Table.find?_modify, if_pos rfl, hfind]
    rfl
  exact setState_dirty hpromoted hbegun

/-- The version `mintLatest` queues is minted for the revision its node desires. -/
theorem mintLatest_owned {node : Node} (hfind : s.nodes.find? key = some node)
    (h : Owned claims s) : Owned claims (s.mintLatest key node) := by
  refine h.of_minted ⟨key, node.desiredRevision⟩ rfl fun generation v hv => ?_
  cases hv with
  | assigned h => exact .inl (.assigned h)
  | reserved h => exact .inl (.reserved h)
  | posted h hne => exact .inl (.posted h hne)
  | archived h => exact .inl (.archived h)
  | predicted h => exact .inl (.predicted h)
  | target h => exact .inl (.target h)
  | @node k node' _ _ hnode hnames =>
    rw [mintLatest_nodes, Table.find?_modify] at hnode
    split at hnode
    · subst k
      rw [hfind] at hnode
      cases hnode
      cases hnames with
      | desired hne => exact .inl (.node hfind (.desired hne))
      | produced hne => exact .inl (.node hfind (.produced hne))
      | successor hmem =>
        rcases List.mem_append.mp hmem with hold | hnew
        · exact .inl (.node hfind (.successor hold))
        · rw [List.mem_singleton.mp hnew]
          exact .inr ⟨rfl, rfl⟩
    · exact .inl (.node hnode hnames)

/-- A Latest successor is minted and installed at once: its address is marked, and its queue empty
again. -/
theorem latest_marked (hkeyed : Keyed s) {node : Node} (hfind : s.nodes.find? key = some node)
    (hstate : node.state.publishable = true) (hqueue : node.successors = []) :
    Marked claims s ((s.mintLatest key node).installSuccessor key
      (withLatest (latestSuccessor s key node) node) (latestSuccessor s key node) []) := by
  have hminted : (s.mintLatest key node).nodes.find? key
      = some (withLatest (latestSuccessor s key node) node) := by
    rw [mintLatest_nodes, Table.find?_modify, if_pos rfl, hfind]
    rfl
  have hother (k : ArtifactKey) (hk : k ≠ key) :
      (s.mintLatest key node).nodes.find? k = s.nodes.find? k := by
    rw [mintLatest_nodes, Table.find?_modify, if_neg hk]
  have hkeyed' : Keyed (s.mintLatest key node) := fun k node' hnode => by
    by_cases hk : k = key
    · subst hk
      cases hminted.symm.trans hnode
      exact hkeyed k node hfind
    · exact hkeyed k node' (hother k hk ▸ hnode)
  have hbegun := begun_of_publishable hstate
  have hqueue' : (withLatest (latestSuccessor s key node) node).successors
      = [latestSuccessor s key node] := by
    unfold withLatest
    rw [hqueue]
    rfl
  have hinstalled : Marked claims (s.mintLatest key node) _ :=
    installSuccessor_marked hkeyed' hminted hqueue' (.inr hbegun)
  have hmarked := installSuccessor_dirty (latestSuccessor s key node) []
    (withLatest (latestSuccessor s key node) node) hminted hbegun
  exact
    { readModel := hinstalled.readModel
      dirty := hinstalled.dirty
      owned := hinstalled.owned ∘ mintLatest_owned hfind
      aliases := hinstalled.aliases
      keyed := fun _ => hinstalled.keyed hkeyed'
      filed := hinstalled.filed
      unqueued := fun hun k node' hnode hdesired => by
        rw [installSuccessor_nodes, Table.find?_modify] at hnode
        split at hnode
        · rw [hminted] at hnode
          cases hnode
          rfl
        · exact hun k node' (hother k ‹_› ▸ hnode) hdesired
      shown := fun k hnot => by
        have hk : k ≠ key := fun heq => hnot (heq ▸ hmarked)
        have hminted : SameShown s (s.mintLatest key node) k :=
          ⟨by rw [hother k hk], fun _ _ => rfl, fun _ _ => rfl⟩
        exact hminted.trans (hinstalled.shown k hnot) }

theorem Move.marked {may : Node → Prop} (hkeyed : Keyed s)
    (hmay : ∀ key node, s.nodes.find? key = some node → may node →
      key ∈ s.dirtyViews ∨ node.state ≠ .missing) (h : Move may s s') : Marked claims s s' := by
  cases h with
  | queue key => exact queueNode_marked hkeyed key
  | detect key => exact detectCycle_marked s key
  | failCycleNode error key => exact failCycleNode_marked error s key
  | install hfind _ hqueue hmay' =>
    exact installSuccessor_marked hkeyed hfind hqueue (hmay _ _ hfind hmay')
  | latest hfind _ _ hstate hqueue => exact latest_marked hkeyed hfind hstate hqueue
  | needLatest key =>
    exact modifyNode_marked s key fun _ => ⟨⟨rfl, rfl, rfl, rfl, rfl, rfl⟩, rfl, rfl⟩

/-- Moves that install over a version that has begun, or at a marked address. -/
theorem Moves.marked {may : Node → Prop} (hkeyed : Keyed s)
    (hmay : ∀ u : World, (∀ k ∈ s.dirtyViews, k ∈ u.dirtyViews) → ∀ key node,
      u.nodes.find? key = some node → may node → key ∈ u.dirtyViews ∨ node.state ≠ .missing)
    (h : Moves may s s') : Marked claims s s' := by
  induction h with
  | refl => exact .refl s
  | tail _ hlast ih => exact ih.trans (hlast.marked (ih.keyed hkeyed) (hmay _ ih.dirty))

theorem Moves.marked_begun (hkeyed : Keyed s) (h : Moves Begun s s') : Marked claims s s' :=
  h.marked hkeyed fun _ _ _ _ _ hbegun => .inr hbegun

end ModuleServices.Graph.Proof
