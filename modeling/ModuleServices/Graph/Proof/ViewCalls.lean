import ModuleServices.Graph.Proof.ViewMoves

/-!
# The calls mark what they change

Completions, submission sets, cancellation, publication and reclamation, one lemma a
function. Two of them have a condition: a cancellation needs that an address nobody wants
has nothing queued, and a publication that it stores what it moves on
(`MarksPublication`).
-/

namespace ModuleServices.Graph.Proof

open World

variable {claims : List (Nat × VersionKey)} {s s' : World} {key : ArtifactKey}

/-! ## Completions -/

theorem landed_marked (s : World) (completion : Completion) (stale : Bool) :
    Marked claims s (landed s completion stale) :=
  .unseen ⟨rfl, rfl, rfl, rfl, rfl, rfl, fun _ _ _ _ => .inl⟩ (landed_nodes s completion stale) rfl
    fun _ => ⟨⟨rfl, rfl, rfl, rfl, rfl, rfl⟩, rfl, rfl⟩

theorem takeCompletion_marked (s : World) (rest : List Completion) :
    Marked claims s (takeCompletion s rest) :=
  .of_same ⟨rfl, rfl, rfl, rfl, rfl, rfl, fun _ _ _ _ => .inl⟩ rfl rfl

/-- A milestone is announced, stored and told to the waiters. -/
theorem reach_marked (hkeyed : Keyed s) (key : ArtifactKey) : Marked claims s (s.reach key) := by
  have hannounced : Marked claims s (s.announceNode key) :=
    .of_same ⟨rfl, rfl, rfl, rfl, rfl, rfl, fun _ _ _ _ => .inl⟩ rfl rfl
  refine (hannounced.trans (storeVersion_marked (hannounced.keyed hkeyed) key)).trans ?_
  exact .of_same ⟨rfl, rfl, rfl, rfl, rfl, rfl, fun _ _ _ _ => .inl⟩ rfl rfl

/-- A node of the version whose build has come back. -/
theorem produced_kept {node : Node} {completion : Completion}
    (hrevision : completion.revision ≠ 0 → node.desiredRevision = completion.revision) :
    NodeKept node (produced node completion) where
  names generation revision hnames := by
    cases hnames with
    | desired hne => exact .desired hne
    | produced hne =>
      have hsame : node.desiredRevision = completion.revision := hrevision hne
      change NodeNames node node.versionGeneration completion.revision
      rw [← hsame]
      exact .desired (hsame ▸ hne)
    | successor hmem => exact .successor hmem
  unqueued := id

theorem awaiting_marked (s : World) (key : ArtifactKey) (token : Option Nat) :
    Marked claims s (awaiting s key token) := by
  cases token <;>
    exact .unseen ⟨rfl, rfl, rfl, rfl, rfl, rfl, fun _ _ _ _ => .inl⟩ (awaiting_nodes s key _) rfl
      fun _ => ⟨⟨rfl, rfl, rfl, rfl, rfl, rfl⟩, rfl, rfl⟩

theorem buildingState_ne_ready {state : ArtifactReadiness} (h : buildingState state = true)
    (completion : Completion) : state ≠ (readyState completion).1 := by
  rintro rfl
  unfold readyState at h
  cases hset : completion.result.gpuSubmissions with
  | none =>
    rw [hset] at h
    cases h
  | some token =>
    rw [hset] at h
    cases hsubmitted : completion.gpuSubmitted <;> cases hcomplete : completion.gpuComplete <;>
      simp [hsubmitted, hcomplete, buildingState] at h

theorem pruneCompletedWaiterEdges_marked (s : World) (key : ArtifactKey) :
    Marked claims s (s.pruneCompletedWaiterEdges key) :=
  .unseen ⟨rfl, rfl, rfl, rfl, rfl, rfl, fun _ _ _ _ => .inl⟩
    (pruneCompletedWaiterEdges_nodes s key) rfl fun _ => ⟨⟨rfl, rfl, rfl, rfl, rfl, rfl⟩, rfl, rfl⟩

/-- A result has been taken over by its node, whose state still says that it builds. -/
def taken (s : World) (completion : Completion) : World :=
  awaiting ((s.modifyNode completion.key fun node => produced node completion
    ).pruneCompletedWaiterEdges completion.key) completion.key (readyState completion).2

theorem readied_eq (s : World) (node : Node) (completion : Completion) :
    readied s node completion
      = ((taken (s.queueReclaim (capturedVersions node.resolvedDependencies)) completion).setState
          completion.key (readyState completion).1).reach completion.key := rfl

theorem taken_find {node : Node} {completion : Completion}
    (hfind : s.nodes.find? completion.key = some node) :
    ∃ node', (taken s completion).nodes.find? completion.key = some node'
      ∧ node'.state = node.state := by
  unfold taken
  simp only [awaiting_nodes, pruneCompletedWaiterEdges_nodes, modifyNode_nodes,
    Table.find?_modify, if_true, hfind, Option.map_some]
  exact ⟨_, rfl, rfl⟩

/-- A Ready result: the node was building, so its new state marks it. -/
theorem readied_marked (hkeyed : Keyed s) {node : Node} (node' : Node) {completion : Completion}
    (hfind : s.nodes.find? completion.key = some node)
    (hbuilding : buildingState node.state = true)
    (hrevision : completion.revision ≠ 0 → node.desiredRevision = completion.revision) :
    Marked claims s (readied s node' completion) := by
  rw [readied_eq]
  have hqueued : Marked claims s (s.queueReclaim (capturedVersions node'.resolvedDependencies)) :=
    .of_same ⟨rfl, rfl, rfl, rfl, rfl, rfl, fun _ _ _ _ => .inl⟩ rfl rfl
  refine hqueued.trans ?_
  have hkeyed := hqueued.keyed hkeyed
  replace hfind : (s.queueReclaim (capturedVersions node'.resolvedDependencies)).nodes.find?
    completion.key = some node := hfind
  generalize s.queueReclaim (capturedVersions node'.resolvedDependencies) = v at hkeyed hfind ⊢
  have hproduced : Kept claims v (v.modifyNode completion.key fun node => produced node completion) := by
    refine .modify ⟨rfl, rfl, rfl, rfl, rfl, rfl, fun _ _ _ _ => .inl⟩ rfl (fun _ => id)
      (fun _ => id) fun node₁ hnode => ?_
    cases hfind.symm.trans hnode
    exact produced_kept hrevision
  have htaken : Marked claims (v.modifyNode completion.key fun node => produced node completion)
      ((taken v completion).setState completion.key (readyState completion).1) :=
    ((pruneCompletedWaiterEdges_marked _ _).trans (awaiting_marked _ _ _)).trans
      (setState_marked _ _ _)
  have hmarked : completion.key
      ∈ ((taken v completion).setState completion.key (readyState completion).1).dirtyViews := by
    obtain ⟨node₁, hfind₁, hstate⟩ := taken_find hfind
    exact setState_dirty hfind₁ (hstate ▸ buildingState_ne_ready hbuilding completion)
  have hset := Marked.late completion.key hproduced (fun _ => modifyNode_off v _) htaken hmarked
  exact hset.trans (reach_marked (hset.keyed hkeyed) _)

theorem needed_marked (s : World) (key : ArtifactKey) (result : ArtifactBuildResult) :
    Marked claims s (needed s key result) :=
  .unseen ⟨rfl, rfl, rfl, rfl, rfl, rfl, fun _ _ _ _ => .inl⟩ (needed_nodes s key result) rfl
    fun _ => ⟨⟨rfl, rfl, rfl, rfl, rfl, rfl⟩, rfl, rfl⟩

theorem applyRetryAfter_marked (s : World) (node : Node) (result : ArtifactBuildResult) :
    Marked claims s (s.applyRetryAfter node result) := by
  have hblocked : Marked claims s ((s.modifyNode node.key fun node => { node with
      terminalFailure := false, checkpoint := result.checkpoint
      retryAt := some (s.now + result.retryDelay) }).setState node.key .blocked) :=
    modifyState_marked s node.key .blocked fun _ => ⟨⟨rfl, rfl, rfl, rfl, rfl, rfl⟩, rfl, rfl⟩
  exact hblocked.trans (.of_same ⟨rfl, rfl, rfl, rfl, rfl, rfl, fun _ _ _ _ => .inl⟩ rfl rfl)

theorem applySuspended_marked (hkeyed : Keyed s) (node : Node) (result : ArtifactBuildResult)
    (suspension : ArtifactSuspension) : Marked claims s (s.applySuspended node result suspension) := by
  have hsuspending : Marked claims s (suspending s node.key result suspension) :=
    modifyState_marked s node.key .blocked fun _ => ⟨⟨rfl, rfl, rfl, rfl, rfl, rfl⟩, rfl, rfl⟩
  rw [applySuspended_eq]
  simp only
  refine hsuspending.trans ?_
  have hkeyed := hsuspending.keyed hkeyed
  generalize suspending s node.key result suspension = u at hkeyed ⊢
  split
  · have hdiscovering : Marked claims u (discovering u node.key suspension) :=
      .unseen ⟨rfl, rfl, rfl, rfl, rfl, rfl, fun _ _ _ _ => .inl⟩ (discovering_nodes u node.key _) rfl
        fun _ => ⟨⟨rfl, rfl, rfl, rfl, rfl, rfl⟩, rfl, rfl⟩
    exact hdiscovering.trans (queueNode_marked (hdiscovering.keyed hkeyed) node.key)
  · split
    · have hfailed : Marked claims u ((u.modifyNode node.key fun node => { node with
          error := "suspension identity must be non-zero", terminalFailure := true }).setState
            node.key .failed) :=
        modifyState_marked u node.key .failed fun _ => ⟨⟨rfl, rfl, rfl, rfl, rfl, rfl⟩, rfl, rfl⟩
      exact hfailed.trans (.of_same ⟨rfl, rfl, rfl, rfl, rfl, rfl, fun _ _ _ _ => .inl⟩ rfl rfl)
    · split
      · have hsatisfied : Marked claims u (alreadySatisfied u node.key suspension.identity) :=
          .unseen ⟨rfl, rfl, rfl, rfl, rfl, rfl, fun _ _ _ _ => .inl⟩ rfl rfl
            fun _ => ⟨⟨rfl, rfl, rfl, rfl, rfl, rfl⟩, rfl, rfl⟩
        exact hsatisfied.trans (queueNode_marked (hsatisfied.keyed hkeyed) node.key)
      · exact .of_same ⟨rfl, rfl, rfl, rfl, rfl, rfl, fun _ _ _ _ => .inl⟩ rfl rfl

theorem noted_marked (s : World) (key : ArtifactKey) (error : Option String) :
    Marked claims s (noted s key error) := by
  cases error with
  | none => exact .refl s
  | some error =>
    exact modifyNode_marked s key fun _ => ⟨⟨rfl, rfl, rfl, rfl, rfl, rfl⟩, rfl, rfl⟩

theorem ended_marked (hkeyed : Keyed s) (node : Node) (completion : Completion)
    (error : Option String) : Marked claims s (ended s node completion error) := by
  have hset : Marked claims s (((noted s node.key error).setState node.key
      (endState error)).announceEnd completion node (endState error)) :=
    ((noted_marked s node.key error).trans (setState_marked _ node.key _)).trans
      (.of_same ⟨rfl, rfl, rfl, rfl, rfl, rfl, fun _ _ _ _ => .inl⟩ rfl rfl)
  refine (hset.trans (storeVersion_marked (hset.keyed hkeyed) node.key)).trans ?_
  exact .of_same ⟨rfl, rfl, rfl, rfl, rfl, rfl, fun _ _ _ _ => .inl⟩ rfl rfl

/-! ## Submission sets -/

/-- The version at the cursor is stored, announced and told to the waiters. -/
theorem stored_marked (hkeyed : Keyed s) (key : ArtifactKey) :
    Marked claims s (((s.storeVersion key).announceNode key).wakeWaiters key) :=
  (storeVersion_marked hkeyed key).trans
    (.of_same ⟨rfl, rfl, rfl, rfl, rfl, rfl, fun _ _ _ _ => .inl⟩ rfl rfl)

theorem gpuEnded_marked (hkeyed : Keyed s) (key : ArtifactKey) (error : String) :
    Marked claims s (gpuEnded s key error) := by
  have hset : Marked claims s ((s.modifyNode key fun node => { node with
      error := if error = "" then "GPU submission failed" else error
      terminalFailure := true, waitingGpuSubmissions := none }).setState key .failed) :=
    modifyState_marked s key .failed fun _ => ⟨⟨rfl, rfl, rfl, rfl, rfl, rfl⟩, rfl, rfl⟩
  exact hset.trans (stored_marked (hset.keyed hkeyed) key)

theorem gpuSubmitted_marked (hkeyed : Keyed s) (key : ArtifactKey) :
    Marked claims s (s.gpuSubmitted key) := by
  have hset : Marked claims s (s.setState key .uploadSubmitted) := setState_marked s key _
  exact hset.trans (stored_marked (hset.keyed hkeyed) key)

theorem gpuReached_marked (hkeyed : Keyed s) (key : ArtifactKey) (published : Bool) :
    Marked claims s (gpuReached s key published) := by
  have hset : Marked claims s ((s.modifyNode key fun node => { node with
      waitingGpuSubmissions := none }).setState key
        (if published then .published else .gpuReady)) :=
    modifyState_marked s key _ fun _ => ⟨⟨rfl, rfl, rfl, rfl, rfl, rfl⟩, rfl, rfl⟩
  exact hset.trans (stored_marked (hset.keyed hkeyed) key)

/-! ## Builds -/

theorem startBuild_marked (s : World) (key : ArtifactKey) (node : Node) :
    Marked claims s (s.startBuild key node) := by
  obtain ⟨_, ⟨_, _, _, rfl⟩, heq⟩ := startBuild_eq s key node
  rw [heq]
  have hstarting : Marked claims s (starting s key) :=
    modifyState_marked s key .preparing fun _ => ⟨⟨rfl, rfl, rfl, rfl, rfl, rfl⟩, rfl, rfl⟩
  exact hstarting.trans (.of_same ⟨rfl, rfl, rfl, rfl, rfl, rfl, fun _ _ _ _ => .inl⟩ rfl rfl)

theorem failProducerless_marked (s : World) (key : ArtifactKey) :
    Marked claims s (s.failProducerless key) := by
  have hfailed : Marked claims s ((s.modifyNode key fun node => { node with
      error := "no producer registered" }).setState key .failed) :=
    modifyState_marked s key .failed fun _ => ⟨⟨rfl, rfl, rfl, rfl, rfl, rfl⟩, rfl, rfl⟩
  exact hfailed.trans (.of_same ⟨rfl, rfl, rfl, rfl, rfl, rfl, fun _ _ _ _ => .inl⟩ rfl rfl)

/-! ## Awaiters -/

theorem snapshotExact_marked (s : World) (v : VersionID) :
    Marked claims s (s.snapshotExact v).1 := by
  unfold snapshotExact
  simp only
  split
  · exact .of_same ⟨rfl, rfl, rfl, rfl, rfl, rfl, fun _ _ _ _ => .inl⟩ rfl rfl
  · split
    · exact .refl s
    · split
      · exact .refl s
      · split
        · exact .refl s
        · split <;> exact .refl s

theorem applyAwait_marked (s : World) (operation : PostedAwait) :
    Marked claims s (s.applyAwait operation) := by
  unfold applyAwait
  simp only
  split
  · unfold cancelAwait
    simp only
    split <;> exact .of_same ⟨rfl, rfl, rfl, rfl, rfl, rfl, fun _ _ _ _ => .inl⟩ rfl rfl
  · split
    · exact .of_same ⟨rfl, rfl, rfl, rfl, rfl, rfl, fun _ _ _ _ => .inl⟩ rfl rfl
    · split <;>
        exact (snapshotExact_marked s operation.version).trans
          (.of_same ⟨rfl, rfl, rfl, rfl, rfl, rfl, fun _ _ _ _ => .inl⟩ rfl rfl)

/-! ## Cancellation -/

theorem cancelLocked_beside (s : World) (key : ArtifactKey) : Beside s (s.cancelLocked key) := by
  unfold cancelLocked
  split
  · exact ⟨rfl, rfl, rfl, rfl, rfl, rfl, fun _ _ _ _ => .inl⟩
  · constructor <;>
      dsimp only [setState, queueReclaim, modifyNode, clearSuccessors, setDesired, unpinVersions,
        removeWaiterEdges]
    exact fun _ _ _ _ => .inl

/-- A node given up, before its state is set. -/
def withdrawn (node : Node) : Node := { cancelled node with state := node.state }

/-- A cancellation marks a wanted address, and one in another state. -/
theorem cancelLocked_dirty {node : Node} (hfind : s.nodes.find? key = some node)
    (h : node.desired = true ∨ node.state ≠ .cancelled) :
    key ∈ (s.cancelLocked key).dirtyViews := by
  unfold cancelLocked
  rw [hfind]
  simp only
  rcases h with hdesired | hstate
  · -- the mark of the withdrawn desire stays
    refine mem_markDirty ?_
    change key ∈ markDirty _ _ _
    have hchanged : (((s.removeWaiterEdges key).modifyNode key fun node => { node with
        generation := node.generation + 1 }).nodes.find? key).any
          (fun node => node.desired != false) = true := by
      simp [removeWaiterEdges, modifyNode, hfind, hdesired]
    rw [hchanged]
    exact key_mem_markDirty _ _
  · have hset (u : World) (hnodes : u.nodes = s.nodes.modify key withdrawn) :
        key ∈ (u.setState key .cancelled).dirtyViews := by
      have hfound : u.nodes.find? key = some (withdrawn node) := by
        rw [hnodes, Table.find?_modify, if_pos rfl, hfind]
        rfl
      exact setState_dirty hfound hstate
    refine hset _ ?_
    simp only [modifyNode_nodes, clearSuccessors_nodes, queueReclaim_nodes, setDesired_nodes,
      removeWaiterEdges_nodes, Table.modify_modify]
    rfl

theorem cancelLocked_dirty_of_mem {k : ArtifactKey} (h : k ∈ s.dirtyViews) :
    k ∈ (s.cancelLocked key).dirtyViews := by
  unfold cancelLocked
  split
  · exact h
  · exact mem_markDirty (mem_markDirty h)

/-- An address nobody wants has nothing queued, so that giving it up once more changes nothing but
its state. -/
theorem cancelLocked_marked (hun : Unqueued s) (key : ArtifactKey) :
    Marked claims s (s.cancelLocked key) := by
  refine .modify (cancelLocked_beside s key) (cancelLocked_nodes s key)
    (fun _ => cancelLocked_dirty_of_mem) (fun _ => id) fun node hfind =>
      ⟨⟨?_, fun _ _ => rfl⟩, fun hnot => ?_⟩
  · intro generation revision hnames
    cases hnames with
    | desired hne => exact .desired hne
    | produced hne => exact .produced hne
    | successor hmem => cases hmem
  · have hstate : node.state = .cancelled := by
      by_contra hne
      exact hnot (cancelLocked_dirty hfind (.inr hne))
    have hdesired : node.desired = false :=
      eq_false_of_ne_true fun hd => hnot (cancelLocked_dirty hfind (.inl hd))
    have hqueue := hun key node hfind hdesired
    unfold shownNode cancelled
    rw [hstate, hqueue]

/-- The node goes, and its address is marked. -/
theorem eraseNode_marked (s : World) (key : ArtifactKey) : Marked claims s (s.eraseNode key) := by
  unfold eraseNode
  split
  · exact .refl s
  · have hfind (k : ArtifactKey) (node : Node) (h : (s.nodes.erase key).find? k = some node) :
        s.nodes.find? k = some node := by
      rw [Table.find?_erase] at h
      split at h
      · cases h
      · exact h
    exact
      { readModel := rfl
        dirty := fun _ => mem_markDirty
        owned := fun howned => howned.of_names (Nat.le_refl _) fun generation v hv => by
          left
          cases hv with
          | assigned h => exact .assigned h
          | reserved h => exact .reserved h
          | posted h hne => exact .posted h hne
          | node h hnames => exact .node (hfind _ _ h) hnames
          | archived h => exact .archived h
          | predicted h => exact .predicted h
          | target h => exact .target h
        aliases := id
        unqueued := fun hun k node h => hun k node (hfind k node h)
        keyed := fun hkeyed k node h => hkeyed k node (hfind k node h)
        filed := id
        shown := fun k hnot => by
          refine ⟨?_, fun _ _ => rfl, fun _ _ => rfl⟩
          rw [Table.find?_erase, if_neg]
          rintro rfl
          exact hnot (key_mem_markDirty _ _) }

/-! ## The archive -/

/-- The archive changes under one version, which is named in it already. -/
theorem archive_kept {v : VersionID} {snapshot : ArtifactSnapshot}
    (hnodes : s'.nodes = s.nodes) (hfind : s.versions.find? v = some snapshot)
    (hversions : ∀ v', v' ≠ v → s'.versions.find? v' = s.versions.find? v')
    (hfiled : ∀ snapshot', s'.versions.find? v = some snapshot' →
      snapshot'.version = snapshot.version)
    (haliases : s'.generationAliases = s.generationAliases)
    (hassigned : s'.versionGenerations = s.versionGenerations)
    (hreserved : s'.reservedGenerations = s.reservedGenerations)
    (hnext : s'.nextVersionGeneration = s.nextVersionGeneration)
    (hread : s'.readModel = s.readModel) (hposted : s'.postedIntents = s.postedIntents)
    (hdirty : ∀ k ∈ s.dirtyViews, k ∈ s'.dirtyViews) : Kept claims s s' where
  readModel := hread
  dirty := hdirty
  owned howned := howned.of_names hnext.ge fun generation w hw => by
    left
    cases hw with
    | assigned h => exact .assigned (hassigned ▸ h)
    | reserved h => exact .reserved (hreserved ▸ h)
    | posted h hne => exact .posted (hposted ▸ h) hne
    | node h hnames => exact .node (hnodes ▸ h) hnames
    | @archived v' _ h =>
      by_cases hv : v' = v
      · exact hv ▸ .archived hfind
      · exact .archived (hversions v' hv ▸ h)
    | predicted h => exact .predicted (haliases ▸ h)
    | target h => exact .target (haliases ▸ h)
  aliases hkeep p w hp := hkeep p w (haliases ▸ hp)
  unqueued hun key node h := hun key node (hnodes ▸ h)
  keyed hkeyed key node h := hkeyed key node (hnodes ▸ h)
  filed hkept v' snapshot' h := by
    by_cases hv : v' = v
    · subst hv
      exact (hfiled snapshot' h).trans (hkept v' snapshot hfind)
    · exact hkept v' snapshot' (hversions v' hv ▸ h)

theorem sameShown_archive {v : VersionID}
    (hversions : ∀ v', v' ≠ v → s'.versions.find? v' = s.versions.find? v')
    (hnodes : s'.nodes = s.nodes)
    (haliases : s'.generationAliases = s.generationAliases) {k : ArtifactKey}
    (hk : k ≠ v.address) : SameShown s s' k where
  node := by rw [hnodes]
  versions w hw := by
    rw [hversions w]
    rintro rfl
    exact hk hw.symm
  aliases _ _ := by rw [haliases]

/-- A version leaves the archive. -/
theorem reclaimVersion_marked {v : VersionID} {snapshot : ArtifactSnapshot}
    (hfind : s.versions.find? v = some snapshot) :
    Marked claims s (s.reclaimVersion v snapshot) := by
  have hversions (v' : VersionID) (hv : v' ≠ v) :
      (s.reclaimVersion v snapshot).versions.find? v' = s.versions.find? v' := by
    change (s.versions.erase v).find? v' = _
    rw [Table.find?_erase, if_neg hv]
  have hgone (snapshot' : ArtifactSnapshot)
      (h : (s.reclaimVersion v snapshot).versions.find? v = some snapshot') :
      snapshot'.version = snapshot.version := by
    change (s.versions.erase v).find? v = _ at h
    rw [Table.find?_erase, if_pos rfl] at h
    cases h
  refine ⟨archive_kept rfl hfind hversions hgone rfl rfl rfl rfl rfl rfl fun _ => mem_markDirty,
    fun k hnot => sameShown_archive hversions rfl rfl ?_⟩
  rintro rfl
  exact hnot (key_mem_markDirty _ _)

/-! ## Publication -/

/-- The cursor's part: what it stores is marked. -/
theorem publishCursor_marked (hkeyed : Keyed s) (v : VersionID) :
    Marked claims s (s.publishCursor v) := by
  unfold publishCursor
  split
  · exact .refl s
  split
  · exact .refl s
  split
  · exact .refl s
  split
  · exact .refl s
  have hpublished : Marked claims s (s.modifyNode v.address fun node => { node with
      published := true }) :=
    modifyNode_marked s _ fun _ => ⟨⟨rfl, rfl, rfl, rfl, rfl, rfl⟩, rfl, rfl⟩
  have hstored (u : World) (hu : Marked claims s u) :
      Marked claims s ((u.storeVersion v.address).wakeWaiters v.address) :=
    (hu.trans (storeVersion_marked (hu.keyed hkeyed) v.address)).trans
      (.of_same ⟨rfl, rfl, rfl, rfl, rfl, rfl, fun _ _ _ _ => .inl⟩ rfl rfl)
  simp only
  split
  · exact hstored _ (hpublished.trans (setState_marked _ _ _))
  · exact hstored _ hpublished

/-- At the version's own cursor the publication sets the state or stores, and so marks. -/
theorem publishCursor_dirty {v : VersionID} (h : s.storesCursor v = true) (hrevision : v.revision ≠ 0) :
    v.address ∈ (s.publishCursor v).dirtyViews := by
  obtain ⟨node, hfind, hnode⟩ := (Option.any_eq_true _ _).mp h
  simp only [Bool.and_eq_true, Bool.or_eq_true, Bool.not_eq_true', beq_iff_eq] at hnode
  obtain ⟨⟨⟨⟨hproduced, hgeneration⟩, hstate⟩, hfresh⟩, hmarks⟩ := hnode
  have hunpublished : ¬(node.published = true ∧ node.state = .published) := by
    rintro ⟨hpublished, hstate'⟩
    simp [hpublished, hstate'] at hfresh
  unfold publishCursor
  rw [hfind]
  simp only
  rw [if_neg (not_or.mpr ⟨not_not.mpr hproduced, not_not.mpr hgeneration⟩),
    if_neg (by rw [hstate]; exact nofun), if_neg hunpublished]
  have hpublished : (s.modifyNode v.address fun node => { node with published := true }).nodes.find?
      v.address = some { node with published := true } := by
    rw [modifyNode_nodes, Table.find?_modify, if_pos rfl, hfind]
    rfl
  split
  · rename_i hready
    have hset : v.address ∈ ((s.modifyNode v.address fun node => { node with
        published := true }).setState v.address .published).dirtyViews :=
      setState_dirty hpublished (by rw [hready]; exact nofun)
    exact mem_markDirty hset
  · rename_i hready
    have hvalid := hmarks.resolve_right hready
    have hstorable : (s.modifyNode v.address fun node => { node with published := true }).storable
        v.address = some { node with published := true } := by
      unfold storable
      rw [hpublished]
      simp [Option.filter, hproduced, hrevision, hvalid]
    change v.address ∈ markDirty _ _ (World.storable _ _).isSome
    rw [hstorable]
    exact key_mem_markDirty _ _

theorem markPublishedLocked_marked (hkeyed : Keyed s) (haliases : AliasesKeep s)
    {requested : VersionID} (h : MarksPublication s (.markPublished requested)) :
    Marked claims s (s.markPublishedLocked requested) := by
  unfold markPublishedLocked
  split
  · rename_i hnamed
    have hstores := h hnamed
    simp only
    have hrevision : (s.canonical requested).revision ≠ 0 := by
      have hne : requested.revision ≠ 0 := by
        simp only [VersionID.isNamed, Bool.and_eq_true, bne_iff_ne] at hnamed
        exact hnamed.1
      unfold canonical
      cases hfind : s.generationAliases.find? requested with
      | none => exact hne
      | some v => exact (haliases requested v hfind).2 ▸ hne
    generalize s.canonical requested = v at hstores hrevision ⊢
    unfold publishArchived
    split
    · exact publishCursor_marked hkeyed v
    rename_i archived harchived
    split
    · exact publishCursor_marked hkeyed v
    rename_i hpublishable
    split
    · have hqueued : Marked claims s (s.queueReclaim [v]) :=
        .of_same ⟨rfl, rfl, rfl, rfl, rfl, rfl, fun _ _ _ _ => .inl⟩ rfl rfl
      exact hqueued.trans (publishCursor_marked (hqueued.keyed hkeyed) v)
    rename_i hunpublished
    set u : World := { s.queueReclaim [v] with
      versions := s.versions.insert v { archived with readiness := .published }
      publishedSignals := s.publishedSignals ++ [v] } with hu
    have hversions (v' : VersionID) (hv : v' ≠ v) : u.versions.find? v' = s.versions.find? v' := by
      change (s.versions.insert v _).find? v' = _
      rw [Table.find?_insert, if_neg hv]
    have hreadied (snapshot : ArtifactSnapshot) (h : u.versions.find? v = some snapshot) :
        snapshot.version = archived.version := by
      change (s.versions.insert v _).find? v = _ at h
      rw [Table.find?_insert, if_pos rfl] at h
      cases h
      rfl
    have hkept : Kept claims s u :=
      archive_kept rfl harchived hversions hreadied rfl rfl rfl rfl rfl rfl fun _ => id
    have hcursor : Marked claims u (u.publishCursor v) := publishCursor_marked (hkept.keyed hkeyed) v
    refine .late v.address hkept (fun k hk => sameShown_archive hversions rfl rfl hk) hcursor ?_
    have hmoves : s.movesArchived v = true := by
      unfold movesArchived
      rw [harchived]
      simp [eq_true_of_ne_false hpublishable, hunpublished]
    rcases hstores hmoves with hmarked | hcursor'
    · exact hcursor.dirty _ hmarked
    · exact publishCursor_dirty hcursor' hrevision
  · exact .refl s

end ModuleServices.Graph.Proof
