import ModuleServices.Graph.Proof.ViewCalls

/-!
# A request marks what it changes

A posted request comes with a generation of its own, which `claims` has for it; the one
it is given is assigned to its revision, and stays so until it is installed. An accepted
request marks its address before it touches the node, so what follows is marked whatever
the state of the version it finds.
-/

namespace ModuleServices.Graph.Proof

open World

variable {claims : List (Nat × VersionKey)} {s s' : World} {a : RequestArgs}

/-- The request's own generation is claimed for its revision. -/
def Claimed (claims : List (Nat × VersionKey)) (a : RequestArgs) : Prop :=
  a.preassignedGeneration ≠ 0 → (a.preassignedGeneration, a.version) ∈ claims

/-- The revision has been assigned the generation. -/
def Assigned (s : World) (a : RequestArgs) (generation : Nat) : Prop :=
  s.versionGenerations.find? a.version = some generation

/-- The address is desired. -/
def Desired (s : World) (key : ArtifactKey) : Prop :=
  ∀ node, s.nodes.find? key = some node → node.desired = true

/-! ## Generations -/

/-- Nodes, archive, aliases and views are as they were. -/
theorem Marked.of_owned (hnodes : s'.nodes = s.nodes) (hversions : s'.versions = s.versions)
    (haliases : s'.generationAliases = s.generationAliases) (hread : s'.readModel = s.readModel)
    (hdirty : s'.dirtyViews = s.dirtyViews) (howned : Owned claims s → Owned claims s') :
    Marked claims s s' where
  readModel := hread
  dirty _ hmem := hdirty ▸ hmem
  owned := howned
  aliases hkeep p v hfind := hkeep p v (haliases ▸ hfind)
  unqueued hun key node hfind := hun key node (hnodes ▸ hfind)
  keyed hkeyed key node hfind := hkeyed key node (hnodes ▸ hfind)
  filed hfiled v snapshot hfind := hfiled v snapshot (hversions ▸ hfind)
  shown _ _ := ⟨by rw [hnodes], fun _ _ => by rw [hversions], fun _ _ => by rw [haliases]⟩

/-- The reservation is named for its revision. -/
theorem reserveGeneration_owned (v : VersionKey) (h : Owned claims s) :
    Owned claims (s.reserveGeneration v).1
      ∧ (s.reserveGeneration v).1.reservedGenerations.find? v = some (s.reserveGeneration v).2 := by
  unfold reserveGeneration
  split
  · exact ⟨h, ‹_›⟩
  · refine ⟨h.of_minted v rfl fun generation w hw => ?_, ?_⟩
    · cases hw with
      | assigned h => exact .inl (.assigned h)
      | @reserved w _ h =>
        rw [Table.find?_insert] at h
        split at h
        · cases h
          exact .inr ⟨rfl, ‹_›⟩
        · exact .inl (.reserved h)
      | posted h hne => exact .inl (.posted h hne)
      | node h hnames => exact .inl (.node h hnames)
      | archived h => exact .inl (.archived h)
      | predicted h => exact .inl (.predicted h)
      | target h => exact .inl (.target h)
    · rw [Table.find?_insert, if_pos rfl]

/-- A revision is assigned a generation that is its own. -/
theorem assign_owned {v : VersionKey} {generation : Nat} (h : Owned claims s)
    (hgeneration : Names s generation v ∨ (generation, v) ∈ claims) :
    Owned claims { s with versionGenerations := s.versionGenerations.insert v generation } := by
  refine h.of_names (Nat.le_refl _) fun generation' w hw => ?_
  cases hw with
  | @assigned w _ h =>
    rw [Table.find?_insert] at h
    split at h
    · rename_i heq
      cases h
      exact heq ▸ hgeneration
    · exact .inl (.assigned h)
  | reserved h => exact .inl (.reserved h)
  | posted h hne => exact .inl (.posted h hne)
  | node h hnames => exact .inl (.node h hnames)
  | archived h => exact .inl (.archived h)
  | predicted h => exact .inl (.predicted h)
  | target h => exact .inl (.target h)

theorem reserveGeneration_same (v : VersionKey) :
    (s.reserveGeneration v).1.nodes = s.nodes ∧ (s.reserveGeneration v).1.versions = s.versions
      ∧ (s.reserveGeneration v).1.generationAliases = s.generationAliases
      ∧ (s.reserveGeneration v).1.readModel = s.readModel
      ∧ (s.reserveGeneration v).1.dirtyViews = s.dirtyViews := by
  unfold reserveGeneration
  split <;> exact ⟨rfl, rfl, rfl, rfl, rfl⟩

theorem ensureGeneration_marked (hclaimed : Claimed claims a) :
    Marked claims s (s.ensureGeneration a).1 := by
  unfold ensureGeneration
  split
  · exact .refl s
  · simp only
    split
    · rename_i hpre
      exact .of_owned rfl rfl rfl rfl rfl fun howned => assign_owned howned (.inr (hclaimed hpre))
    · obtain ⟨hnodes, hversions, haliases, hread, hdirty⟩ := reserveGeneration_same (s := s) a.version
      refine .of_owned hnodes hversions haliases hread hdirty fun howned => ?_
      obtain ⟨hreserved, hfind⟩ := reserveGeneration_owned a.version howned
      exact assign_owned hreserved (.inl (.reserved hfind))

theorem ensureGeneration_assigned (s : World) (a : RequestArgs) :
    Assigned (s.ensureGeneration a).1 a (s.ensureGeneration a).2 := by
  unfold ensureGeneration Assigned
  split
  · exact ‹_›
  · simp only
    split <;> rw [Table.find?_insert, if_pos rfl]

/-- A revision whose archived version is gone is given a generation never minted before. -/
theorem renewGeneration_marked (generation : Nat) :
    Marked claims s (s.renewGeneration a generation).1 := by
  unfold renewGeneration
  split
  · exact .refl s
  · refine .of_owned rfl rfl rfl rfl rfl fun howned => howned.of_minted a.version rfl
      fun generation' w hw => ?_
    cases hw with
    | @assigned w _ h =>
      rw [Table.find?_insert] at h
      split at h
      · cases h
        exact .inr ⟨rfl, ‹_›⟩
      · exact .inl (.assigned h)
    | @reserved w _ h =>
      rw [Table.find?_insert] at h
      split at h
      · cases h
        exact .inr ⟨rfl, ‹_›⟩
      · exact .inl (.reserved h)
    | posted h hne => exact .inl (.posted h hne)
    | node h hnames => exact .inl (.node h hnames)
    | archived h => exact .inl (.archived h)
    | predicted h => exact .inl (.predicted h)
    | target h => exact .inl (.target h)

theorem renewGeneration_assigned {generation : Nat} (h : Assigned s a generation) :
    Assigned (s.renewGeneration a generation).1 a (s.renewGeneration a generation).2
      ∧ (s.renewGeneration a generation).1.nodes = s.nodes := by
  unfold renewGeneration
  split
  · exact ⟨h, rfl⟩
  · refine ⟨?_, rfl⟩
    unfold Assigned
    rw [Table.find?_insert, if_pos rfl]

/-! ## The node -/

theorem setDesired_dirty {key : ArtifactKey} {node : Node} (hfind : s.nodes.find? key = some node)
    (hdesired : node.desired = false) : key ∈ (s.setDesired key true).dirtyViews := by
  unfold setDesired
  rw [hfind]
  simp only [Option.any_some, hdesired]
  exact key_mem_markDirty _ _

/-- A node is there, with its key written. -/
def emplaced (s : World) (key : ArtifactKey) : World :=
  match s.nodes.find? key with
  | some _ => s.modifyNode key fun node => { node with key }
  | none =>
    { s with
      nodes := s.nodes.insert key { key, superseded := s.nextFlag }
      nextFlag := s.nextFlag + 1
      nodeStateCounts := fun i =>
        if i = .missing then s.nodeStateCounts i + 1 else s.nodeStateCounts i }

theorem ensureNode_eq (s : World) (key : ArtifactKey) :
    s.ensureNode key = (emplaced s key).setDesired key true := rfl

/-- A fresh node shows nothing, but it is marked all the same, for it becomes wanted. -/
theorem ensureNode_marked (hkeyed : Keyed s) (key : ArtifactKey) :
    Marked claims s (s.ensureNode key) := by
  rw [ensureNode_eq]
  have hset : Marked claims (emplaced s key) ((emplaced s key).setDesired key true) :=
    setDesired_marked _ key
  unfold emplaced at hset ⊢
  split at hset
  · rename_i node hfind
    refine .trans ?_ hset
    refine .modify ⟨rfl, rfl, rfl, rfl, rfl, rfl, fun _ _ _ _ => .inl⟩ (modifyNode_nodes s key _)
      (fun _ => id) (fun _ _ => rfl) fun node hfind =>
        ⟨Unseen.kept ⟨(hkeyed key node hfind).symm, rfl, rfl, rfl, rfl, rfl⟩, fun _ => rfl⟩
  · rename_i hnone
    refine .late key ?_ ?_ hset ?_
    · have hfind (k : ArtifactKey) (node : Node) (h : (s.nodes.insert key
          { key, superseded := s.nextFlag }).find? k = some node) :
          s.nodes.find? k = some node ∨ k = key ∧ node = { key, superseded := s.nextFlag } := by
        rw [Table.find?_insert] at h
        split at h
        · cases h
          exact .inr ⟨‹_›, rfl⟩
        · exact .inl h
      exact
        { readModel := rfl
          dirty := fun _ => id
          owned := fun howned => howned.of_names (Nat.le_refl _) fun generation v hv => by
            left
            cases hv with
            | assigned h => exact .assigned h
            | reserved h => exact .reserved h
            | posted h hne => exact .posted h hne
            | node h hnames =>
              rcases hfind _ _ h with hold | ⟨rfl, rfl⟩
              · exact .node hold hnames
              · cases hnames with
                | desired hne => exact absurd rfl hne
                | produced hne => exact absurd rfl hne
                | successor hmem => cases hmem
            | archived h => exact .archived h
            | predicted h => exact .predicted h
            | target h => exact .target h
          aliases := id
          unqueued := fun hun k node h => by
            rcases hfind k node h with hold | ⟨rfl, rfl⟩
            · exact hun k node hold
            · exact fun _ => rfl
          keyed := fun hkeyed k node h => by
            rcases hfind k node h with hold | ⟨rfl, rfl⟩
            · exact hkeyed k node hold
            · rfl
          filed := id }
    · refine fun k hk => ⟨?_, fun _ _ => rfl, fun _ _ => rfl⟩
      rw [Table.find?_insert, if_neg hk]
    · have hfresh : (s.nodes.insert key { key, superseded := s.nextFlag }).find? key
          = some { key, superseded := s.nextFlag } := by
        rw [Table.find?_insert, if_pos rfl]
      exact setDesired_dirty hfresh rfl

theorem ensureNode_desired (s : World) (key : ArtifactKey) : Desired (s.ensureNode key) key := by
  intro node hfind
  rw [ensureNode_eq, setDesired_nodes, Table.find?_modify, if_pos rfl] at hfind
  obtain ⟨_, _, rfl⟩ := Option.map_eq_some_iff.mp hfind
  rfl

/-! ## Aliases and refusals -/

/-- What resolving an alias moves besides. -/
theorem migrateAliasedVersion_marked (s : World) (predicted version : VersionID) :
    Marked claims s (s.migrateAliasedVersion predicted version) := by
  unfold migrateAliasedVersion
  split
  · exact .refl s
  · simp only
    split <;> split <;> exact .of_same ⟨rfl, rfl, rfl, rfl, rfl, rfl, fun _ _ _ _ => .inl⟩ rfl rfl

theorem aliasPredicted_marked {generation : Nat} (hclaimed : Claimed claims a)
    (hassigned : Assigned s a generation) :
    Marked claims s (s.aliasPredicted a.version a.preassignedGeneration generation) := by
  unfold aliasPredicted
  split
  · exact .refl s
  rename_i hguard
  have hpre := (not_or.mp hguard).1
  simp only
  refine .trans ?_ (migrateAliasedVersion_marked _ _ _)
  have haliased (p v : VersionID) (h : (s.generationAliases.insert
      ⟨a.version.address, a.version.revision, a.preassignedGeneration⟩
      ⟨a.version.address, a.version.revision, generation⟩).find? p = some v) :
      s.generationAliases.find? p = some v
        ∨ p = ⟨a.version.address, a.version.revision, a.preassignedGeneration⟩
          ∧ v = ⟨a.version.address, a.version.revision, generation⟩ := by
    rw [Table.find?_insert] at h
    split at h
    · cases h
      exact .inr ⟨‹_›, rfl⟩
    · exact .inl h
  exact
    { readModel := rfl
      dirty := fun _ => mem_markDirty
      owned := fun howned => howned.of_names (Nat.le_refl _) fun generation' w hw => by
        cases hw with
        | assigned h => exact .inl (.assigned h)
        | reserved h => exact .inl (.reserved h)
        | posted h hne => exact .inl (.posted h hne)
        | node h hnames => exact .inl (.node h hnames)
        | archived h => exact .inl (.archived h)
        | predicted h =>
          rcases haliased _ _ h with hold | ⟨rfl, rfl⟩
          · exact .inl (.predicted hold)
          · exact .inr (hclaimed hpre)
        | target h =>
          rcases haliased _ _ h with hold | ⟨rfl, rfl⟩
          · exact .inl (.target hold)
          · exact .inl (.assigned hassigned)
      aliases := fun hkeep p v h => by
        rcases haliased p v h with hold | ⟨rfl, rfl⟩
        · exact hkeep p v hold
        · exact ⟨rfl, rfl⟩
      unqueued := id
      keyed := id
      filed := id
      shown := fun k hnot => by
        refine ⟨rfl, fun _ _ => rfl, fun v hv => ?_⟩
        change (s.generationAliases.insert _ _).find? v = _
        rw [Table.find?_insert, if_neg]
        rintro rfl
        subst hv
        exact hnot (key_mem_markDirty _ _) }

theorem leased_marked {generation : Nat} (hclaimed : Claimed claims a)
    (hassigned : Assigned s a generation) : Marked claims s (leased s a generation).1 :=
  (aliasPredicted_marked hclaimed hassigned).trans
    (.of_same ⟨rfl, rfl, rfl, rfl, rfl, rfl, fun _ _ _ _ => .inl⟩ rfl rfl)

/-- A refusal is archived under the request's own generation. -/
theorem storeRefusedVersion_marked {v : VersionID} (status : ArtifactRequestStatus)
    (lease : Option Nat) (hclaimed : (v.generation, ⟨v.address, v.revision⟩) ∈ claims) :
    Marked claims s (s.storeRefusedVersion v status lease) := by
  have hversions (v' : VersionID) : (s.storeRefusedVersion v status lease).versions.find? v'
      = if v' = v then some { key := v.address, revision := v.revision
                              generation := v.generation, readiness := .failed }
        else s.versions.find? v' := Table.find?_insert _ _ _ _
  exact
    { readModel := rfl
      dirty := fun _ => mem_markDirty
      owned := fun howned => howned.of_names (Nat.le_refl _) fun generation w hw => by
        cases hw with
        | assigned h => exact .inl (.assigned h)
        | reserved h => exact .inl (.reserved h)
        | posted h hne => exact .inl (.posted h hne)
        | node h hnames => exact .inl (.node h hnames)
        | archived h =>
          rw [hversions] at h
          split at h
          · rename_i heq
            exact .inr (heq ▸ hclaimed)
          · exact .inl (.archived h)
        | predicted h => exact .inl (.predicted h)
        | target h => exact .inl (.target h)
      aliases := id
      unqueued := id
      keyed := id
      filed := fun hfiled w snapshot h => by
        rw [hversions] at h
        split at h
        · rename_i heq
          cases h
          exact heq.symm
        · exact hfiled w snapshot h
      shown := fun k hnot => by
        refine ⟨rfl, fun v' hv => ?_, fun _ _ => rfl⟩
        rw [hversions, if_neg]
        rintro rfl
        exact hnot (hv ▸ key_mem_markDirty _ _) }

theorem rejectPredicted_marked {status : ArtifactRequestStatus} {generation : Nat}
    {lease : Option Nat} {createdHere : Bool} (hclaimed : Claimed claims a) :
    Marked claims s
      (s.rejectPredicted a.version status a.preassignedGeneration generation lease createdHere) := by
  unfold rejectPredicted
  split
  · exact .refl s
  rename_i hguard
  have hpre := (not_or.mp hguard).1
  simp only
  have hstored : Marked claims s (s.storeRefusedVersion
      ⟨a.version.address, a.version.revision, a.preassignedGeneration⟩ status lease) :=
    storeRefusedVersion_marked status lease (hclaimed hpre)
  refine hstored.trans ?_
  split
  · -- what is forgotten names nothing any more
    refine .of_owned rfl rfl rfl rfl rfl fun howned => howned.of_names (Nat.le_refl _)
      fun generation' w hw => ?_
    left
    cases hw with
    | assigned h =>
      simp only [Table.find?_erase] at h
      split at h
      · cases h
      · exact .assigned h
    | reserved h =>
      simp only [Table.find?_erase] at h
      split at h
      · cases h
      · exact .reserved h
    | posted h hne => exact .posted h hne
    | node h hnames => exact .node h hnames
    | archived h => exact .archived h
    | predicted h => exact .predicted h
    | target h => exact .target h
  · exact .of_same ⟨rfl, rfl, rfl, rfl, rfl, rfl, fun _ _ _ _ => .inl⟩ rfl rfl

/-! ## An accepted request -/

theorem signed_marked (s : World) (a : RequestArgs) : Marked claims s (signed s a) :=
  .modify ⟨rfl, rfl, rfl, rfl, rfl, rfl, fun _ _ _ _ => .inl⟩ rfl (fun _ => mem_markDirty)
    (fun _ => id) fun _ _ => ⟨Unseen.kept ⟨rfl, rfl, rfl, rfl, rfl, rfl⟩, fun _ => rfl⟩

theorem signed_dirty (s : World) (a : RequestArgs) : a.key ∈ (signed s a).dirtyViews :=
  key_mem_markDirty _ _

/-- A node at a marked address takes on a version of its own. -/
theorem Marked.modify_named {key : ArtifactKey} {f : Node → Node} (h : Beside s s')
    (hnodes : s'.nodes = s.nodes.modify key f) (hdirty : ∀ k ∈ s.dirtyViews, k ∈ s'.dirtyViews)
    (hkey : ∀ node, node.key = key → (f node).key = key)
    (hunqueued : ∀ node, s.nodes.find? key = some node →
      (node.desired = false → node.successors = []) → (f node).desired = false →
        (f node).successors = [])
    (hnames : ∀ node, s.nodes.find? key = some node → ∀ generation revision,
      NodeNames (f node) generation revision → Names s generation ⟨key, revision⟩)
    (hmarked : key ∈ s'.dirtyViews) : Marked claims s s' :=
  ⟨.modify_named h hnodes hdirty hkey hunqueued hnames, fun _ hnot =>
    sameShown_modify h hnodes fun heq => absurd (heq ▸ hmarked) hnot⟩

theorem coalesceFrom_same (key : ArtifactKey) (s : World) (successors : List RequestedVersion) :
    Beside s (coalesceFrom key s successors).1
      ∧ (coalesceFrom key s successors).1.nodes = s.nodes
      ∧ (coalesceFrom key s successors).1.dirtyViews = s.dirtyViews
      ∧ ∀ successor ∈ (coalesceFrom key s successors).2, successor ∈ successors := by
  induction successors generalizing s with
  | nil => exact ⟨⟨rfl, rfl, rfl, rfl, rfl, rfl, fun _ _ _ _ => .inl⟩, rfl, rfl, nofun⟩
  | cons successor successors ih =>
    unfold coalesceFrom
    split
    · obtain ⟨⟨hversions, haliases, hassigned, hreserved, hnext, hread, hposted⟩, hnodes, hdirty,
        hmem⟩ := ih (s.unpinSuccessor key successor)
      exact ⟨⟨hversions, haliases, hassigned, hreserved, hnext, hread, hposted⟩, hnodes, hdirty,
        fun successor' h => List.mem_cons_of_mem _ (hmem successor' h)⟩
    · exact ⟨⟨rfl, rfl, rfl, rfl, rfl, rfl, fun _ _ _ _ => .inl⟩, rfl, rfl,
        fun successor' h => List.mem_reverse.mp h⟩

/-- The active version's flag is raised where the address takes newer intents. -/
def flagged (s : World) (key : ArtifactKey) (node : Node) : World :=
  if s.acceptsIntent key node then
    { s with supersededFlags :=
        if node.superseded ∈ s.supersededFlags then s.supersededFlags
        else s.supersededFlags ++ [node.superseded] }
  else s

theorem supersede_eq (s : World) (key : ArtifactKey) (node : Node) :
    s.supersede key node
      = (coalesceFrom key (flagged s key node) node.successors.reverse).1.modifyNode key fun node' =>
        { node' with
          successors := (coalesceFrom key (flagged s key node) node.successors.reverse).2 } := rfl

theorem flagged_marked (s : World) (key : ArtifactKey) (node : Node) :
    Marked claims s (flagged s key node) := by
  unfold flagged
  split
  · exact .of_same ⟨rfl, rfl, rfl, rfl, rfl, rfl, fun _ _ _ _ => .inl⟩ rfl rfl
  · exact .refl s

theorem flagged_nodes (s : World) (key : ArtifactKey) (node : Node) :
    (flagged s key node).nodes = s.nodes := by
  unfold flagged
  split <;> rfl

/-- Dropping queued versions names nothing new. -/
theorem supersede_marked (hmarked : a.key ∈ s.dirtyViews) :
    Marked claims s (s.supersede a.key (nodeAt s a.key)) := by
  have hflags : Marked claims s (flagged s a.key (nodeAt s a.key)) := flagged_marked s _ _
  have hflagged := flagged_nodes s a.key (nodeAt s a.key)
  rw [supersede_eq]
  refine hflags.trans ?_
  generalize flagged s a.key (nodeAt s a.key) = u at hflags hflagged ⊢
  obtain ⟨⟨hversions, haliases, hassigned, hreserved, hnext, hread, hposted⟩, hnodes, hdirty, hmem⟩ :=
    coalesceFrom_same a.key u (nodeAt s a.key).successors.reverse
  generalize coalesceFrom a.key u (nodeAt s a.key).successors.reverse = dropped at *
  have hsubset (node : Node) (hfind : u.nodes.find? a.key = some node) (successor : RequestedVersion)
      (h : successor ∈ dropped.2) : successor ∈ node.successors := by
    rw [hflagged] at hfind
    rw [← nodeAt_of_find hfind]
    exact List.mem_reverse.mp (hmem successor h)
  have hbeside : Beside u (dropped.1.modifyNode a.key fun node => { node with
      successors := dropped.2 }) :=
    ⟨hversions, haliases, hassigned, hreserved, hnext, hread, hposted⟩
  have hmodified : (dropped.1.modifyNode a.key fun node => { node with
      successors := dropped.2 }).nodes = u.nodes.modify a.key fun node => { node with
        successors := dropped.2 } := by
    rw [modifyNode_nodes, hnodes]
  refine .modify_named hbeside hmodified (fun k hk => hdirty ▸ hk)
    (fun _ => id) (fun node hfind hun hdesired => ?_)
    (fun node hfind generation revision hnames => .node hfind ?_) (hdirty ▸ hflags.dirty _ hmarked)
  · refine List.eq_nil_iff_forall_not_mem.mpr fun successor h => ?_
    have hold := hsubset node hfind successor h
    rw [hun hdesired] at hold
    cases hold
  · cases hnames with
    | desired hne => exact .desired hne
    | produced hne => exact .produced hne
    | successor h => exact .successor (hsubset node hfind _ h)

theorem superseding_marked (hmarked : a.key ∈ s.dirtyViews) :
    Marked claims s (superseding s a (nodeAt s a.key)) := by
  unfold superseding
  split
  · exact supersede_marked hmarked
  · exact .refl s

/-- The requested version is queued under the generation it has been assigned. -/
theorem appending_marked {generation : Nat} (hassigned : Assigned s a generation)
    (hdesired : Desired s a.key) (hmarked : a.key ∈ s.dirtyViews) (lease : Nat) :
    Marked claims s (appending s a generation lease) := by
  have hbeside : Beside s (appending s a generation lease) :=
    ⟨rfl, rfl, rfl, rfl, rfl, rfl, fun _ _ _ _ => .inl⟩
  refine .modify_named hbeside rfl (fun _ => id) (fun _ => id)
    (fun node hfind _ hundesired => absurd (hdesired node hfind) (ne_true_of_eq_false hundesired))
    (fun node hfind generation' revision hnames => ?_) hmarked
  cases hnames with
  | desired hne => exact .node hfind (.desired hne)
  | produced hne => exact .node hfind (.produced hne)
  | successor h =>
    rcases List.mem_append.mp h with hold | hnew
    · exact .node hfind (.successor hold)
    · rw [List.mem_singleton.mp hnew]
      exact .assigned hassigned

theorem promoteSuccessor_marked {key : ArtifactKey} (hkeyed : Keyed s)
    (hmarked : key ∈ s.dirtyViews) : Marked claims s (s.promoteSuccessor key) := by
  unfold promoteSuccessor
  split
  · exact .refl s
  split
  · exact .refl s
  split
  · exact .refl s
  · have hinstalled : Marked claims s (s.installSuccessor key _ _ _) :=
      installSuccessor_marked hkeyed ‹_› ‹_› (.inl hmarked)
    exact hinstalled.trans ((startVersion_moves _ key).marked_begun (hinstalled.keyed hkeyed))

/-- Superseding keeps what an install goes by. -/
theorem superseding_kept (s : World) (a : RequestArgs) (node : Node) :
    (superseding s a node).versionGenerations = s.versionGenerations
      ∧ (superseding s a node).dirtyViews = s.dirtyViews
      ∧ (Desired s a.key → Desired (superseding s a node) a.key) := by
  unfold superseding
  split
  · rw [supersede_eq]
    have hflagged := flagged_nodes s a.key node
    have hsame : (flagged s a.key node).versionGenerations = s.versionGenerations
        ∧ (flagged s a.key node).dirtyViews = s.dirtyViews := by
      unfold flagged
      split <;> exact ⟨rfl, rfl⟩
    obtain ⟨hbeside, hnodes, hdirty, _⟩ :=
      coalesceFrom_same a.key (flagged s a.key node) node.successors.reverse
    refine ⟨hbeside.assigned.trans hsame.1, hdirty.trans hsame.2, fun hdesired node' hfind => ?_⟩
    rw [modifyNode_nodes, Table.find?_modify, if_pos rfl, hnodes, hflagged] at hfind
    obtain ⟨node₀, hfind₀, rfl⟩ := Option.map_eq_some_iff.mp hfind
    exact hdesired node₀ hfind₀
  · exact ⟨rfl, rfl, id⟩

theorem queueSuccessor_marked {generation : Nat} (hkeyed : Keyed s)
    (hassigned : Assigned s a generation) (hdesired : Desired s a.key)
    (hmarked : a.key ∈ s.dirtyViews) (lease : Nat) :
    Marked claims s (s.queueSuccessor a (nodeAt s a.key) generation lease) := by
  have hsuperseding : Marked claims s (superseding s a (nodeAt s a.key)) := superseding_marked hmarked
  obtain ⟨hsame, _, hkept⟩ := superseding_kept s a (nodeAt s a.key)
  have hassigned' : Assigned (superseding s a (nodeAt s a.key)) a generation := by
    unfold Assigned
    rw [hsame]
    exact hassigned
  have happending : Marked claims s (appending (superseding s a (nodeAt s a.key)) a generation lease) :=
    hsuperseding.trans
      (appending_marked hassigned' (hkept hdesired) (hsuperseding.dirty _ hmarked) lease)
  rw [queueSuccessor_eq]
  simp only
  split
  · exact happending.trans
      (promoteSuccessor_marked (happending.keyed hkeyed) (happending.dirty _ hmarked))
  · exact happending

/-- The address is taken over by the version, under the generation it has been assigned. -/
theorem replaceVersion_marked {generation : Nat} (hkeyed : Keyed s)
    (hassigned : Assigned s a generation) (hmarked : a.key ∈ s.dirtyViews) (node : Node)
    (lease : Nat) : Marked claims s (s.replaceVersion a node generation lease) := by
  have hstored : Marked claims s (s.storeVersion a.key) := storeVersion_marked hkeyed a.key
  have hbeside : Beside (s.storeVersion a.key) (replacing s a node generation lease) :=
    ⟨rfl, rfl, rfl, rfl, rfl, rfl, fun _ _ _ _ => .inl⟩
  have hreplacing : Marked claims (s.storeVersion a.key) (replacing s a node generation lease) := by
    have hnodes : (replacing s a node generation lease).nodes = (s.storeVersion a.key).nodes.modify
        a.key (replacedNode a generation lease s.nextFlag) := by
      rw [storeVersion_nodes]
      exact replacing_nodes s a node generation lease
    refine .modify_named hbeside hnodes (fun _ => mem_markDirty) (fun _ => id) (fun _ _ => id)
      (fun node' hfind generation' revision hnames => ?_) ?_
    · cases hnames with
      | desired => exact .assigned hassigned
      | produced hne => exact absurd rfl hne
      | successor h => exact .node hfind (.successor h)
    · exact mem_markDirty (hstored.dirty _ hmarked)
  have hreplaced := hstored.trans hreplacing
  rw [replaceVersion_eq]
  exact hreplaced.trans ((startVersion_moves _ a.key).marked_begun (hreplaced.keyed hkeyed))

theorem installing_marked {generation : Nat} (hkeyed : Keyed s)
    (hassigned : Assigned s a generation) (hdesired : Desired s a.key)
    (hmarked : a.key ∈ s.dirtyViews) (lease : Nat) :
    Marked claims s (installing s a generation lease) := by
  unfold installing
  split
  · exact queueSuccessor_marked hkeyed hassigned hdesired hmarked lease
  · exact replaceVersion_marked hkeyed hassigned hmarked _ lease

/-! ## The request as a whole -/

theorem entered_marked (hkeyed : Keyed s) (hclaimed : Claimed claims a) :
    Marked claims s (entered s a) := by
  have hgeneration : Marked claims s (s.ensureGeneration a).1 := ensureGeneration_marked hclaimed
  exact hgeneration.trans (ensureNode_marked (hgeneration.keyed hkeyed) a.key)

theorem entered_assigned (s : World) (a : RequestArgs) :
    Assigned (entered s a) a (s.ensureGeneration a).2 := by
  have hassigned := ensureGeneration_assigned s a
  have hsame : (entered s a).versionGenerations = (s.ensureGeneration a).1.versionGenerations := by
    unfold entered ensureNode
    split <;> rfl
  unfold Assigned
  rw [hsame]
  exact hassigned

/-- What leasing a version leaves alone. -/
theorem leased_same (s : World) (a : RequestArgs) (generation : Nat) :
    (leased s a generation).1.nodes = s.nodes
      ∧ (leased s a generation).1.versionGenerations = s.versionGenerations := by
  have halias : (s.aliasPredicted a.version a.preassignedGeneration generation).nodes = s.nodes
      ∧ (s.aliasPredicted a.version a.preassignedGeneration generation).versionGenerations
        = s.versionGenerations := by
    unfold aliasPredicted
    split
    · exact ⟨rfl, rfl⟩
    · unfold migrateAliasedVersion
      simp only
      split
      · exact ⟨rfl, rfl⟩
      · split <;> split <;> exact ⟨rfl, rfl⟩
  exact halias

theorem signed_desired (hdesired : Desired s a.key) : Desired (signed s a) a.key := by
  intro node hfind
  change (s.nodes.modify a.key _).find? a.key = some node at hfind
  rw [Table.find?_modify, if_pos rfl] at hfind
  obtain ⟨node₀, hfind₀, rfl⟩ := Option.map_eq_some_iff.mp hfind
  exact hdesired node₀ hfind₀

theorem prepare_claimed (s : World) (h : Claimed claims a) : Claimed claims (a.prepare s) := h

theorem Requested.marked (hkeyed : Keyed s) (hclaimed : Claimed claims a) (h : Requested s a s') :
    Marked claims s s' := by
  have hclaimed' := prepare_claimed s hclaimed
  have hentered : Marked claims s (entered s (a.prepare s)) := entered_marked hkeyed hclaimed'
  have hassigned := entered_assigned s (a.prepare s)
  have hdesired : Desired (entered s (a.prepare s)) (a.prepare s).key := ensureNode_desired _ a.key
  cases h with
  | refused => exact .refl s
  | rejected hb hu =>
    subst hb hu
    exact hentered.trans (rejectPredicted_marked hclaimed')
  | already hb hu _ hgeneration =>
    subst hb hu hgeneration
    exact hentered.trans (leased_marked hclaimed' hassigned)
  | @accepted u v b generation hb hu _ hv =>
    subst hb hu
    generalize a.prepare s = b at *
    obtain ⟨hmarked, hassigned', hdesired'⟩ : Marked claims s v
        ∧ Assigned v b generation ∧ Desired v b.key := by
      rcases hv with ⟨rfl, rfl, _⟩ | ⟨hrenew, _⟩
      · exact ⟨hentered, hassigned, hdesired⟩
      · obtain ⟨hrenewed, hnodes⟩ := renewGeneration_assigned hassigned
        have hmarked : Marked claims s ((entered s b).renewGeneration b
            (s.ensureGeneration b).2).1 := hentered.trans (renewGeneration_marked _)
        rw [← hrenew] at hrenewed hnodes hmarked
        exact ⟨hmarked, hrenewed, fun node hfind => hdesired node (hnodes ▸ hfind)⟩
    obtain ⟨hnodes, hgenerations⟩ := leased_same v b generation
    have hsigned : Marked claims s (signed (leased v b generation).1 b) :=
      (hmarked.trans (leased_marked hclaimed' hassigned')).trans (signed_marked _ _)
    have hassigned'' : Assigned (signed (leased v b generation).1 b) b generation := by
      change (leased v b generation).1.versionGenerations.find? b.version = _
      rw [hgenerations]
      exact hassigned'
    have hdesired'' : Desired (signed (leased v b generation).1 b) b.key :=
      signed_desired fun node hfind => hdesired' node (hnodes ▸ hfind)
    exact hsigned.trans (installing_marked (hsigned.keyed hkeyed) hassigned'' hdesired''
      (signed_dirty _ _) _)

/-- **A request marks what it changes.** -/
theorem requestInternal_marked (hkeyed : Keyed s) (hclaimed : Claimed claims a) :
    Marked claims s (s.requestInternal a) := by
  obtain ⟨u, event, hrequested, heq⟩ := requestInternal_requested s a
  have hlogged : Marked claims u (u.log event) :=
    .of_same ⟨rfl, rfl, rfl, rfl, rfl, rfl, fun _ _ _ _ => .inl⟩ rfl rfl
  rw [heq]
  exact (hrequested.marked hkeyed hclaimed).trans hlogged

end ModuleServices.Graph.Proof
