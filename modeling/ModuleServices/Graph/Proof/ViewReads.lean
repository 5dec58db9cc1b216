import ModuleServices.Graph.Proof.Views

/-!
# A fresh view answers as the graph does

`reading` is what the graph answers about a version it has canonicalized, in terms of
what the address shows, so that two states which show the same answer the same. A view
built from the graph gives that answer for every version: it looks an alias up by its
generation alone, and a generation is of one revision only (`Owned`).
-/

namespace ModuleServices.Graph.Proof

open World

variable {s s' : World} {key : ArtifactKey} {version : VersionID}

/-! ## What the graph answers -/

/-- Nothing is known of a version. -/
def unread : ArtifactReadiness × ArtifactPayload := (.missing, {})

/-- The answer about a version by its own name. -/
def reading (s : World) (version : VersionID) : ArtifactReadiness × ArtifactPayload :=
  match (s.versions.find? version).map shownVersion with
  | some archived => archived
  | none =>
    match (s.nodes.find? version.address).map shownNode with
    | none => unread
    | some node =>
      if (node.producedRevision = version.revision ∨ node.desiredRevision = version.revision)
          ∧ node.versionGeneration = version.generation then (node.state, node.payload)
      else if (version.revision, version.generation) ∈ node.successors then (.blocked, {})
      else unread

/-- The successor search finds what the address shows. -/
theorem find_successor (successors : List RequestedVersion) (revision generation : Nat) :
    (successors.find? fun successor => successor.revision == revision
        && successor.generation == generation).isSome = true
      ↔ (revision, generation) ∈ successors.map fun successor =>
          (successor.revision, successor.generation) := by
  rw [List.find?_isSome, List.mem_map]
  simp only [Bool.and_eq_true, beq_iff_eq, Prod.mk.injEq]

theorem snapshotExact_reading (s : World) (requested : VersionID) :
    shownVersion (s.snapshotExact requested).2 = reading s (s.canonical requested) := by
  unfold snapshotExact reading
  simp only
  cases s.versions.find? (s.canonical requested) with
  | some archived => rfl
  | none =>
    cases s.nodes.find? (s.canonical requested).address with
    | none => rfl
    | some node =>
      simp only [Option.map_none, Option.map_some, shownNode]
      split
      · rename_i hproduced
        rw [if_pos ⟨.inl hproduced.1, hproduced.2⟩]
        rfl
      · rename_i hproduced
        split
        · rename_i hdesired
          rw [if_pos ⟨.inr hdesired.1, hdesired.2⟩]
          rfl
        · rename_i hdesired
          have hneither : ¬((node.producedRevision = (s.canonical requested).revision
              ∨ node.desiredRevision = (s.canonical requested).revision)
              ∧ node.versionGeneration = (s.canonical requested).generation) := by
            rintro ⟨h | h, hgeneration⟩
            · exact hproduced ⟨h, hgeneration⟩
            · exact hdesired ⟨h, hgeneration⟩
          rw [if_neg hneither]
          have hfound := find_successor node.successors (s.canonical requested).revision
            (s.canonical requested).generation
          split
          · rename_i hsome
            rw [if_pos (hfound.mp (by rw [hsome]; rfl))]
            rfl
          · rename_i hnone
            rw [if_neg (fun h => by simpa [hnone] using hfound.mpr h)]
            rfl

theorem readsTrue_iff : s.ReadsTrue version
    ↔ shownVersion (s.snapshotFromView version) = reading s (s.canonical version) := by
  rw [← snapshotExact_reading]
  exact Prod.mk.injEq _ _ _ _ ▸ Iff.rfl

/-- The graph speaks of nothing under a generation that is of another revision. -/
theorem reading_unnamed (hrevision : version.revision ≠ 0)
    (h : ¬Names s version.generation ⟨version.address, version.revision⟩) :
    reading s version = unread := by
  unfold reading
  cases hversion : s.versions.find? version with
  | some snapshot => exact absurd (.archived hversion) h
  | none =>
    cases hnode : s.nodes.find? version.address with
    | none => rfl
    | some node =>
      simp only [Option.map_none, Option.map_some, shownNode]
      rw [if_neg, if_neg]
      · intro hmem
        obtain ⟨successor, hsuccessor, heq⟩ := List.mem_map.mp hmem
        obtain ⟨hrevision', hgeneration⟩ := Prod.mk.inj heq
        rw [← hgeneration, ← hrevision'] at h
        exact h (.node hnode (.successor hsuccessor))
      · rintro ⟨hproduced | hdesired, hgeneration⟩
        · exact h (hgeneration ▸ hproduced ▸ .node hnode (.produced (hproduced ▸ hrevision)))
        · exact h (hgeneration ▸ hdesired ▸ .node hnode (.desired (hdesired ▸ hrevision)))

/-- States that show the same answer the same. -/
theorem SameShown.readsTrue (h : SameShown s s' version.address) (haliases : AliasesKeep s)
    (hread : s'.readModel = s.readModel) (htrue : s.ReadsTrue version) : s'.ReadsTrue version := by
  have hcanonical : s'.canonical version = s.canonical version := by
    unfold canonical
    rw [h.aliases version rfl]
  have haddress : (s.canonical version).address = version.address := by
    unfold canonical
    cases hfind : s.generationAliases.find? version with
    | none => rfl
    | some v => exact (haliases version v hfind).1
  have hview : s'.snapshotFromView version = s.snapshotFromView version := by
    unfold snapshotFromView
    rw [hread]
  rw [readsTrue_iff] at htrue ⊢
  rw [hview, hcanonical, htrue]
  unfold reading
  rw [h.versions _ haddress, haddress, h.node]

/-! ## What a view answers -/

/-- The view of an address, once what it is built from has been read. -/
theorem mem_addressVersions : version ∈ s.addressVersions key
    ↔ version.address = key ∧ ∃ snapshot, s.versions.find? version = some snapshot := by
  unfold addressVersions
  rw [List.mem_insertionSort, List.mem_filter, Table.mem_keys, beq_iff_eq, and_comm]

/-- The archived versions as the view of their address lists them. -/
def archivedViews (s : World) (key : ArtifactKey) : List ArchivedView :=
  (s.addressVersions key).filterMap fun v => (s.versions.find? v).map fun snapshot => ({
    revision := v.revision, generation := v.generation
    snapshot := { snapshot with lease := none } } : ArchivedView)

theorem mem_archivedViews {archived : ArchivedView} : archived ∈ archivedViews s key
    ↔ ∃ snapshot, s.versions.find? ⟨key, archived.revision, archived.generation⟩ = some snapshot
        ∧ archived.snapshot = { snapshot with lease := none } := by
  unfold archivedViews
  rw [List.mem_filterMap]
  constructor
  · rintro ⟨v, hv, heq⟩
    obtain ⟨snapshot, hfind, rfl⟩ := Option.map_eq_some_iff.mp heq
    obtain ⟨rfl, _⟩ := mem_addressVersions.mp hv
    exact ⟨snapshot, hfind, rfl⟩
  · rintro ⟨snapshot, hfind, heq⟩
    refine ⟨_, mem_addressVersions.mpr ⟨rfl, snapshot, hfind⟩, ?_⟩
    rw [hfind, Option.map_some, ← heq]

/-- The archive search of a view is the one of the graph. -/
theorem find_archivedViews (revision generation : Nat) :
    ((archivedViews s key).find? fun archived =>
        archived.revision == revision && archived.generation == generation).map
      (fun archived => shownVersion archived.snapshot)
      = (s.versions.find? ⟨key, revision, generation⟩).map shownVersion := by
  cases hfind : (archivedViews s key).find? fun archived =>
      archived.revision == revision && archived.generation == generation with
  | some archived =>
    have hmatch := List.find?_some hfind
    simp only [Bool.and_eq_true, beq_iff_eq] at hmatch
    obtain ⟨snapshot, hversion, heq⟩ := mem_archivedViews.mp (List.mem_of_find?_eq_some hfind)
    rw [hmatch.1, hmatch.2] at hversion
    rw [hversion, Option.map_some, heq]
    rfl
  | none =>
    cases hversion : s.versions.find? ⟨key, revision, generation⟩ with
    | none => rfl
    | some snapshot =>
      have hmem : ⟨revision, generation, { snapshot with lease := none }⟩ ∈ archivedViews s key :=
        mem_archivedViews.mpr ⟨snapshot, hversion, rfl⟩
      exact absurd (List.find?_eq_none.mp hfind _ hmem) (by simp)

/-- What a view says of an address, besides the archive, is what the cursor says. -/
theorem addressView_cases {view : AddressView} (h : s.addressView key = some view) :
    view.archived = archivedViews s key
      ∧ view.aliases = (s.generationAliases.toList.filter fun entry => entry.1.address == key).map
          (fun entry => (entry.1.generation, entry.2.generation))
      ∧ (s.nodes.find? key = none ∧ view.current = { key } ∧ view.desiredRevision = 0
          ∧ view.pendingSuccessors = []
        ∨ ∃ node, s.nodes.find? key = some node
          ∧ view.current = { makeSnapshot node with lease := none }
          ∧ view.desiredRevision = node.desiredRevision
          ∧ view.versionGeneration = node.versionGeneration
          ∧ view.pendingSuccessors = node.successors.map fun successor =>
              (successor.revision, successor.generation)) := by
  unfold addressView at h
  simp only at h
  split at h
  · split at h
    · cases h
    · cases h
      exact ⟨rfl, rfl, .inl ⟨‹_›, rfl, rfl, rfl⟩⟩
  · cases h
    exact ⟨rfl, rfl, .inr ⟨_, ‹_›, rfl, rfl, rfl, rfl⟩⟩

/-- The cursor's snapshot is of the version produced, or of the one that ended without. -/
theorem makeSnapshot_revision (node : Node) {revision : Nat}
    (h : (makeSnapshot node).revision = revision) :
    node.producedRevision = revision ∨ node.desiredRevision = revision := by
  unfold makeSnapshot at h
  simp only at h
  split at h
  · exact .inr h
  · exact .inl h

theorem makeSnapshot_produced {node : Node} {revision : Nat} (hrevision : revision ≠ 0)
    (h : node.producedRevision = revision) : (makeSnapshot node).revision = revision := by
  unfold makeSnapshot
  simp only
  rw [if_neg]
  · exact h
  · simp [h, hrevision]

/-- A view reads a version, under the generation it canonicalizes to, as the graph reads that. -/
theorem read_addressView {view : AddressView} (h : s.addressView version.address = some view)
    (hrevision : version.revision ≠ 0) (unknown : ArtifactSnapshot)
    (hunknown : shownVersion unknown = unread) :
    shownVersion ((view.read version).getD unknown)
      = reading s ⟨version.address, version.revision, view.canonical version.generation⟩ := by
  obtain ⟨harchived, _, hcursor⟩ := addressView_cases h
  unfold AddressView.read reading
  simp only
  generalize view.canonical version.generation = generation
  rw [harchived, ← find_archivedViews]
  cases (archivedViews s version.address).find? fun archived =>
      archived.revision == version.revision && archived.generation == generation with
  | some archived => rfl
  | none =>
    simp only [Option.map_none]
    rcases hcursor with ⟨hnode, hcurrent, hdesired, hpending⟩ |
      ⟨node, hnode, hcurrent, hdesired, hgeneration, hpending⟩
    · rw [hnode, hcurrent, hdesired, hpending]
      simp [Ne.symm hrevision, hunknown]
    · rw [hnode, hcurrent, hdesired, hgeneration, hpending]
      simp only [Option.map_some, shownNode]
      split
      · rename_i hread
        rw [if_pos ⟨makeSnapshot_revision node hread.1, hread.2.1⟩]
        rfl
      · rename_i hread
        split
        · rename_i hactive
          rw [if_pos ⟨.inr hactive.1, hactive.2⟩]
          rfl
        · rename_i hactive
          have hneither : ¬((node.producedRevision = version.revision
              ∨ node.desiredRevision = version.revision)
              ∧ node.versionGeneration = generation) := by
            rintro ⟨hproduced | hwanted, hsame⟩
            · have hmade := makeSnapshot_produced hrevision hproduced
              exact hread ⟨hmade, hsame, fun hzero => hrevision (hmade.symm.trans hzero)⟩
            · exact hactive ⟨hwanted, hsame⟩
          rw [if_neg hneither]
          by_cases hqueued : (version.revision, generation) ∈ node.successors.map
              fun successor => (successor.revision, successor.generation)
          · rw [if_pos hqueued, if_pos]
            · rfl
            · exact List.any_eq_true.mpr ⟨_, hqueued, by simp⟩
          · rw [if_neg hqueued, if_neg]
            · exact hunknown
            · intro hany
              obtain ⟨⟨revision, generation'⟩, hmem, heq⟩ := List.any_eq_true.mp hany
              simp only [Bool.and_eq_true, beq_iff_eq] at heq
              exact hqueued (heq.1 ▸ heq.2 ▸ hmem)

/-- An address without a view is one the graph knows nothing of. -/
theorem reading_of_no_view (h : s.addressView key = none) (revision generation : Nat) :
    reading s ⟨key, revision, generation⟩ = unread := by
  unfold addressView at h
  simp only at h
  split at h
  · rename_i hnode
    split at h
    · rename_i harchived
      unfold reading
      rw [← find_archivedViews]
      change archivedViews s key = [] at harchived
      simp only [harchived, hnode, List.find?_nil, Option.map_none]
    · cases h
  · cases h

/-! ## Aliases -/

/-- The alias a view finds for a generation is one of its address. -/
theorem canonical_addressView {view : AddressView} (h : s.addressView key = some view)
    (generation : Nat) :
    view.canonical generation = generation
        ∧ (∀ revision, s.generationAliases.find? ⟨key, revision, generation⟩ = none)
      ∨ ∃ revision v, s.generationAliases.find? ⟨key, revision, generation⟩ = some v
        ∧ view.canonical generation = v.generation := by
  obtain ⟨_, haliases, _⟩ := addressView_cases h
  unfold AddressView.canonical
  rw [haliases]
  cases hfind : ((s.generationAliases.toList.filter fun entry => entry.1.address == key).map
      fun entry => (entry.1.generation, entry.2.generation)).find? fun entry =>
        entry.1 == generation with
  | none =>
    refine .inl ⟨rfl, fun revision => Option.eq_none_iff_forall_ne_some.mpr fun v hv => ?_⟩
    have hmem : (generation, v.generation) ∈ (s.generationAliases.toList.filter fun entry =>
        entry.1.address == key).map fun entry => (entry.1.generation, entry.2.generation) :=
      List.mem_map.mpr ⟨_, List.mem_filter.mpr ⟨Table.mem_toList.mpr hv, by simp⟩, rfl⟩
    exact absurd (List.find?_eq_none.mp hfind _ hmem) (by simp)
  | some entry =>
    have hgeneration := List.find?_some hfind
    obtain ⟨⟨p, v⟩, hmem, rfl⟩ := List.mem_map.mp (List.mem_of_find?_eq_some hfind)
    obtain ⟨hentry, haddress⟩ := List.mem_filter.mp hmem
    simp only [beq_iff_eq] at hgeneration haddress
    refine .inr ⟨p.revision, v, ?_, rfl⟩
    rw [← hgeneration, ← haddress]
    exact Table.mem_toList.mp hentry

/-- **A fresh view answers as the graph does.** -/
theorem readsTrue_of_fresh (howned : Owned [] s) (haliases : AliasesKeep s)
    (hnamed : version.isNamed = true)
    (hfresh : (s.readModel.find? version.address).join = s.addressView version.address) :
    s.ReadsTrue version := by
  have hrevision : version.revision ≠ 0 := by
    simp only [VersionID.isNamed, Bool.and_eq_true, bne_iff_ne] at hnamed
    exact hnamed.1
  rw [readsTrue_iff]
  unfold snapshotFromView
  simp only
  rw [hfresh]
  have hcanonical : s.canonical version
      = ⟨version.address, version.revision, (s.canonical version).generation⟩ := by
    unfold canonical
    cases hfind : s.generationAliases.find? version with
    | none => rfl
    | some v =>
      obtain ⟨haddress, hrevision⟩ := haliases version v hfind
      exact haddress ▸ hrevision ▸ rfl
  cases hview : s.addressView version.address with
  | none =>
    rw [hcanonical, reading_of_no_view hview]
    rfl
  | some view =>
    simp only
    rw [read_addressView hview hrevision _ rfl]
    rcases canonical_addressView hview version.generation with
      ⟨hsame, hnone⟩ | ⟨revision, v, halias, hgeneration⟩
    · have hself : s.canonical version = version := by
        unfold canonical
        rw [hnone version.revision]
        rfl
      rw [hsame, hself]
    · by_cases heq : revision = version.revision
      · subst heq
        have hself : s.canonical version = v := by
          unfold canonical
          rw [halias]
          rfl
        rw [hcanonical, hself, hgeneration]
      · -- the generation is another revision's, and so is the one it stands for
        have hforeign (generation : Nat) (hnames : Names s generation ⟨version.address, revision⟩) :
            ¬Names s generation ⟨version.address, version.revision⟩ := fun hown => by
          have hsame := howned.unique hnames hown
          simp only [VersionKey.mk.injEq, true_and] at hsame
          exact heq hsame
        have hown := hforeign version.generation (.predicted halias)
        have hself : s.canonical version = version := by
          unfold canonical
          cases hfind : s.generationAliases.find? version with
          | none => rfl
          | some w => exact absurd (.predicted hfind) hown
        have htarget : reading s ⟨version.address, version.revision, v.generation⟩ = unread :=
          reading_unnamed hrevision (hforeign v.generation (.target halias))
        rw [hself, reading_unnamed hrevision hown, hgeneration, htarget]

/-! ## Publication of the views -/

theorem join_publishView (views : Table ArtifactKey (Option AddressView)) (k : ArtifactKey) :
    ((s.publishView views k).find? key).join
      = if key = k then s.addressView k else (views.find? key).join := by
  unfold publishView
  split
  · rename_i hnone
    rw [hnone]
    split
    · rw [Table.find?_insert]
      split <;> rfl
    · rename_i hunknown
      split
      · rename_i hk
        subst hk
        have hfind : views.find? key = none := by
          rw [Option.eq_none_iff_forall_ne_some]
          exact fun view hview => hunknown ((Table.contains_iff views key).mpr ⟨view, hview⟩)
        rw [hfind]
        rfl
      · rfl
  · rename_i view hview
    rw [Table.find?_insert]
    split
    · rw [hview]
      rfl
    · rfl

/-- The views of the marked addresses are rebuilt, and no others. -/
theorem join_publishViews (keys : List ArtifactKey) (views : Table ArtifactKey (Option AddressView)) :
    ((keys.foldl s.publishView views).find? key).join
      = if key ∈ keys then s.addressView key else (views.find? key).join := by
  induction keys generalizing views with
  | nil => rfl
  | cons k keys ih =>
    rw [List.foldl_cons, ih, join_publishView]
    by_cases hmem : key ∈ keys
    · rw [if_pos hmem, if_pos (List.mem_cons_of_mem _ hmem)]
    · rw [if_neg hmem]
      by_cases hk : key = k
      · subst hk
        rw [if_pos rfl, if_pos List.mem_cons_self]
      · rw [if_neg hk, if_neg (fun h => (List.mem_cons.mp h).elim hk hmem)]

end ModuleServices.Graph.Proof
