import ModuleServices.Graph.Proof.Coherence

/-!
# What an admitted build is given

`DependenciesSatisfied` and `DependencySnapshots` walk a recipe apart, over one selection. Here
they meet: the requirements that contribute are a part of the recipe, every mandatory one is
among them, and of each group of alternatives the first satisfied. A requirement that only holds
a lifetime never keeps a build waiting, so it may contribute nothing.

The selection reads the archive in the order of its names, so it needs each version filed under
its own: `Filed`, in every reachable state.
-/

namespace ModuleServices.Graph.Proof

open World

variable {s s' : World} {key : ArtifactKey} {v : VersionID} {r : ArtifactRequirement}
  {requirements : List ArtifactRequirement} {groups : List (DependencyPolicy × Nat)}
  {stored snapshot : ArtifactSnapshot} {node : Node}

/-! ## The archive is in order -/

/-- A publication keeps what every call keeps, marked or not. -/
theorem markPublishedLocked_kept (hkeyed : Keyed s) (requested : VersionID) :
    Kept [] s (s.markPublishedLocked requested) := by
  unfold markPublishedLocked
  split
  · simp only
    generalize s.canonical requested = v
    have hcursor (u : World) (hkept : Kept [] s u) : Kept [] s (u.publishCursor v) :=
      hkept.trans (publishCursor_marked (hkept.keyed hkeyed) v).toKept
    unfold publishArchived
    split
    · exact hcursor s (.refl s)
    rename_i archived harchived
    split
    · exact hcursor s (.refl s)
    split
    · have hqueued : Marked [] s (s.queueReclaim [v]) :=
        .of_same ⟨rfl, rfl, rfl, rfl, rfl, rfl, fun _ _ _ _ => .inl⟩ rfl rfl
      exact hcursor _ hqueued.toKept
    · refine hcursor _ (archive_kept (v := v) rfl harchived (fun v' hv => ?_)
        (fun snapshot' h => ?_) rfl rfl rfl rfl rfl rfl fun _ => id)
      · change (s.versions.insert v _).find? v' = _
        rw [Table.find?_insert, if_neg hv]
      · change (s.versions.insert v _).find? v = _ at h
        rw [Table.find?_insert, if_pos rfl] at h
        cases h
        rfl
  · exact .refl s

/-- What every state has that a run reaches, published as it may be. -/
structure ArchiveInv (s : World) : Prop where
  builds : BuildInv s
  aliases : AliasesKeep s
  unqueued : Unqueued s
  filed : Filed s

theorem ArchiveInv.keyed (h : ArchiveInv s) : Keyed s :=
  fun key node hfind => (h.builds.node key node hfind).key

/-- Only a publication has a condition that `MarksPublication` looks at. -/
theorem Does.marksPublication {Q : World → Call → Prop} (h : Does Q s s') :
    Does MarksPublication s s' ∨ ∃ requested, s' = s.markPublishedLocked requested := by
  cases h with
  | markPublished requested => exact .inr ⟨requested, rfl⟩
  | frame h => exact .inl (.frame h)
  | publish => exact .inl .publish
  | move h => exact .inl (.move h)
  | await operation => exact .inl (.await operation trivial)
  | request a hgeneration hlease => exact .inl (.request a hgeneration hlease trivial)
  | posted hhead hu => exact .inl (.posted hhead hu trivial)
  | cancel key => exact .inl (.cancel key (.inl trivial))
  | erase hfind hdesired hflight hdependents => exact .inl (.erase hfind hdesired hflight hdependents)
  | resume hf => exact .inl (.resume hf)
  | gpuEnded _ hfind hgeneration htoken error =>
    exact .inl (.gpuEnded trivial hfind hgeneration htoken error)
  | gpuSubmitted _ hfind htoken hstate => exact .inl (.gpuSubmitted trivial hfind htoken hstate)
  | gpuReached hfind htoken hstate => exact .inl (.gpuReached hfind htoken hstate)
  | prepare hhead hprepare => exact .inl (.prepare hhead hprepare)
  | discard hhead hfind => exact .inl (.discard hhead hfind)
  | stale hhead hu hfind hkey => exact .inl (.stale hhead hu hfind hkey trivial)
  | ready hhead hu hfind haccepts _ houtcome =>
    exact .inl (.ready hhead hu hfind haccepts trivial houtcome)
  | needs hhead hu hfind haccepts _ houtcome hrevision =>
    exact .inl (.needs hhead hu hfind haccepts trivial houtcome hrevision)
  | retryAfter hhead hu hfind haccepts => exact .inl (.retryAfter hhead hu hfind haccepts trivial)
  | suspended hhead hu hfind haccepts _ houtcome hsuspension =>
    exact .inl (.suspended hhead hu hfind haccepts trivial houtcome hsuspension)
  | ended hhead hu hfind haccepts _ error =>
    exact .inl (.ended hhead hu hfind haccepts trivial error)
  | wake dependency consumer => exact .inl (.wake dependency consumer trivial)
  | block hfind hstate hflight hunsatisfied =>
    exact .inl (.block hfind hstate hflight hunsatisfied)
  | build _ hfind hstate hflight hsatisfied =>
    exact .inl (.build trivial hfind hstate hflight hsatisfied)
  | producerless hfind hstate hflight => exact .inl (.producerless hfind hstate hflight)
  | dispatch snapshot => exact .inl (.dispatch snapshot)
  | forget hfind => exact .inl (.forget hfind)
  | reclaim _ hfind hreferenced => exact .inl (.reclaim trivial hfind hreferenced)
  | post intent coalescible => exact .inl (.post intent coalescible)
  | dropLease hfind hheld => exact .inl (.dropLease hfind hheld)
  | finishBuild hget result => exact .inl (.finishBuild hget result)
  | finishAcceptance hget error => exact .inl (.finishAcceptance hget error)
  | collect hhead => exact .inl (.collect hhead)
  | handBuild hhead => exact .inl (.handBuild hhead)
  | handAcceptance hhead => exact .inl (.handAcceptance hhead)

theorem Does.archiveInv {Q : World → Call → Prop} (h : Does Q s s') (hinv : ArchiveInv s) :
    ArchiveInv s' := by
  have hbuilds := h.buildInv hinv.builds
  by_cases hpublish : s' = s.publishDirtyViews
  · subst hpublish
    exact ⟨hbuilds, hinv.aliases, hinv.unqueued, hinv.filed⟩
  have hkept : Kept [] s s' := by
    rcases h.marksPublication with h | ⟨requested, rfl⟩
    · exact (h.marked hinv.builds hinv.aliases hinv.unqueued hpublish).toKept
    · exact markPublishedLocked_kept hinv.keyed requested
  exact ⟨hbuilds, hkept.aliases hinv.aliases, hkept.unqueued hinv.unqueued, hkept.filed hinv.filed⟩

theorem archive_reachable {policies : List ArtifactKindPolicy}
    (h : Run.Reachable step (start policies) s) : ArchiveInv s := by
  have hstart := start_viewInv policies
  have hinit : ArchiveInv (start policies) :=
    ⟨hstart.builds, hstart.aliases, hstart.unqueued, fun _ _ hfind => by cases hfind⟩
  have hwithin : Run.Within step (CallsMeet fun _ _ => True) (start policies) s :=
    h.mono fun _ _ _ _ _ => trivial
  exact within_invariant hinit Does.archiveInv hwithin

/-! ## Which version is selected -/

theorem before_refl (v : VersionID) : v.before v := .inr ⟨rfl, Nat.le_refl _⟩

theorem before_trans {a b c : VersionID} (h : a.before b) (h' : b.before c) : a.before c := by
  unfold VersionID.before at h h' ⊢
  omega

theorem before_total (a b : VersionID) : a.before b ∨ b.before a := by
  unfold VersionID.before
  omega

/-- The archive of an address, newest first. -/
theorem addressVersions_ordered (s : World) (key : ArtifactKey) :
    (s.addressVersions key).reverse.Pairwise fun a b => b.before a := by
  have htotal : Std.Total VersionID.before := ⟨before_total⟩
  have htrans : IsTrans VersionID VersionID.before := ⟨fun _ _ _ => before_trans⟩
  rw [List.pairwise_reverse]
  exact List.pairwise_insertionSort VersionID.before _

/-- The first found going down the archive is the newest that will do. -/
theorem find_newest {p : ArtifactSnapshot → Bool} {f : VersionID → Option ArtifactSnapshot}
    {versions : List VersionID} (hordered : versions.Pairwise fun a b => b.before a)
    (h : (versions.filterMap f).find? p = some snapshot) :
    ∃ v ∈ versions, f v = some snapshot ∧ p snapshot = true
      ∧ ∀ w ∈ versions, ∀ other, f w = some other → p other = true → w.before v := by
  induction versions with
  | nil => cases h
  | cons first versions ih =>
    obtain ⟨hfirst, hrest⟩ := List.pairwise_cons.mp hordered
    cases hf : f first with
    | none =>
      rw [List.filterMap_cons_none hf] at h
      obtain ⟨v, hv, hfind, hp, hall⟩ := ih hrest h
      refine ⟨v, List.mem_cons_of_mem _ hv, hfind, hp, fun w hw other hother hpother => ?_⟩
      rcases List.mem_cons.mp hw with rfl | hw
      · rw [hf] at hother
        cases hother
      · exact hall w hw other hother hpother
    | some found =>
      rw [List.filterMap_cons_some hf] at h
      by_cases hp : p found = true
      · rw [List.find?_cons_of_pos hp] at h
        cases h
        refine ⟨first, List.mem_cons_self, hf, hp, fun w hw _ _ _ => ?_⟩
        rcases List.mem_cons.mp hw with rfl | hw
        · exact before_refl w
        · exact hfirst w hw
      · rw [List.find?_cons_of_neg hp] at h
        obtain ⟨v, hv, hfind, hpv, hall⟩ := ih hrest h
        refine ⟨v, List.mem_cons_of_mem _ hv, hfind, hpv, fun w hw other hother hpother => ?_⟩
        rcases List.mem_cons.mp hw with rfl | hw
        · rw [hf] at hother
          cases hother
          exact absurd hpother hp
        · exact hall w hw other hother hpother

/-- What the cursor has for a requirement of one revision. -/
def AtCursor (s : World) (r : ArtifactRequirement) (snapshot : ArtifactSnapshot) : Prop :=
  ∃ node, s.nodes.find? r.key = some node ∧ node.producedRevision = r.minimumRevision
    ∧ (r.requiredGeneration = 0 ∨ node.versionGeneration = r.requiredGeneration)
    ∧ snapshot = makeSnapshot node

/-- A version of the address, archived or at the cursor, that satisfies a Latest requirement. -/
def Candidate (s : World) (r : ArtifactRequirement) (snapshot : ArtifactSnapshot) : Prop :=
  snapshot.readiness.satisfies r.requiredReadiness = true ∧
    ((∃ v : VersionID, v.address = r.key ∧ r.minimumRevision ≤ v.revision
        ∧ s.versions.find? v = some snapshot)
      ∨ ∃ node, s.nodes.find? r.key = some node ∧ r.minimumRevision ≤ node.producedRevision
        ∧ snapshot = makeSnapshot node)

/-- The version a requirement means. -/
structure Meant (s : World) (r : ArtifactRequirement) (stored : ArtifactSnapshot) : Prop where
  address : stored.key = r.key
  named : r.isExact = true → r.requiredGeneration ≠ 0 →
    s.versions.find? (s.canonical r.version) = some stored
      ∨ s.versions.find? (s.canonical r.version) = none ∧ AtCursor s r stored
  newest : r.isExact = true → r.requiredGeneration = 0 →
    (∃ generation, s.versions.find? ⟨r.key, r.minimumRevision, generation⟩ = some stored
        ∧ ∀ generation' other, s.versions.find? ⟨r.key, r.minimumRevision, generation'⟩ = some other →
          generation' ≤ generation)
      ∨ (∀ generation, s.versions.find? ⟨r.key, r.minimumRevision, generation⟩ = none)
        ∧ AtCursor s r stored
  latest : r.isExact = false → Candidate s r stored
    ∧ ∀ other, Candidate s r other → other.version.before stored.version

theorem cursorExact_iff : s.cursorExact r = some stored ↔ AtCursor s r stored := by
  unfold cursorExact AtCursor
  cases s.nodes.find? r.key with
  | none => simp
  | some node =>
    simp only [Option.some.injEq, exists_eq_left']
    by_cases h : node.producedRevision = r.minimumRevision
        ∧ (r.requiredGeneration = 0 ∨ node.versionGeneration = r.requiredGeneration)
    · rw [if_pos h, Option.some.injEq]
      exact ⟨fun heq => ⟨h.1, h.2, heq.symm⟩, fun hall => hall.2.2.symm⟩
    · rw [if_neg h]
      exact ⟨fun heq => (by cases heq), fun hall => absurd ⟨hall.1, hall.2.1⟩ h⟩

/-- Without a generation the archive answers with the greatest one of the revision. -/
theorem archivedExact_newest (hgeneration : r.requiredGeneration = 0) :
    (s.archivedExact r = none
        ∧ ∀ generation, s.versions.find? ⟨r.key, r.minimumRevision, generation⟩ = none)
      ∨ ∃ generation stored, s.archivedExact r = some stored
        ∧ s.versions.find? ⟨r.key, r.minimumRevision, generation⟩ = some stored
        ∧ ∀ generation' other, s.versions.find? ⟨r.key, r.minimumRevision, generation'⟩ = some other →
          generation' ≤ generation := by
  unfold archivedExact
  rw [if_neg (not_not.mpr hgeneration)]
  have hmem (generation : Nat) (other : ArtifactSnapshot)
      (hother : s.versions.find? ⟨r.key, r.minimumRevision, generation⟩ = some other) :
      (⟨r.key, r.minimumRevision, generation⟩ : VersionID) ∈ (s.addressVersions r.key).reverse.filter
        fun v => v.revision == r.minimumRevision := by
    rw [List.mem_filter, List.mem_reverse, mem_addressVersions]
    exact ⟨⟨rfl, other, hother⟩, beq_self_eq_true _⟩
  have hordered := (addressVersions_ordered s r.key).sublist
    (List.filter_sublist (p := fun v => v.revision == r.minimumRevision))
  have hthere : ∀ v ∈ (s.addressVersions r.key).reverse.filter
      (fun v => v.revision == r.minimumRevision),
      (v.address = r.key ∧ ∃ snapshot, s.versions.find? v = some snapshot)
        ∧ v.revision = r.minimumRevision := by
    intro v hv
    rwa [List.mem_filter, List.mem_reverse, mem_addressVersions, beq_iff_eq] at hv
  generalize (s.addressVersions r.key).reverse.filter
    (fun v => v.revision == r.minimumRevision) = versions at hmem hordered hthere ⊢
  cases versions with
  | nil =>
    refine .inl ⟨rfl, fun generation => ?_⟩
    cases hfind : s.versions.find? ⟨r.key, r.minimumRevision, generation⟩ with
    | none => rfl
    | some other => cases hmem generation other hfind
  | cons first versions =>
    obtain ⟨⟨haddress, stored, hstored⟩, hrevision⟩ := hthere first List.mem_cons_self
    have hfirst : first = ⟨r.key, r.minimumRevision, first.generation⟩ := by
      rw [← haddress, ← hrevision]
    refine .inr ⟨first.generation, stored, hstored, hfirst ▸ hstored, fun generation other hother => ?_⟩
    · rcases List.mem_cons.mp (hmem generation other hother) with heq | hrest
      · rw [← heq]
      · have hbefore := (List.pairwise_cons.mp hordered).1 _ hrest
        unfold VersionID.before at hbefore
        dsimp only at hbefore
        omega

theorem canonical_address (haliases : AliasesKeep s) (v : VersionID) :
    (s.canonical v).address = v.address := by
  unfold canonical
  cases hfind : s.generationAliases.find? v with
  | none => rfl
  | some w => exact (haliases v w hfind).1

theorem makeSnapshot_key (hkeyed : Keyed s) (hfind : s.nodes.find? key = some node) :
    (makeSnapshot node).key = key := hkeyed key node hfind

theorem exact_meant (hinv : ArchiveInv s) (hexact : r.isExact = true)
    (h : s.selectSnapshot r = some stored) : Meant s r stored := by
  unfold selectSnapshot at h
  rw [if_pos hexact, Option.or_eq_some_iff, cursorExact_iff] at h
  have hcursor : AtCursor s r stored → stored.key = r.key := by
    rintro ⟨node, hfind, -, -, rfl⟩
    exact makeSnapshot_key hinv.keyed hfind
  have hlatest : r.isExact = false → Candidate s r stored
      ∧ ∀ other, Candidate s r other → other.version.before stored.version := by
    intro hnot
    rw [hexact] at hnot
    cases hnot
  by_cases hgeneration : r.requiredGeneration = 0
  · rcases archivedExact_newest (s := s) hgeneration with
      ⟨hnothing, hnever⟩ | ⟨generation, newest, hnewest, hfind, hall⟩
    · rw [hnothing] at h
      rcases h with harchived | ⟨-, hat⟩
      · cases harchived
      · exact ⟨hcursor hat, fun _ hne => absurd hgeneration hne, fun _ _ => .inr ⟨hnever, hat⟩, hlatest⟩
    · rw [hnewest] at h
      rcases h with harchived | ⟨hnone, -⟩
      · cases harchived
        exact ⟨congrArg VersionID.address (hinv.filed _ _ hfind), fun _ hne => absurd hgeneration hne,
          fun _ _ => .inl ⟨generation, hfind, hall⟩, hlatest⟩
      · cases hnone
  · have harchived : s.archivedExact r = s.versions.find? (s.canonical r.version) := if_pos hgeneration
    rw [harchived] at h
    have hnever (hzero : r.requiredGeneration = 0) : False := hgeneration hzero
    rcases h with hfind | ⟨hnone, hat⟩
    · have hkey : stored.key = r.key :=
        (congrArg VersionID.address (hinv.filed _ _ hfind)).trans
          (canonical_address hinv.aliases r.version)
      exact ⟨hkey, fun _ _ => .inl hfind, fun _ hzero => (hnever hzero).elim, hlatest⟩
    · exact ⟨hcursor hat, fun _ _ => .inr ⟨hnone, hat⟩, fun _ hzero => (hnever hzero).elim, hlatest⟩

/-- The archive answers a Latest requirement with the newest version it has that satisfies it. -/
theorem archivedLatest_newest (hfiled : Filed s) (h : s.archivedLatest r = some stored) :
    stored.key = r.key ∧ Candidate s r stored ∧ ∀ v : VersionID, v.address = r.key →
      r.minimumRevision ≤ v.revision → ∀ other, s.versions.find? v = some other →
      other.readiness.satisfies r.requiredReadiness = true → other.version.before stored.version := by
  obtain ⟨v, hv, hfind, hp, hall⟩ := find_newest (addressVersions_ordered s r.key) h
  rw [List.mem_reverse, mem_addressVersions] at hv
  have hversion := hfiled v stored hfind
  rw [Bool.and_eq_true, decide_eq_true_eq] at hp
  have hrevision : stored.revision = v.revision := congrArg VersionID.revision hversion
  refine ⟨(congrArg VersionID.address hversion).trans hv.1,
    ⟨hp.2, .inl ⟨v, hv.1, hrevision ▸ hp.1, hfind⟩⟩, fun w haddress hw other hother hsatisfies => ?_⟩
  have hwversion := hfiled w other hother
  have hwrevision : other.revision = w.revision := congrArg VersionID.revision hwversion
  rw [hversion, hwversion]
  refine hall w ?_ other hother ?_
  · rw [List.mem_reverse, mem_addressVersions]
    exact ⟨haddress, other, hother⟩
  · rw [Bool.and_eq_true, decide_eq_true_eq, hwrevision]
    exact ⟨hw, hsatisfies⟩

/-- The archive has nothing for a Latest requirement only if nothing in it satisfies it. -/
theorem archivedLatest_none (hfiled : Filed s) (h : s.archivedLatest r = none) {v : VersionID}
    (haddress : v.address = r.key) (hrevision : r.minimumRevision ≤ v.revision)
    (hfind : s.versions.find? v = some stored) :
    stored.readiness.satisfies r.requiredReadiness = false := by
  unfold archivedLatest newestArchived at h
  rw [List.find?_eq_none] at h
  have hmem : stored ∈ (s.addressVersions r.key).reverse.filterMap s.versions.find? := by
    rw [List.mem_filterMap]
    exact ⟨v, by rw [List.mem_reverse, mem_addressVersions]; exact ⟨haddress, stored, hfind⟩, hfind⟩
  have hwrong := h stored hmem
  have hminimum : r.minimumRevision ≤ stored.revision := by
    have hversion := congrArg VersionID.revision (hfiled v stored hfind)
    change stored.revision = v.revision at hversion
    omega
  simpa [hminimum] using hwrong

theorem cursorLatest_iff : s.cursorLatest r = some stored
    ↔ stored.readiness.satisfies r.requiredReadiness = true ∧ ∃ node, s.nodes.find? r.key = some node
      ∧ r.minimumRevision ≤ node.producedRevision ∧ stored = makeSnapshot node := by
  unfold cursorLatest
  cases s.nodes.find? r.key with
  | none => simp
  | some node =>
    simp only [Option.some.injEq, exists_eq_left']
    by_cases h : r.minimumRevision ≤ node.producedRevision
        ∧ (makeSnapshot node).readiness.satisfies r.requiredReadiness = true
    · rw [if_pos h, Option.some.injEq]
      exact ⟨fun heq => heq ▸ ⟨h.2, h.1, rfl⟩, fun hall => hall.2.2.symm⟩
    · rw [if_neg h]
      refine ⟨fun heq => (by cases heq), fun hall => absurd ?_ h⟩
      exact ⟨hall.2.1, hall.2.2 ▸ hall.1⟩

/-- A candidate is the cursor's or one of the archive's. -/
theorem Candidate.cases (h : Candidate s r stored) : s.cursorLatest r = some stored
    ∨ stored.readiness.satisfies r.requiredReadiness = true
      ∧ ∃ v : VersionID, v.address = r.key ∧ r.minimumRevision ≤ v.revision
        ∧ s.versions.find? v = some stored := by
  obtain ⟨hsatisfies, harchived | hcursor⟩ := h
  · exact .inr ⟨hsatisfies, harchived⟩
  · exact .inl (cursorLatest_iff.mpr ⟨hsatisfies, hcursor⟩)

theorem latest_meant (hinv : ArchiveInv s) (hlatest : r.isExact = false)
    (h : s.selectSnapshot r = some stored) : Meant s r stored := by
  unfold selectSnapshot at h
  rw [if_neg (by rw [hlatest]; exact Bool.false_ne_true)] at h
  have hnot (hexact : r.isExact = true) : False := by
    rw [hlatest] at hexact
    cases hexact
  have hcursor {found : ArtifactSnapshot} (hfound : s.cursorLatest r = some found) :
      found.key = r.key ∧ Candidate s r found := by
    obtain ⟨hsatisfies, node, hfind, hrevision, rfl⟩ := cursorLatest_iff.mp hfound
    exact ⟨makeSnapshot_key hinv.keyed hfind, hsatisfies, .inr ⟨node, hfind, hrevision, rfl⟩⟩
  suffices hmain : stored.key = r.key ∧ Candidate s r stored
      ∧ ∀ other, Candidate s r other → other.version.before stored.version from
    ⟨hmain.1, fun hexact => (hnot hexact).elim, fun hexact => (hnot hexact).elim, fun _ => hmain.2⟩
  cases hat : s.cursorLatest r with
  | none =>
    rw [hat] at h
    change s.archivedLatest r = some stored at h
    obtain ⟨hkey, hcandidate, hnewest⟩ := archivedLatest_newest hinv.filed h
    refine ⟨hkey, hcandidate, fun other hother => ?_⟩
    rcases hother.cases with hothers | ⟨hsatisfies, v, haddress, hrevision, hfind⟩
    · rw [hat] at hothers
      cases hothers
    · exact hnewest v haddress hrevision other hfind hsatisfies
  | some selected =>
    obtain ⟨hkey, hcandidate⟩ := hcursor hat
    cases harchived : s.archivedLatest r with
    | none =>
      rw [hat, harchived] at h
      cases h
      refine ⟨hkey, hcandidate, fun other hother => ?_⟩
      rcases hother.cases with hothers | ⟨hsatisfies, v, haddress, hrevision, hfind⟩
      · rw [hat] at hothers
        cases hothers
        exact before_refl _
      · rw [archivedLatest_none hinv.filed harchived haddress hrevision hfind] at hsatisfies
        cases hsatisfies
    | some archived =>
      obtain ⟨hkey', hcandidate', hnewest⟩ := archivedLatest_newest hinv.filed harchived
      rw [hat, harchived] at h
      change (if _ then some archived else some selected) = some stored at h
      -- both are candidates and every other is before one of the two
      have hbefore (other : ArtifactSnapshot) (hother : Candidate s r other) :
          other.version.before selected.version ∨ other.version.before archived.version := by
        rcases hother.cases with hothers | ⟨hsatisfies, v, haddress, hrevision, hfind⟩
        · rw [hat] at hothers
          cases hothers
          exact .inl (before_refl _)
        · exact .inr (hnewest v haddress hrevision other hfind hsatisfies)
      split at h
      · rename_i hnewer
        cases h
        refine ⟨hkey', hcandidate', fun other hother => (hbefore other hother).elim ?_ id⟩
        intro hselected
        refine before_trans hselected ?_
        unfold VersionID.before ArtifactSnapshot.version
        dsimp only
        omega
      · rename_i hnewer
        cases h
        refine ⟨hkey, hcandidate, fun other hother => (hbefore other hother).elim id ?_⟩
        intro hselected
        refine before_trans hselected ?_
        unfold VersionID.before ArtifactSnapshot.version
        dsimp only
        omega

/-- Whatever is selected for a requirement is the version it means. -/
theorem selectSnapshot_meant (hinv : ArchiveInv s) (h : s.selectSnapshot r = some stored) :
    Meant s r stored := by
  cases hexact : r.isExact with
  | true => exact exact_meant hinv hexact h
  | false => exact latest_meant hinv hexact h

/-! ## What a build is given -/

/-- One alternative of a group. -/
def grouped (r : ArtifactRequirement) : Bool :=
  r.policy == .anyOf || r.policy == .fallbackAllowed

/-- The snapshot that a requirement contributes: the version it means, ready enough, under a lease of
its own. -/
def GivenFor (s : World) (r : ArtifactRequirement) (snapshot : ArtifactSnapshot) : Prop :=
  ∃ stored token, snapshot = { stored with lease := some token }
    ∧ stored.readiness.satisfies r.requiredReadiness = true ∧ Meant s r stored

/-- The requirements of a recipe that contribute: every satisfied one outside the groups, and the
first satisfied alternative of each group. -/
structure Contributes (s : World) (recipe chosen : List ArtifactRequirement) : Prop where
  sublist : chosen.Sublist recipe
  ungrouped : chosen.filter (fun r => !grouped r)
    = recipe.filter fun r => !grouped r && s.requirementSatisfied r
  first : ∀ r, grouped r = true → chosen.filter (alternative r)
    = ((recipe.filter (alternative r)).find? s.requirementSatisfied).toList

/-- Among the requirements still to come, when an alternative of each of `groups` has been chosen. -/
structure ContributesAfter (s : World) (groups : List (DependencyPolicy × Nat))
    (recipe chosen : List ArtifactRequirement) : Prop where
  sublist : chosen.Sublist recipe
  ungrouped : chosen.filter (fun r => !grouped r)
    = recipe.filter fun r => !grouped r && s.requirementSatisfied r
  taken : ∀ r, grouped r = true → (r.policy, r.alternativeGroup) ∈ groups →
    chosen.filter (alternative r) = []
  first : ∀ r, grouped r = true → (r.policy, r.alternativeGroup) ∉ groups →
    chosen.filter (alternative r)
      = ((recipe.filter (alternative r)).find? s.requirementSatisfied).toList

theorem alternative_iff {a b : ArtifactRequirement} : alternative a b = true
    ↔ (a.policy, a.alternativeGroup) = (b.policy, b.alternativeGroup) := by
  unfold alternative
  rw [Bool.and_eq_true, beq_iff_eq, beq_iff_eq, Prod.mk.injEq]

theorem grouped_of_alternative {a b : ArtifactRequirement} (h : alternative a b = true) :
    grouped b = grouped a := by
  have hpolicy := congrArg Prod.fst (alternative_iff.mp h)
  dsimp only at hpolicy
  unfold grouped
  rw [hpolicy]

theorem requirementSatisfied_iff : s.requirementSatisfied r = true
    ↔ ∃ stored, (s.selectSnapshot r).filter (fun snapshot =>
      snapshot.readiness.satisfies r.requiredReadiness) = some stored := by
  unfold requirementSatisfied
  rw [Option.any_eq_true]
  simp only [Option.filter_eq_some_iff]

/-- An alternative of a group that has been chosen from contributes nothing. -/
theorem ContributesAfter.skip {chosen : List ArtifactRequirement}
    (h : ContributesAfter s groups requirements chosen) (hgrouped : grouped r = true)
    (htaken : (r.policy, r.alternativeGroup) ∈ groups) :
    ContributesAfter s groups (r :: requirements) chosen where
  sublist := h.sublist.cons r
  ungrouped := by
    rw [List.filter_cons_of_neg (by simp [hgrouped])]
    exact h.ungrouped
  taken := h.taken
  first r' hgrouped' hopen := by
    rw [List.filter_cons_of_neg (fun halternative => ?_)]
    · exact h.first r' hgrouped' hopen
    · rw [alternative_iff.mp halternative] at hopen
      exact hopen htaken

/-- Nor does a requirement that is not satisfied. -/
theorem ContributesAfter.unsatisfied {chosen : List ArtifactRequirement}
    (h : ContributesAfter s groups requirements chosen) (hnot : s.requirementSatisfied r = false) :
    ContributesAfter s groups (r :: requirements) chosen where
  sublist := h.sublist.cons r
  ungrouped := by
    rw [List.filter_cons_of_neg (by simp [hnot])]
    exact h.ungrouped
  taken := h.taken
  first r' hgrouped' hopen := by
    rw [h.first r' hgrouped' hopen]
    by_cases halternative : alternative r' r = true
    · rw [List.filter_cons_of_pos halternative, List.find?_cons_of_neg (by simp [hnot])]
    · rw [List.filter_cons_of_neg halternative]

/-- A satisfied one contributes, and closes its group. -/
theorem ContributesAfter.choose {chosen : List ArtifactRequirement}
    (h : ContributesAfter s
      (if grouped r then (r.policy, r.alternativeGroup) :: groups else groups) requirements chosen)
    (hopen : grouped r = true → (r.policy, r.alternativeGroup) ∉ groups)
    (hsatisfied : s.requirementSatisfied r = true) :
    ContributesAfter s groups (r :: requirements) (r :: chosen) where
  sublist := h.sublist.cons_cons r
  ungrouped := by
    by_cases hgrouped : grouped r = true
    · rw [List.filter_cons_of_neg (by simp [hgrouped]), List.filter_cons_of_neg (by simp [hgrouped])]
      exact h.ungrouped
    · rw [List.filter_cons_of_pos (by simp [hgrouped]),
        List.filter_cons_of_pos (by simp [hgrouped, hsatisfied]), h.ungrouped]
  taken r' hgrouped' htaken := by
    have hnot : ¬alternative r' r = true := by
      intro halternative
      have hgrouped := (grouped_of_alternative halternative).trans hgrouped'
      exact hopen hgrouped (alternative_iff.mp halternative ▸ htaken)
    rw [List.filter_cons_of_neg hnot]
    refine h.taken r' hgrouped' ?_
    split
    · exact List.mem_cons_of_mem _ htaken
    · exact htaken
  first r' hgrouped' hopen' := by
    by_cases halternative : alternative r' r = true
    · have hgrouped := (grouped_of_alternative halternative).trans hgrouped'
      rw [List.filter_cons_of_pos halternative, List.filter_cons_of_pos halternative,
        List.find?_cons_of_pos hsatisfied]
      rw [if_pos hgrouped] at h
      rw [h.taken r' hgrouped' (alternative_iff.mp halternative ▸ List.mem_cons_self)]
      rfl
    · rw [List.filter_cons_of_neg halternative, List.filter_cons_of_neg halternative]
      refine h.first r' hgrouped' ?_
      split
      · rw [List.mem_cons, not_or]
        exact ⟨fun heq => halternative (alternative_iff.mpr heq), hopen'⟩
      · exact hopen'

/-- What the rest of the walk gives, whatever leases it has made before. -/
theorem dependencySnapshotsFrom_given (hinv : ArchiveInv s) {t : World} (hleases : LeasesOnly s t)
    (groups : List (DependencyPolicy × Nat)) (requirements : List ArtifactRequirement) :
    ∃ chosen, ContributesAfter s groups requirements chosen
      ∧ List.Forall₂ (GivenFor s) chosen (t.dependencySnapshotsFrom groups requirements).2 := by
  induction requirements generalizing t groups with
  | nil =>
    exact ⟨[], ⟨.slnil, rfl, fun _ _ _ => rfl, fun _ _ _ => rfl⟩, .nil⟩
  | cons r requirements ih =>
    have hselect : t.selectSnapshot r = s.selectSnapshot r := by
      obtain ⟨_, _, _, rfl⟩ := hleases
      rfl
    unfold dependencySnapshotsFrom
    simp only
    by_cases hclosed : ((r.policy == .anyOf || r.policy == .fallbackAllowed)
        && groups.contains (r.policy, r.alternativeGroup)) = true
    · rw [if_pos hclosed]
      obtain ⟨hgrouped, htaken⟩ := Bool.and_eq_true_iff.mp hclosed
      obtain ⟨chosen, hchosen, hgiven⟩ := ih hleases groups
      exact ⟨chosen, hchosen.skip hgrouped (List.contains_iff_mem.mp htaken), hgiven⟩
    rw [if_neg hclosed, hselect]
    cases hselected : (s.selectSnapshot r).filter fun snapshot =>
        snapshot.readiness.satisfies r.requiredReadiness with
    | none =>
      obtain ⟨chosen, hchosen, hgiven⟩ := ih hleases groups
      refine ⟨chosen, hchosen.unsatisfied ?_, hgiven⟩
      rw [← Bool.not_eq_true, requirementSatisfied_iff, hselected]
      rintro ⟨_, hfalse⟩
      cases hfalse
    | some stored =>
      obtain ⟨hstored, hready⟩ := Option.filter_eq_some_iff.mp hselected
      obtain ⟨chosen, hchosen, hgiven⟩ := ih (t := (t.acquireVersionLease stored.version).1)
        (hleases.trans ⟨_, _, _, rfl⟩)
        (if grouped r then (r.policy, r.alternativeGroup) :: groups else groups)
      refine ⟨r :: chosen, hchosen.choose (fun hgrouped hmem => hclosed ?_)
        (requirementSatisfied_iff.mpr ⟨stored, hselected⟩), .cons ⟨stored, _, rfl, hready,
          selectSnapshot_meant hinv hstored⟩ hgiven⟩
      exact Bool.and_eq_true_iff.mpr ⟨hgrouped, List.contains_iff_mem.mpr hmem⟩

theorem dependencySnapshots_given (hinv : ArchiveInv s) (node : Node) :
    ∃ chosen, Contributes s node.requirements chosen
      ∧ List.Forall₂ (GivenFor s) chosen (s.dependencySnapshots node).2 := by
  obtain ⟨chosen, hchosen, hgiven⟩ :=
    dependencySnapshotsFrom_given hinv (.refl s) [] node.requirements
  exact ⟨chosen, ⟨hchosen.sublist, hchosen.ungrouped,
    fun r hgrouped => hchosen.first r hgrouped List.not_mem_nil⟩, hgiven⟩

/-! ## What was admitted -/

/-- Admission found every requirement that gates satisfied, or an alternative of its group that
gates too. -/
theorem satisfied_of_admitted (h : s.dependenciesSatisfied node = true) (hr : r ∈ node.requirements)
    (hgates : r.gates = true) :
    if r.policy = .allOf then s.requirementSatisfied r = true
    else ∃ r' ∈ node.requirements, alternative r r' = true ∧ s.requirementSatisfied r' = true := by
  unfold dependenciesSatisfied at h
  have hall := List.all_eq_true.mp h r (List.mem_filter.mpr ⟨hr, hgates⟩)
  split at hall
  · rw [if_pos ‹_›]
    exact hall
  · rw [if_neg ‹_›]
    obtain ⟨r', hr', hboth⟩ := List.any_eq_true.mp hall
    rw [Bool.and_eq_true] at hboth
    exact ⟨r', (List.mem_filter.mp hr').1, hboth⟩

/-- **An admitted build is given what it was admitted on.** In every state a run reaches, within a
call too, what is given to the build of a node are the versions that its contributing requirements
mean. If the node was admitted, every mandatory requirement that gates contributes, and of each
group with an alternative that gates exactly one does, the first satisfied in the recipe. -/
theorem admitted_given (policies : List ArtifactKindPolicy) {s₀ : World}
    (hreach : Run.Reachable step (start policies) s₀) (hwithin : DoesAll (fun _ _ => True) s₀ s)
    (node : Node) :
    ∃ chosen, Contributes s node.requirements chosen
      ∧ List.Forall₂ (GivenFor s) chosen (s.dependencySnapshots node).2
      ∧ (s.dependenciesSatisfied node = true → ∀ r ∈ node.requirements, r.gates = true →
        (r.policy = .allOf → r ∈ chosen)
        ∧ (grouped r = true → ∃ first,
          (node.requirements.filter (alternative r)).find? s.requirementSatisfied = some first
            ∧ chosen.filter (alternative r) = [first])) := by
  have hinv : ArchiveInv s := hwithin.invariant Does.archiveInv (archive_reachable hreach)
  obtain ⟨chosen, hchosen, hgiven⟩ := dependencySnapshots_given hinv node
  refine ⟨chosen, hchosen, hgiven, fun hadmitted r hr hgates => ?_⟩
  have hsatisfied := satisfied_of_admitted hadmitted hr hgates
  refine ⟨fun hallOf => ?_, fun hgrouped => ?_⟩
  · rw [if_pos hallOf] at hsatisfied
    have hmem : r ∈ node.requirements.filter fun r => !grouped r && s.requirementSatisfied r := by
      refine List.mem_filter.mpr ⟨hr, ?_⟩
      simp [grouped, hallOf, hsatisfied]
    rw [← hchosen.ungrouped] at hmem
    exact (List.mem_filter.mp hmem).1
  · have hallOf : r.policy ≠ .allOf := by
      intro hallOf
      simp [grouped, hallOf] at hgrouped
    rw [if_neg hallOf] at hsatisfied
    obtain ⟨r', hr', halternative, hsatisfied'⟩ := hsatisfied
    rw [hchosen.first r hgrouped]
    cases hfirst : (node.requirements.filter (alternative r)).find? s.requirementSatisfied with
    | none =>
      rw [List.find?_eq_none] at hfirst
      exact absurd hsatisfied' (hfirst r' (List.mem_filter.mpr ⟨hr', halternative⟩))
    | some first => exact ⟨first, rfl, rfl⟩

/-- The latest version of the address `{}`, from its first on. -/
def latestBuilt : ArtifactRequirement := { key := {}, minimumRevision := 1 }

/-- A build that asks for it is given it. -/
theorem admitted_given_latest :
    ∃ s snapshot, Run.Reachable step (start [{}]) s
      ∧ snapshot ∈ (s.dependencySnapshots { requirements := [latestBuilt] }).2
      ∧ GivenFor s latestBuilt snapshot := by
  have h : (Run.exec step (start [{}]) built).any (fun s =>
      s.dependenciesSatisfied { requirements := [latestBuilt] }) = true := by
    decide +kernel
  obtain ⟨s, hrun, hadmitted⟩ := (Option.any_eq_true _ _).mp h
  have hreach : Run.Reachable step (start [{}]) s := Run.exec_reachable hrun
  obtain ⟨chosen, -, hgiven, hall⟩ := admitted_given [{}] hreach .refl { requirements := [latestBuilt] }
  have hchosen := (hall hadmitted latestBuilt List.mem_cons_self rfl).1 rfl
  obtain ⟨i, hi, heq⟩ := List.getElem_of_mem hchosen
  have hi' : i < (s.dependencySnapshots { requirements := [latestBuilt] }).2.length :=
    hgiven.length_eq ▸ hi
  have hfirst : GivenFor s chosen[i] _ := hgiven.get hi hi'
  rw [heq] at hfirst
  exact ⟨s, _, hreach, List.getElem_mem hi', hfirst⟩

/-- A mandatory requirement that only holds the lifetime of a version nobody ever built. -/
def heldMissing : ArtifactRequirement :=
  { key := { primaryID := 1 }, minimumRevision := 1, invalidation := .lifetimeHold }

/-- The requirement does not keep its node waiting, and the build is given nothing for it. -/
theorem admitted_without_lifetime :
    ∃ s node, Run.Reachable step (start [{}]) s ∧ s.nodes.find? {} = some node
      ∧ s.dependenciesSatisfied node = true
      ∧ heldMissing ∈ node.requirements ∧ heldMissing.policy = .allOf
      ∧ (s.dependencySnapshots node).2 = [] := by
  have h : (Run.exec step (start [{}]) ([.registerProducer 0 {},
      .request { key := {}, desiredRevision := 1, requirements := [heldMissing] } false]
        ++ slice [0, 0, 1])).any (fun s => (s.nodes.find? {}).any fun node =>
      s.dependenciesSatisfied node && decide (heldMissing ∈ node.requirements)
        && decide ((s.dependencySnapshots node).2 = [])) = true := by
    decide +kernel
  obtain ⟨s, hrun, hs⟩ := (Option.any_eq_true _ _).mp h
  obtain ⟨node, hfind, hnode⟩ := (Option.any_eq_true _ _).mp hs
  simp only [Bool.and_eq_true, decide_eq_true_eq] at hnode
  exact ⟨s, node, Run.exec_reachable hrun, hfind, hnode.1.1, hnode.1.2, rfl, hnode.2⟩

end ModuleServices.Graph.Proof
