import ModuleServices.Graph.Proof.Requests
import ModuleServices.Lib.Run

/-!
# What a rejected request leaves behind

A request is judged after its generation and its node have been looked up or made, and
after the address has been set desired. What a rejection takes back is the generation of
a posted prediction and nothing else, so the tables come out as they went in only when
there was nothing to make.
-/

namespace ModuleServices.Graph.Proof

open World

variable (s : World) (a : RequestArgs) (generation : Nat)

/-- The answers that turn a request away. -/
def Rejected : ArtifactRequestStatus → Prop
  | .staleRevision | .conflictingRevision | .typeMismatch | .missingFingerprint => True
  | .accepted | .alreadyDesired => False

instance : DecidablePred Rejected := fun status => by
  cases status <;> first | exact isTrue trivial | exact isFalse id

/-- The version a posted request was predicted to be. -/
def predicted (a : RequestArgs) : VersionID := ⟨a.key, a.desiredRevision, a.preassignedGeneration⟩

/-- Nodes, counts, archive, generations and signatures read as before; only a posted prediction may
have been archived. -/
structure Unchanged (a : RequestArgs) (s s' : World) : Prop where
  nodes : ∀ key, s'.nodes.find? key = s.nodes.find? key
  outstanding : s'.outstandingByKind = s.outstandingByKind
  versions : ∀ v, a.preassignedGeneration ≠ 0 ∧ v = predicted a
    ∨ s'.versions.find? v = s.versions.find? v
  generations : ∀ v, s'.versionGenerations.find? v = s.versionGenerations.find? v
  signatures : ∀ v, s'.versionSignatures.find? v = s.versionSignatures.find? v

theorem Unchanged.refl : Unchanged a s s :=
  ⟨fun _ => rfl, rfl, fun _ => .inr rfl, fun _ => rfl, fun _ => rfl⟩

/-- The address is wanted already. -/
def wanted (s : World) (key : ArtifactKey) : Bool :=
  (s.nodes.find? key).any fun node => node.key = key && node.desired

/-- The revision has a generation, or the request brought one that a rejection takes back. -/
def numbered (s : World) (a : RequestArgs) : Bool :=
  s.versionGenerations.contains a.version || a.preassignedGeneration != 0

/-! ## The rejected request in its parts -/

/-- A request that is turned away after admission ends in `rejectPredicted`. -/
theorem decideRequest_rejected (createdHere : Bool)
    (h : Rejected (s.decideRequest a generation createdHere).2.status) :
    ∃ status, (s.decideRequest a generation createdHere).1
      = s.rejectPredicted a.version status a.preassignedGeneration generation a.preassignedLease
        createdHere := by
  unfold decideRequest at h ⊢
  simp only at h ⊢
  split
  · rename_i known hknown
    rw [hknown] at h
    simp only at h
    split
    · exact ⟨_, rejectRequest_eq ..⟩
    · rw [if_neg ‹_›] at h
      split
      · exact ⟨_, rejectRequest_eq ..⟩
      · rw [if_neg ‹_›] at h
        split
        · rw [if_pos ‹_›] at h
          exact h.elim
        · rw [if_neg ‹_›] at h
          exact h.elim
  · rename_i hnone
    rw [hnone] at h
    simp only at h
    split
    · exact ⟨_, rejectRequest_eq ..⟩
    · rw [if_neg ‹_›] at h
      exact h.elim

theorem requestBody_rejected (hrefusal : a.refusal s = none)
    (h : Rejected (s.requestBody a).2.status) :
    ∃ status, (s.requestBody a).1
      = (entered s (a.prepare s)).rejectPredicted a.version status a.preassignedGeneration
        (s.ensureGeneration (a.prepare s)).2 a.preassignedLease
        (!s.versionGenerations.contains a.version) := by
  unfold requestBody at h ⊢
  rw [hrefusal] at h ⊢
  exact decideRequest_rejected _ _ _ _ h

/-! ## What `rejectPredicted` writes -/

variable (v : VersionKey) (status : ArtifactRequestStatus) (preassigned : Nat) (lease : Option Nat)
  (createdHere : Bool)

@[simp] theorem rejectPredicted_nodes :
    (s.rejectPredicted v status preassigned generation lease createdHere).nodes = s.nodes := by
  unfold rejectPredicted
  split
  · rfl
  · split <;> rfl

@[simp] theorem rejectPredicted_outstanding :
    (s.rejectPredicted v status preassigned generation lease createdHere).outstandingByKind
      = s.outstandingByKind := by
  unfold rejectPredicted
  split
  · rfl
  · split <;> rfl

@[simp] theorem rejectPredicted_signatures :
    (s.rejectPredicted v status preassigned generation lease createdHere).versionSignatures
      = s.versionSignatures := by
  unfold rejectPredicted
  split
  · rfl
  · split <;> rfl

/-- Only the prediction is archived. -/
theorem rejectPredicted_versions (w : VersionID) :
    preassigned ≠ 0 ∧ w = ⟨v.address, v.revision, preassigned⟩
      ∨ (s.rejectPredicted v status preassigned generation lease createdHere).versions.find? w
        = s.versions.find? w := by
  by_cases hw : w = ⟨v.address, v.revision, preassigned⟩
  · by_cases hzero : preassigned = 0
    · unfold rejectPredicted
      rw [if_pos (.inl hzero)]
      exact .inr rfl
    · exact .inl ⟨hzero, hw⟩
  · refine .inr ?_
    have hstore : ((s.versions.insert ⟨v.address, v.revision, preassigned⟩
        { key := v.address, revision := v.revision, generation := preassigned
          readiness := .failed }).find? w) = s.versions.find? w := by
      rw [Table.find?_insert, if_neg hw]
    unfold rejectPredicted
    split
    · rfl
    · split <;> exact hstore

/-- A generation made for the request is taken back with a prediction, and only then. -/
theorem rejectPredicted_generations :
    (s.rejectPredicted v status preassigned generation lease createdHere).versionGenerations
      = if preassigned ≠ 0 ∧ createdHere = true then s.versionGenerations.erase v
        else s.versionGenerations := by
  unfold rejectPredicted
  by_cases hzero : preassigned = 0
  · rw [if_pos (.inl hzero), if_neg (not_and_of_not_left _ (not_not.mpr hzero))]
  · cases createdHere
    · rw [if_neg (show ¬(preassigned ≠ 0 ∧ false = true) from nofun)]
      split
      · rfl
      · rw [if_neg Bool.false_ne_true]
        rfl
    · have hstored : ¬(preassigned = 0 ∨ true = false ∧ preassigned = generation) := by simp [hzero]
      rw [if_neg hstored, if_pos rfl]
      exact (if_pos ⟨hzero, rfl⟩).symm

/-! ## What entering writes -/

/-- The generation made for a revision that has none. -/
theorem ensureGeneration_generations :
    (s.ensureGeneration a).1.versionGenerations
      = if s.versionGenerations.contains a.version then s.versionGenerations
        else s.versionGenerations.insert a.version (s.ensureGeneration a).2 := by
  unfold ensureGeneration
  cases h : s.versionGenerations.find? a.version with
  | some generation => simp [Table.contains, h]
  | none =>
    simp only [Table.contains, h, Option.isSome_none, Bool.false_eq_true, if_false]
    unfold reserveGeneration
    split
    · rfl
    · split <;> rfl

/-- Everything else but the reservation stays. -/
theorem ensureGeneration_others :
    (s.ensureGeneration a).1.nodes = s.nodes
      ∧ (s.ensureGeneration a).1.outstandingByKind = s.outstandingByKind
      ∧ (s.ensureGeneration a).1.versions = s.versions
      ∧ (s.ensureGeneration a).1.versionSignatures = s.versionSignatures := by
  unfold ensureGeneration reserveGeneration
  cases s.versionGenerations.find? a.version with
  | some generation => exact ⟨rfl, rfl, rfl, rfl⟩
  | none =>
    by_cases hposted : a.preassignedGeneration ≠ 0
    · simp only [if_pos hposted, and_self]
    · simp only [if_neg hposted]
      cases s.reservedGenerations.find? a.version <;> exact ⟨rfl, rfl, rfl, rfl⟩

theorem ensureNode_others (key : ArtifactKey) :
    (s.ensureNode key).versions = s.versions
      ∧ (s.ensureNode key).versionGenerations = s.versionGenerations
      ∧ (s.ensureNode key).versionSignatures = s.versionSignatures := by
  unfold ensureNode
  split <;> exact ⟨rfl, rfl, rfl⟩

/-- The address has a desired node afterwards. -/
theorem ensureNode_find (key : ArtifactKey) :
    ∃ node, (s.ensureNode key).nodes.find? key = some node ∧ node.key = key
      ∧ node.desired = true := by
  unfold ensureNode
  cases hfind : s.nodes.find? key with
  | some node =>
    simp only [setDesired_nodes, modifyNode_nodes, Table.find?_modify, if_true, hfind]
    exact ⟨_, rfl, rfl, rfl⟩
  | none =>
    simp only [setDesired_nodes, Table.find?_modify, Table.find?_insert, if_true]
    exact ⟨_, rfl, rfl, rfl⟩

theorem recount_same (counts : Nat → Nat) (index limit : Nat) (counted : Bool) :
    recount counts index limit counted counted = counts := by
  funext i
  unfold recount
  cases counted <;> simp

/-- A wanted address is entered without a trace. -/
theorem ensureNode_wanted {key : ArtifactKey} (h : wanted s key = true) :
    (∀ k, (s.ensureNode key).nodes.find? k = s.nodes.find? k)
      ∧ (s.ensureNode key).outstandingByKind = s.outstandingByKind := by
  obtain ⟨node, hfind, hnode⟩ := (Option.any_eq_true _ _).mp h
  rw [Bool.and_eq_true, decide_eq_true_eq] at hnode
  obtain ⟨rfl, hdesired⟩ := hnode
  unfold ensureNode
  rw [hfind]
  constructor
  · intro k
    simp only [setDesired_nodes, modifyNode_nodes, Table.find?_modify, if_true, hfind]
    split
    · subst k
      rw [hfind, ← hdesired]
      rfl
    · rfl
  · simp only [setDesired, modifyNode, Table.find?_modify, if_true, hfind, Option.map_some,
      Option.elim, hdesired]
    exact recount_same _ _ _ _

/-! ## When nothing is left behind -/

/-- What a rejected request that got as far as its address leaves. -/
theorem entered_rejected_unchanged_iff (status : ArtifactRequestStatus) :
    Unchanged a s ((entered s (a.prepare s)).rejectPredicted a.version status
        a.preassignedGeneration (s.ensureGeneration (a.prepare s)).2 a.preassignedLease
        (!s.versionGenerations.contains a.version))
      ↔ wanted s a.key = true ∧ numbered s a = true := by
  obtain ⟨hnodes, houtstanding, hversions, hsignatures⟩ :=
    ensureGeneration_others s (a.prepare s)
  obtain ⟨hversions', hgenerations', hsignatures'⟩ :=
    ensureNode_others (s.ensureGeneration (a.prepare s)).1 a.key
  have hgenerations := ensureGeneration_generations s (a.prepare s)
  change _ = if s.versionGenerations.contains a.version = true then _
    else s.versionGenerations.insert a.version _ at hgenerations
  have hentered : entered s (a.prepare s)
    = (s.ensureGeneration (a.prepare s)).1.ensureNode a.key := rfl
  constructor
  · intro h
    refine ⟨?_, ?_⟩
    · obtain ⟨node, hfind, hkey, hdesired⟩ :=
        ensureNode_find (s.ensureGeneration (a.prepare s)).1 a.key
      have hnode := h.nodes a.key
      rw [rejectPredicted_nodes, hentered, hfind] at hnode
      unfold wanted
      rw [← hnode, Option.any_some, hkey, hdesired]
      simp
    · by_contra hnumbered
      unfold numbered at hnumbered
      rw [Bool.or_eq_true, not_or, bne_iff_ne, not_not] at hnumbered
      obtain ⟨hnone, hzero⟩ := hnumbered
      have hgeneration := h.generations a.version
      rw [rejectPredicted_generations, hzero, if_neg fun h => h.1 rfl, hentered, hgenerations',
        hgenerations, if_neg hnone, Table.find?_insert, if_pos rfl] at hgeneration
      exact hnone ((Table.contains_iff _ _).mpr ⟨_, hgeneration.symm⟩)
  · rintro ⟨hwanted, hnumbered⟩
    have hwanted' : wanted (s.ensureGeneration (a.prepare s)).1 a.key = true := by
      unfold wanted at hwanted ⊢
      rwa [hnodes]
    obtain ⟨hkept, hcounts⟩ := ensureNode_wanted _ hwanted'
    refine ⟨fun key => ?_, ?_, fun v => ?_, fun v => ?_, fun v => ?_⟩
    · rw [rejectPredicted_nodes, hentered, hkept, hnodes]
    · rw [rejectPredicted_outstanding, hentered, hcounts, houtstanding]
    · rcases rejectPredicted_versions (entered s (a.prepare s)) (s.ensureGeneration (a.prepare s)).2
        a.version status a.preassignedGeneration a.preassignedLease
        (!s.versionGenerations.contains a.version) v with hpredicted | hsame
      · exact .inl hpredicted
      · refine .inr ?_
        rw [hsame, hentered, hversions', hversions]
    · rw [rejectPredicted_generations, hentered, hgenerations', hgenerations]
      cases hknown : s.versionGenerations.contains a.version with
      | true => rw [if_neg (by simp), if_pos rfl]
      | false =>
        have hposted : a.preassignedGeneration ≠ 0 := by
          unfold numbered at hnumbered
          rw [hknown, Bool.false_or, bne_iff_ne] at hnumbered
          exact hnumbered
        have hnone : s.versionGenerations.find? a.version = none := by
          rw [← Option.not_isSome_iff_eq_none]
          exact Bool.eq_false_iff.mp hknown
        rw [if_pos ⟨hposted, rfl⟩, if_neg Bool.false_ne_true, Table.find?_erase]
        split
        · subst v
          exact hnone.symm
        · rw [Table.find?_insert, if_neg ‹_›]
    · rw [rejectPredicted_signatures, hentered, hsignatures', hsignatures]

/-- A request refused before it is queued leaves no trace at all. -/
theorem refused_at_once {intent : ArtifactIntent} {coalescible : Bool}
    {status : ArtifactRequestStatus} (h : (ofIntent intent coalescible).refusal s = some status) :
    Unchanged (ofIntent intent coalescible) s (s.postRequest intent coalescible) := by
  unfold postRequest
  simp only [h]
  exact ⟨fun _ => rfl, rfl, fun _ => .inr rfl, fun _ => rfl, fun _ => rfl⟩

/-- **A rejected request leaves the tables alone exactly when there was nothing to make**: it was
refused before admission, or its address was wanted and its revision numbered. -/
theorem rejected_unchanged_iff (h : Rejected (s.requestBody a).2.status) :
    Unchanged a s (s.requestInternal a)
      ↔ (a.refusal s).isSome = true ∨ wanted s a.key = true ∧ numbered s a = true := by
  have hlog : Unchanged a s (s.requestInternal a) ↔ Unchanged a s (s.requestBody a).1 :=
    ⟨fun h => ⟨h.nodes, h.outstanding, h.versions, h.generations, h.signatures⟩,
      fun h => ⟨h.nodes, h.outstanding, h.versions, h.generations, h.signatures⟩⟩
  rw [hlog]
  cases hrefusal : a.refusal s with
  | some status =>
    have hbody : (s.requestBody a).1 = s := by
      unfold requestBody
      rw [hrefusal]
    rw [hbody]
    exact iff_of_true (.refl s a) (.inl rfl)
  | none =>
    obtain ⟨status, heq⟩ := requestBody_rejected s a hrefusal h
    rw [heq, entered_rejected_unchanged_iff]
    simp

/-- Revision 5 under another recipe, of the address `{}`. -/
def conflicting : RequestArgs := { key := {}, desiredRevision := 5, requestFingerprint := 2 }

/-- Revision 5 is requested, with or without a release after it, and then `conflicting` stands at the
head of the queue. -/
def conflictTrace (released : List Mutation) : List Action :=
  .request { key := {}, desiredRevision := 5, requestFingerprint := 1 } false
    :: released.map .mutate
    ++ [.request { key := {}, desiredRevision := 5, requestFingerprint := 2 } false,
      .drain, .leave, .leave, .item]
    ++ released.map fun _ => .item

/-- A revision conflicts while its address is still wanted: nothing changes. -/
theorem rejected_unchanged_conflict :
    ∃ s, Run.Reachable step (start [{}]) s ∧ Rejected (s.requestBody conflicting).2.status
      ∧ Unchanged conflicting s (s.requestInternal conflicting) := by
  have h : (Run.exec step (start [{}]) (conflictTrace [])).any (fun s =>
      decide (Rejected (s.requestBody conflicting).2.status) && wanted s conflicting.key
        && numbered s conflicting) = true := by
    decide +kernel
  obtain ⟨s, hrun, hs⟩ := (Option.any_eq_true _ _).mp h
  simp only [Bool.and_eq_true, decide_eq_true_eq] at hs
  exact ⟨s, Run.exec_reachable hrun, hs.1.1,
    (rejected_unchanged_iff s conflicting hs.1.1).mpr (.inr ⟨hs.1.2, hs.2⟩)⟩

/-- The address of a released revision is made again, and set desired, by a request that conflicts
with it. -/
theorem conflict_revives_released :
    ∃ s u, Run.Reachable step (start [{}]) s ∧ (u, Call.request conflicting) ∈ calls s .item
      ∧ Rejected (u.requestBody conflicting).2.status
      ∧ ¬Unchanged conflicting u (u.requestInternal conflicting) := by
  have h : (Run.exec step (start [{}]) (conflictTrace [.release [{}]])).any (fun s =>
      (calls s .item).any fun entry => entry.2 = .request conflicting
        && decide (Rejected (entry.1.requestBody conflicting).2.status)
        && (entry.1.outstandingByKind 0
          != (entry.1.requestInternal conflicting).outstandingByKind 0)) = true := by
    decide +kernel
  obtain ⟨s, hrun, hs⟩ := (Option.any_eq_true _ _).mp h
  obtain ⟨⟨u, call⟩, hmem, hu⟩ := List.any_eq_true.mp hs
  simp only [Bool.and_eq_true, decide_eq_true_eq, bne_iff_ne] at hu
  obtain ⟨⟨rfl, hrejected⟩, houtstanding⟩ := hu
  refine ⟨s, u, Run.exec_reachable hrun, hmem, hrejected, fun h => ?_⟩
  rw [h.outstanding] at houtstanding
  exact houtstanding rfl

end ModuleServices.Graph.Proof
