import ModuleServices.Graph.Proof.CallNodes

/-!
# What a request can do

`RequestInternal` refuses, rejects, finds its version already wanted, or accepts, and
an accepted version is queued or takes the address over. `Requested` lists the four
with the states they go through, so that an invariant is shown for each once and the
decisions are not gone through again.
-/

namespace ModuleServices.Graph.Proof

open World

variable (s : World) (a : RequestArgs) (generation : Nat)

/-- A request has its generation and its node. -/
def entered (s : World) (a : RequestArgs) : World := (s.ensureGeneration a).1.ensureNode a.key

/-- The requested version is aliased and leased. -/
def leased (s : World) (a : RequestArgs) (generation : Nat) : World × Nat :=
  ((s.aliasPredicted a.version a.preassignedGeneration generation).registerVersionLease
    ⟨a.key, a.desiredRevision, generation⟩ a.preassignedLease).acquireVersionLease
    ⟨a.key, a.desiredRevision, generation⟩

/-- An accepted version is signed, and the address's newest. -/
def signed (s : World) (a : RequestArgs) : World :=
  ({ s with versionSignatures :=
      if s.versionSignatures.contains a.version then s.versionSignatures
      else s.versionSignatures.insert a.version a.signature }.modifyNode a.key fun node => { node with
    latestRequestedRevision := a.desiredRevision }).markViewDirty a.key

/-- The node a request finds, or a fresh one. -/
def nodeAt (s : World) (key : ArtifactKey) : Node := (s.nodes.find? key).getD {}

/-- An accepted version is queued behind a busy one, or takes the address over. -/
def installing (s : World) (a : RequestArgs) (generation lease : Nat) : World :=
  if (nodeAt s a.key).busy then s.queueSuccessor a (nodeAt s a.key) generation lease
  else s.replaceVersion a (nodeAt s a.key) generation lease

/-- An intent has dropped what it replaces. -/
def superseding (s : World) (a : RequestArgs) (node : Node) : World :=
  if a.coalescibleIntent then s.supersede a.key node else s

/-- The requested version stands at the end of the queue. -/
def appending (s : World) (a : RequestArgs) (generation lease : Nat) : World :=
  (s.modifyNode a.key fun node => { node with
    successors := node.successors ++ [a.asSuccessor generation lease] }).pinSuccessor a.key
    (a.asSuccessor generation lease)

/-- The active version gives way at once. -/
def givesWay (s : World) (a : RequestArgs) (node : Node) : Bool :=
  (a.coalescibleIntent && !node.buildInFlight && s.acceptsIntent a.key node
      && (node.state == .missing || node.state == .blocked || node.state == .queued))
    || (node.state == .uploadSubmitted && !node.buildInFlight)

theorem queueSuccessor_eq (node : Node) (lease : Nat) :
    s.queueSuccessor a node generation lease
      = let s := appending (superseding s a node) a generation lease
        if givesWay s a node then s.promoteSuccessor a.key else s := rfl

theorem acceptRequest_eq : (s.acceptRequest a generation).1
    = installing (signed (leased s a generation).1 a) a generation (leased s a generation).2 := rfl

theorem alreadyDesired_eq : (s.alreadyDesired a generation).1 = (leased s a generation).1 := rfl

theorem rejectRequest_eq (status : ArtifactRequestStatus) (createdHere : Bool) :
    (s.rejectRequest a status generation createdHere).1
      = s.rejectPredicted a.version status a.preassignedGeneration generation a.preassignedLease
        createdHere := rfl

/-- What a request does; `u` is the state it has entered. -/
inductive Requested (s : World) (a : RequestArgs) : World → Prop where
  | refused {status : ArtifactRequestStatus} (hrefusal : a.refusal s = some status) :
      Requested s a s
  | rejected {u : World} {b : RequestArgs} {generation : Nat} {status : ArtifactRequestStatus}
      (hb : b = a.prepare s) (hu : u = entered s b)
      (hrefusal : a.refusal s = none)
      (hgeneration : (s.ensureGeneration b).2 = generation) :
      Requested s a (u.rejectPredicted b.version status b.preassignedGeneration generation
        b.preassignedLease (!s.versionGenerations.contains b.version))
  | already {u : World} {b : RequestArgs} {generation : Nat}
      (hb : b = a.prepare s) (hu : u = entered s b)
      (hrefusal : a.refusal s = none)
      (hgeneration : (s.ensureGeneration b).2 = generation)
      (hknown : u.versionSignatures.find? b.version = some b.signature)
      (hdesired : (nodeAt u b.key).stillDesired b.desiredRevision = true) :
      Requested s a (leased u b generation).1
  | accepted {u v : World} {b : RequestArgs} {generation : Nat}
      (hb : b = a.prepare s) (hu : u = entered s b)
      (hrefusal : a.refusal s = none)
      (hv : v = u ∧ (s.ensureGeneration b).2 = generation
          ∧ u.versionSignatures.find? b.version = none
        ∨ (v, generation) = u.renewGeneration b (s.ensureGeneration b).2
          ∧ u.versionSignatures.find? b.version = some b.signature
          ∧ (nodeAt u b.key).stillDesired b.desiredRevision = false) :
      Requested s a (installing (signed (leased v b generation).1 b) b generation
        (leased v b generation).2)

theorem requestBody_requested : Requested s a (s.requestBody a).1 := by
  unfold requestBody
  split
  · exact .refused ‹_›
  rename_i hrefusal
  simp only
  generalize hb : a.prepare s = b
  cases hgen : s.ensureGeneration b with
  | mk u generation =>
    have hu : u.ensureNode b.key = entered s b := by
      unfold entered
      rw [hgen]
    have hg : (s.ensureGeneration b).2 = generation := by rw [hgen]
    simp only [hu]
    unfold decideRequest
    simp only
    split
    · rename_i known hknown
      split
      · exact .rejected hb.symm rfl hrefusal hg
      · rename_i hsame
        rw [not_not] at hsame
        subst hsame
        split
        · exact .rejected hb.symm rfl hrefusal hg
        · split
          · exact .already hb.symm rfl hrefusal hg hknown ‹_›
          · rename_i hdesired
            cases hrenew : (entered s b).renewGeneration b generation with
            | mk v renewed =>
              exact .accepted hb.symm rfl hrefusal
                (.inr ⟨by rw [hg, hrenew], hknown, eq_false_of_ne_true hdesired⟩)
    · rename_i hnone
      split
      · exact .rejected hb.symm rfl hrefusal hg
      · exact .accepted hb.symm rfl hrefusal (.inl ⟨rfl, hg, hnone⟩)

/-- The log entry of a request. -/
theorem requestInternal_requested :
    ∃ u event, Requested s a u ∧ s.requestInternal a = u.log event :=
  ⟨_, _, requestBody_requested s a, rfl⟩

end ModuleServices.Graph.Proof
