import ModuleServices.Graph.View
import ModuleServices.Graph.Proof.Builds

/-!
# What changes, is marked

`Marked` is what every part of a call does to the published state: it leaves alone what
an unmarked address shows, and it keeps the generations owned, each by one revision of
one address. It composes, so a function is marked when its parts are; the parts that
change a node before they mark it (an install, a replacement, a production) are taken
whole.
-/

namespace ModuleServices.Graph.Proof

open World

/-! ## What an address shows -/

/-- What a reader can see of a node. -/
structure Shown where
  desiredRevision : Nat
  producedRevision : Nat
  versionGeneration : Nat
  state : ArtifactReadiness
  payload : ArtifactPayload
  successors : List (Nat × Nat)

def shownNode (node : Node) : Shown where
  desiredRevision := node.desiredRevision
  producedRevision := node.producedRevision
  versionGeneration := node.versionGeneration
  state := node.state
  payload := node.payload
  successors := node.successors.map fun successor => (successor.revision, successor.generation)

/-- What a reader can see of an archived version. -/
def shownVersion (snapshot : ArtifactSnapshot) : ArtifactReadiness × ArtifactPayload :=
  (snapshot.readiness, snapshot.payload)

/-- An address shows the same in both. -/
structure SameShown (s s' : World) (key : ArtifactKey) : Prop where
  node : (s'.nodes.find? key).map shownNode = (s.nodes.find? key).map shownNode
  versions : ∀ v : VersionID, v.address = key →
    (s'.versions.find? v).map shownVersion = (s.versions.find? v).map shownVersion
  aliases : ∀ v : VersionID, v.address = key →
    s'.generationAliases.find? v = s.generationAliases.find? v

theorem SameShown.refl (s : World) (key : ArtifactKey) : SameShown s s key :=
  ⟨rfl, fun _ _ => rfl, fun _ _ => rfl⟩

theorem SameShown.trans {s s' s'' : World} {key : ArtifactKey} (h : SameShown s s' key)
    (h' : SameShown s' s'' key) : SameShown s s'' key :=
  ⟨h'.node.trans h.node, fun v hv => (h'.versions v hv).trans (h.versions v hv),
    fun v hv => (h'.aliases v hv).trans (h.aliases v hv)⟩

/-! ## Who owns a generation -/

/-- The generations a node speaks of, with their revisions. -/
inductive NodeNames (node : Node) : Nat → Nat → Prop where
  | desired (h : node.desiredRevision ≠ 0) : NodeNames node node.versionGeneration node.desiredRevision
  | produced (h : node.producedRevision ≠ 0) :
      NodeNames node node.versionGeneration node.producedRevision
  | successor {successor : RequestedVersion} (h : successor ∈ node.successors) :
      NodeNames node successor.generation successor.revision

/-- Somewhere the graph or a posted request speaks of a generation as one of a revision. -/
inductive Names (s : World) : Nat → VersionKey → Prop where
  | assigned {v : VersionKey} {generation : Nat} (h : s.versionGenerations.find? v = some generation) :
      Names s generation v
  | reserved {v : VersionKey} {generation : Nat} (h : s.reservedGenerations.find? v = some generation) :
      Names s generation v
  | posted {intent : ArtifactIntent} {coalescible : Bool} {generation : Nat} {lease : Option Nat}
      (h : .request intent coalescible generation lease ∈ s.postedIntents) (hne : generation ≠ 0) :
      Names s generation ⟨intent.key, intent.desiredRevision⟩
  | node {key : ArtifactKey} {node : Node} {generation revision : Nat}
      (hfind : s.nodes.find? key = some node) (h : NodeNames node generation revision) :
      Names s generation ⟨key, revision⟩
  | archived {v : VersionID} {snapshot : ArtifactSnapshot} (h : s.versions.find? v = some snapshot) :
      Names s v.generation ⟨v.address, v.revision⟩
  | predicted {p v : VersionID} (h : s.generationAliases.find? p = some v) :
      Names s p.generation ⟨p.address, p.revision⟩
  | target {p v : VersionID} (h : s.generationAliases.find? p = some v) :
      Names s v.generation ⟨p.address, p.revision⟩

/-- Each generation minted so far belongs to one revision of one address, and the claimed ones to
whom they are claimed for. -/
def Owned (claims : List (Nat × VersionKey)) (s : World) : Prop :=
  ∃ owner : Nat → VersionKey,
    (∀ generation v, Names s generation v →
      generation ≤ s.nextVersionGeneration ∧ owner generation = v)
    ∧ ∀ claim ∈ claims, claim.1 ≤ s.nextVersionGeneration ∧ owner claim.1 = claim.2

/-- An alias stays within its revision. -/
def AliasesKeep (s : World) : Prop :=
  ∀ p v, s.generationAliases.find? p = some v → v.address = p.address ∧ v.revision = p.revision

/-- What nobody wants has no version queued behind it. -/
def Unqueued (s : World) : Prop :=
  ∀ key node, s.nodes.find? key = some node → node.desired = false → node.successors = []

def Keyed (s : World) : Prop := ∀ key node, s.nodes.find? key = some node → node.key = key

/-- Every archived version is filed under its own name. -/
def Filed (s : World) : Prop :=
  ∀ v snapshot, s.versions.find? v = some snapshot → snapshot.version = v

/-- What every part of a call keeps; `claims` are generations a request has been given. -/
structure Kept (claims : List (Nat × VersionKey)) (s s' : World) : Prop where
  readModel : s'.readModel = s.readModel
  dirty : ∀ key ∈ s.dirtyViews, key ∈ s'.dirtyViews
  owned : Owned claims s → Owned claims s'
  aliases : AliasesKeep s → AliasesKeep s'
  unqueued : Unqueued s → Unqueued s'
  keyed : Keyed s → Keyed s'
  filed : Filed s → Filed s'

/-- A part of a call that marks what it changes. -/
structure Marked (claims : List (Nat × VersionKey)) (s s' : World) : Prop
    extends Kept claims s s' where
  shown : ∀ key, key ∉ s'.dirtyViews → SameShown s s' key

variable {claims : List (Nat × VersionKey)} {s s' : World} {key : ArtifactKey}

theorem Kept.refl (s : World) : Kept claims s s := ⟨rfl, fun _ h => h, id, id, id, id, id⟩

theorem Kept.trans {s'' : World} (h : Kept claims s s') (h' : Kept claims s' s'') :
    Kept claims s s'' where
  readModel := h'.readModel.trans h.readModel
  dirty key hmem := h'.dirty key (h.dirty key hmem)
  owned := h'.owned ∘ h.owned
  aliases := h'.aliases ∘ h.aliases
  unqueued := h'.unqueued ∘ h.unqueued
  keyed := h'.keyed ∘ h.keyed
  filed := h'.filed ∘ h.filed

theorem Marked.refl (s : World) : Marked claims s s := ⟨.refl s, fun _ _ => .refl _ _⟩

theorem Marked.trans {s'' : World} (h : Marked claims s s') (h' : Marked claims s' s'') :
    Marked claims s s'' :=
  ⟨h.toKept.trans h'.toKept, fun key hnot =>
    (h.shown key fun hmem => hnot (h'.dirty key hmem)).trans (h'.shown key hnot)⟩

/-- A change at one address that is marked after it. -/
theorem Marked.late {u : World} (key : ArtifactKey) (hkept : Kept claims s u)
    (hother : ∀ k, k ≠ key → SameShown s u k) (h : Marked claims u s')
    (hmarked : key ∈ s'.dirtyViews) : Marked claims s s' :=
  ⟨hkept.trans h.toKept, fun k hnot =>
    (hother k fun heq => hnot (heq ▸ hmarked)).trans (h.shown k hnot)⟩

/-! ## Ownership -/

/-- Nothing is named but what was, or is claimed. -/
theorem Owned.of_names (h : Owned claims s)
    (hnext : s.nextVersionGeneration ≤ s'.nextVersionGeneration)
    (hnames : ∀ generation v, Names s' generation v → Names s generation v
      ∨ (generation, v) ∈ claims) : Owned claims s' := by
  obtain ⟨owner, howner, hclaims⟩ := h
  refine ⟨owner, fun generation v hv => ?_, fun claim hclaim => ?_⟩
  · rcases hnames generation v hv with hold | hclaimed
    · exact ⟨(howner _ _ hold).1.trans hnext, (howner _ _ hold).2⟩
    · exact ⟨(hclaims _ hclaimed).1.trans hnext, (hclaims _ hclaimed).2⟩
  · exact ⟨(hclaims claim hclaim).1.trans hnext, (hclaims claim hclaim).2⟩

/-- One generation is minted, for one revision. -/
theorem Owned.of_minted (v₀ : VersionKey) (h : Owned claims s)
    (hnext : s'.nextVersionGeneration = s.nextVersionGeneration + 1)
    (hnames : ∀ generation v, Names s' generation v → Names s generation v
      ∨ generation = s.nextVersionGeneration + 1 ∧ v = v₀) : Owned claims s' := by
  obtain ⟨owner, howner, hclaims⟩ := h
  refine ⟨fun generation => if generation = s.nextVersionGeneration + 1 then v₀ else owner generation,
    fun generation v hv => ?_, fun claim hclaim => ?_⟩
  · rcases hnames generation v hv with hold | ⟨rfl, rfl⟩
    · obtain ⟨hle, heq⟩ := howner generation v hold
      exact ⟨by omega, (if_neg (by omega)).trans heq⟩
    · exact ⟨hnext.ge, if_pos rfl⟩
  · obtain ⟨hle, heq⟩ := hclaims claim hclaim
    exact ⟨by omega, (if_neg (by omega)).trans heq⟩

/-- A generation two revisions are named with is named with one. -/
theorem Owned.unique (h : Owned claims s) {generation : Nat} {v v' : VersionKey}
    (hv : Names s generation v) (hv' : Names s generation v') : v = v' := by
  obtain ⟨owner, howner, _⟩ := h
  exact (howner _ _ hv).2.symm.trans (howner _ _ hv').2

/-! ## What leaves all of it alone -/

/-- The tables besides the nodes are as they were, and nothing posted is new. -/
structure Beside (s s' : World) : Prop where
  versions : s'.versions = s.versions
  aliases : s'.generationAliases = s.generationAliases
  assigned : s'.versionGenerations = s.versionGenerations
  reserved : s'.reservedGenerations = s.reservedGenerations
  next : s'.nextVersionGeneration = s.nextVersionGeneration
  readModel : s'.readModel = s.readModel
  posted : ∀ intent coalescible generation lease,
    .request intent coalescible generation lease ∈ s'.postedIntents →
      .request intent coalescible generation lease ∈ s.postedIntents ∨ generation = 0

theorem Beside.names (h : Beside s s')
    (hnode : ∀ key node generation revision, s'.nodes.find? key = some node →
      NodeNames node generation revision → Names s generation ⟨key, revision⟩) :
    ∀ generation v, Names s' generation v → Names s generation v := by
  intro generation v hv
  cases hv with
  | assigned hfind => exact .assigned (h.assigned ▸ hfind)
  | reserved hfind => exact .reserved (h.reserved ▸ hfind)
  | posted hmem hne => exact .posted ((h.posted _ _ _ _ hmem).resolve_right hne) hne
  | node hfind hnames => exact hnode _ _ _ _ hfind hnames
  | archived hfind => exact .archived (h.versions ▸ hfind)
  | predicted hfind => exact .predicted (h.aliases ▸ hfind)
  | target hfind => exact .target (h.aliases ▸ hfind)

theorem Marked.of_same (h : Beside s s') (hnodes : s'.nodes = s.nodes)
    (hdirty : s'.dirtyViews = s.dirtyViews) : Marked claims s s' where
  readModel := h.readModel
  dirty _ hmem := hdirty ▸ hmem
  owned howned := howned.of_names h.next.ge fun _ _ hv => .inl (h.names
    (fun _ _ _ _ hfind hnames => .node (hnodes ▸ hfind) hnames) _ _ hv)
  aliases hkeep p v hfind := hkeep p v (h.aliases ▸ hfind)
  unqueued hun key node hfind := hun key node (hnodes ▸ hfind)
  keyed hkeyed key node hfind := hkeyed key node (hnodes ▸ hfind)
  filed hfiled v snapshot hv := hfiled v snapshot (h.versions ▸ hv)
  shown key _ := ⟨by rw [hnodes], fun _ _ => by rw [h.versions], fun _ _ => by rw [h.aliases]⟩

/-- A change of a node that names nothing new. -/
structure NodeKept (node node' : Node) : Prop where
  names : ∀ generation revision, NodeNames node' generation revision →
    NodeNames node generation revision
  unqueued : (node.desired = false → node.successors = []) → node'.desired = false →
    node'.successors = []

theorem Kept.modify_named {f : Node → Node} (h : Beside s s')
    (hnodes : s'.nodes = s.nodes.modify key f) (hdirty : ∀ k ∈ s.dirtyViews, k ∈ s'.dirtyViews)
    (hkey : ∀ node, node.key = key → (f node).key = key)
    (hunqueued : ∀ node, s.nodes.find? key = some node →
      (node.desired = false → node.successors = []) → (f node).desired = false →
        (f node).successors = [])
    (hnames : ∀ node, s.nodes.find? key = some node → ∀ generation revision,
      NodeNames (f node) generation revision → Names s generation ⟨key, revision⟩) :
    Kept claims s s' := by
  have hfind (k : ArtifactKey) (node' : Node) (hnode : s'.nodes.find? k = some node') :
      s.nodes.find? k = some node'
        ∨ k = key ∧ ∃ node, s.nodes.find? key = some node ∧ node' = f node := by
    rw [hnodes, Table.find?_modify] at hnode
    split at hnode
    · obtain ⟨node, hold, rfl⟩ := Option.map_eq_some_iff.mp hnode
      exact .inr ⟨‹_›, node, hold, rfl⟩
    · exact .inl hnode
  exact
    { readModel := h.readModel
      dirty := hdirty
      owned := fun howned => howned.of_names h.next.ge fun _ _ hv => .inl (h.names
        (fun k node' _ _ hnode hnamed => by
          rcases hfind k node' hnode with hold | ⟨rfl, node, hold, rfl⟩
          · exact .node hold hnamed
          · exact hnames node hold _ _ hnamed) _ _ hv)
      aliases := fun hkeep p v hp => hkeep p v (h.aliases ▸ hp)
      unqueued := fun hun k node' hnode => by
        rcases hfind k node' hnode with hold | ⟨rfl, node, hold, rfl⟩
        · exact hun k node' hold
        · exact hunqueued node hold (hun k node hold)
      keyed := fun hkeyed k node' hnode => by
        rcases hfind k node' hnode with hold | ⟨rfl, node, hold, rfl⟩
        · exact hkeyed k node' hold
        · exact hkey node (hkeyed k node hold)
      filed := fun hfiled v snapshot hv => hfiled v snapshot (h.versions ▸ hv) }

theorem Kept.modify {f : Node → Node} (h : Beside s s') (hnodes : s'.nodes = s.nodes.modify key f)
    (hdirty : ∀ k ∈ s.dirtyViews, k ∈ s'.dirtyViews) (hkey : ∀ node, node.key = key → (f node).key = key)
    (hf : ∀ node, s.nodes.find? key = some node → NodeKept node (f node)) : Kept claims s s' :=
  .modify_named h hnodes hdirty hkey (fun node hfind => (hf node hfind).unqueued)
    fun node hfind _ _ hnamed => .node hfind ((hf node hfind).names _ _ hnamed)

/-- A change of one node shows at its address only. -/
theorem sameShown_modify {f : Node → Node} (h : Beside s s')
    (hnodes : s'.nodes = s.nodes.modify key f) {k : ArtifactKey}
    (hk : k = key → ∀ node, s.nodes.find? key = some node → shownNode (f node) = shownNode node) :
    SameShown s s' k where
  node := by
    rw [hnodes, Table.find?_modify]
    split
    · rename_i heq
      subst heq
      cases hfind : s.nodes.find? k with
      | none => rfl
      | some node => exact congrArg some (hk rfl node hfind)
    · rfl
  versions _ _ := by rw [h.versions]
  aliases _ _ := by rw [h.aliases]

theorem Marked.modify {f : Node → Node} (h : Beside s s') (hnodes : s'.nodes = s.nodes.modify key f)
    (hdirty : ∀ k ∈ s.dirtyViews, k ∈ s'.dirtyViews) (hkey : ∀ node, node.key = key → (f node).key = key)
    (hf : ∀ node, s.nodes.find? key = some node → NodeKept node (f node)
      ∧ (key ∉ s'.dirtyViews → shownNode (f node) = shownNode node)) : Marked claims s s' :=
  ⟨.modify h hnodes hdirty hkey fun node hfind => (hf node hfind).1, fun _ hnot =>
    sameShown_modify h hnodes fun heq node hfind => (hf node hfind).2 (heq ▸ hnot)⟩

/-- A change of the fields nobody reads. -/
structure Unseen (node node' : Node) : Prop where
  key : node'.key = node.key
  desired : node'.desired = node.desired
  desiredRevision : node'.desiredRevision = node.desiredRevision
  producedRevision : node'.producedRevision = node.producedRevision
  versionGeneration : node'.versionGeneration = node.versionGeneration
  successors : node'.successors = node.successors

theorem Unseen.kept {node node' : Node} (h : Unseen node node') : NodeKept node node' where
  names generation revision hnames := by
    cases hnames with
    | desired hne =>
      rw [h.desiredRevision] at hne ⊢
      rw [h.versionGeneration]
      exact .desired hne
    | produced hne =>
      rw [h.producedRevision] at hne ⊢
      rw [h.versionGeneration]
      exact .produced hne
    | successor hmem => exact .successor (h.successors ▸ hmem)
  unqueued hun hdesired := h.successors.trans (hun (h.desired.symm.trans hdesired))

/-- One node changes where nobody reads it. -/
theorem Marked.unseen {f : Node → Node} (h : Beside s s') (hnodes : s'.nodes = s.nodes.modify key f)
    (hdirty : s'.dirtyViews = s.dirtyViews) (hf : ∀ node, Unseen node (f node)
      ∧ (f node).state = node.state ∧ (f node).payload = node.payload) : Marked claims s s' :=
  .modify h hnodes (fun _ hmem => hdirty ▸ hmem) (fun node hkey => (hf node).1.key.trans hkey)
    fun node _ => by
    obtain ⟨hun, hstate, hpayload⟩ := hf node
    refine ⟨hun.kept, fun _ => ?_⟩
    unfold shownNode
    rw [hun.desiredRevision, hun.producedRevision, hun.versionGeneration, hun.successors, hstate,
      hpayload]

end ModuleServices.Graph.Proof
