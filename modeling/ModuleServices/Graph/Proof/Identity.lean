import ModuleServices.Graph.Proof.Admission

/-!
# What a version is known by, over every run

Two results about every state a run reaches, whatever is published and however: an address has one
build in flight at most, and it is the build its node waits for; and a version generation belongs
to one revision of one address, wherever the graph speaks of it.
-/

namespace ModuleServices.Graph.Proof

open World

variable {s s' : World}

/-! ## Builds -/

/-- What a build in flight and its node have to do with each other. -/
structure Flown (ticket : Ticket) (node : Node) : Prop where
  flight : node.buildInFlight = true
  state : buildingState node.state = true
  revision : ticket.revision ≠ 0 → node.desiredRevision = ticket.revision
  generation : ticket.revision ≠ 0 → ticket.generation ≤ node.generation
  /-- A build of the node's own generation is still wanted. -/
  wanted : ticket.revision ≠ 0 → ticket.generation = node.generation → node.desired = true

theorem BuildInv.flown (h : BuildInv s) {ticket : Ticket} (hmem : ticket ∈ outstanding s) :
    ∃ node, s.nodes.find? ticket.key = some node ∧ Flown ticket node := by
  obtain ⟨node, hfind, hflight⟩ := h.flight hmem
  have hnode := h.node _ _ hfind
  have hticket (hrevision : ticket.revision ≠ 0) := h.ticket ticket hmem hrevision node hfind
  exact ⟨node, hfind, hflight, hnode.building hflight, fun hrevision => (hticket hrevision).1,
    fun hrevision => (hticket hrevision).2.1, fun hrevision => (hticket hrevision).2.2⟩

/-- A build that is with its producer. -/
def handedTrace : List Action :=
  [.registerProducer 0 {}, .request { key := {}, desiredRevision := 1 } false]
    ++ slice [0, 0, 1, 0, 0, 0, 0, 0, 0, 0, 0, 0, 1, 0, 0, 0, 1]

/-- What the names of versions are worth in a state. -/
structure NameInv (s : World) : Prop extends ArchiveInv s where
  owned : Owned [] s

theorem Does.nameInv {Q : World → Call → Prop} (h : Does Q s s') (hinv : NameInv s) :
    NameInv s' := by
  refine ⟨h.archiveInv hinv.toArchiveInv, ?_⟩
  by_cases hpublish : s' = s.publishDirtyViews
  · exact hpublish ▸ hinv.owned.publish
  · obtain h | ⟨requested, rfl⟩ := h.marksPublication
    · exact (h.marked hinv.builds hinv.aliases hinv.unqueued hpublish).owned hinv.owned
    · exact (markPublishedLocked_kept hinv.keyed requested).owned hinv.owned

theorem name_reachable {policies : List ArtifactKindPolicy}
    (h : Run.Reachable step (start policies) s) : NameInv s := by
  have hinit : NameInv (start policies) :=
    ⟨archive_reachable .start, (start_viewInv policies).owned⟩
  have hwithin : Run.Within step (CallsMeet fun _ _ => True) (start policies) s :=
    h.mono fun _ _ _ _ _ => trivial
  exact within_invariant hinit Does.nameInv hwithin

/-- **A generation is of one revision.** In every state a run reaches a generation that the graph
assigned, reserved, posted, builds, queues, stores or redirects is of one revision of one address;
none is above the counter that gave it; a redirection stays within its revision; and what is stored
is filed under its own name. -/
theorem generation_of_one_revision {policies : List ArtifactKindPolicy}
    (h : Run.Reachable step (start policies) s) :
    (∀ generation v v', Names s generation v → Names s generation v' → v = v')
      ∧ (∀ generation v, Names s generation v → generation ≤ s.nextVersionGeneration)
      ∧ AliasesKeep s ∧ Filed s := by
  have hinv := name_reachable h
  obtain ⟨owner, howner, _⟩ := id hinv.owned
  exact ⟨fun _ _ _ => hinv.owned.unique, fun generation v hv => (howner generation v hv).1,
    hinv.aliases, hinv.filed⟩

/-- The version being built, named by its node and by the table of generations. -/
theorem generation_of_one_revision_handed :
    ∃ s, Run.Reachable step (start [{}]) s ∧ Names s 1 ⟨{}, 1⟩ ∧ 1 ≤ s.nextVersionGeneration := by
  have h : (Run.exec step (start [{}]) handedTrace).any (fun s =>
      decide (s.versionGenerations.find? ⟨{}, 1⟩ = some 1)) = true := by
    decide +kernel
  obtain ⟨s, hrun, hs⟩ := (Option.any_eq_true _ _).mp h
  have hreachable := Run.exec_reachable hrun
  have hnames : Names s 1 ⟨{}, 1⟩ := .assigned (of_decide_eq_true hs)
  exact ⟨s, hreachable, hnames, (generation_of_one_revision hreachable).2.1 1 _ hnames⟩

end ModuleServices.Graph.Proof
