import ModuleServices.Graph.Proof.Requests

/-!
# One build of an address at a time

A build in flight is in exactly one place: among the slice's builds, with its producer,
with its acceptance action or among the completions. `BuildInv` says that an address has
one exactly while its node says so, that a build of a revision is of the one its node
still desires, that it was started under a generation the node has not gone back behind,
and that one of the node's own generation is still wanted. Revision 0 is what a node
without a version has: a request takes such a node over even while it builds.

Most functions are `Gentle`: they leave the builds alone, and change a node that is
building in ways `BuildInv` does not mind.
-/

namespace ModuleServices.Graph.Proof

open World

/-- The identity a build is judged by when it comes back. -/
structure Ticket where
  key : ArtifactKey
  revision : Nat
  generation : Nat
  deriving DecidableEq

def contextTicket (c : BuildContext) : Ticket := ⟨c.key, c.revision, c.generation⟩
def completionTicket (c : Completion) : Ticket := ⟨c.key, c.revision, c.generation⟩

/-- Every build that has started and not been applied. -/
def outstanding (s : World) : List Ticket :=
  (s.slice.builds ++ s.running).map contextTicket
    ++ (s.completions ++ s.slice.readyCompletions).map completionTicket
    ++ (s.acceptances ++ s.slice.acceptanceDispatches).map fun d => completionTicket d.completion

/-- How many of them are of an address. -/
def building (s : World) (key : ArtifactKey) : Nat :=
  (outstanding s).countP fun ticket => ticket.key == key

/-- The states of a node while it builds; one taken over while it built revision 0 is missing. -/
def buildingState : ArtifactReadiness → Bool
  | .missing | .preparing | .cancelled | .failed => true
  | _ => false

/-- What holds of every node by itself. -/
structure NodeInv (key : ArtifactKey) (node : Node) : Prop where
  key : node.key = key
  building : node.buildInFlight = true → buildingState node.state = true
  queued : node.state = .queued → node.desired = true

structure BuildInv (s : World) : Prop where
  node : ∀ key node, s.nodes.find? key = some node → NodeInv key node
  count : ∀ key, building s key
    = (s.nodes.find? key).elim 0 fun node => if node.buildInFlight then 1 else 0
  ticket : ∀ ticket ∈ outstanding s, ticket.revision ≠ 0 →
    ∀ node, s.nodes.find? ticket.key = some node → node.desiredRevision = ticket.revision
      ∧ ticket.generation ≤ node.generation
      ∧ (ticket.generation = node.generation → node.desired = true)

/-- A change of a node that its build survives. -/
structure Tame (node node' : Node) : Prop where
  key : node'.key = node.key
  flight : node'.buildInFlight = node.buildInFlight
  revision : node.buildInFlight = true → node.desiredRevision ≠ 0 →
    node'.desiredRevision = node.desiredRevision
  generation : node.buildInFlight = true → node.desiredRevision ≠ 0 →
    node.generation < node'.generation
      ∨ node.generation = node'.generation ∧ (node.desired = true → node'.desired = true)
  state : (node.buildInFlight = true → buildingState node.state = true) →
    node'.buildInFlight = true → buildingState node'.state = true
  queued : (node.state = .queued → node.desired = true) →
    node'.state = .queued → node'.desired = true

theorem Tame.refl (node : Node) : Tame node node where
  key := rfl
  flight := rfl
  revision _ _ := rfl
  generation _ _ := .inr ⟨rfl, id⟩
  state h := h
  queued h := h

theorem Tame.trans {a b c : Node} (h : Tame a b) (h' : Tame b c) : Tame a c where
  key := h'.key.trans h.key
  flight := h'.flight.trans h.flight
  revision hf hr := by
    have hsame := h.revision hf hr
    exact (h'.revision (h.flight.trans hf) (hsame ▸ hr)).trans hsame
  generation hf hr := by
    rcases h.generation hf hr with hlt | ⟨heq, hd⟩ <;>
      rcases h'.generation (h.flight.trans hf) (h.revision hf hr ▸ hr) with hlt' | ⟨heq', hd'⟩
    · exact .inl (hlt.trans hlt')
    · exact .inl (heq' ▸ hlt)
    · exact .inl (heq ▸ hlt')
    · exact .inr ⟨heq.trans heq', hd' ∘ hd⟩
  state hs := h'.state (h.state hs)
  queued hq := h'.queued (h.queued hq)

theorem Tame.nodeInv {key : ArtifactKey} {a b : Node} (h : Tame a b) (ha : NodeInv key a) :
    NodeInv key b :=
  ⟨h.key.trans ha.key, h.state ha.building, h.queued ha.queued⟩

/-- No build of the address is in flight. -/
def Idle (s : World) (key : ArtifactKey) : Prop :=
  ∀ node, s.nodes.find? key = some node → node.buildInFlight = false

/-- The builds are left alone, and every node that builds changes tamely. -/
structure Gentle (s s' : World) : Prop where
  out : (outstanding s').Perm (outstanding s)
  node : ∀ key node', s'.nodes.find? key = some node' →
    (∃ node, s.nodes.find? key = some node ∧ Tame node node')
      ∨ Idle s key ∧ node'.buildInFlight = false ∧ NodeInv key node'
  kept : ∀ key node, s.nodes.find? key = some node → node.buildInFlight = true →
    ∃ node', s'.nodes.find? key = some node'

variable {s s' : World} {key : ArtifactKey}

theorem Gentle.trans {s'' : World} (h : Gentle s s') (h' : Gentle s' s'') : Gentle s s'' where
  out := h'.out.trans h.out
  node key node'' hfind := by
    rcases h'.node key node'' hfind with ⟨node', hfind', ht'⟩ | ⟨hidle, hnew⟩
    · rcases h.node key node' hfind' with ⟨node, hfind, ht⟩ | ⟨hidle, hflight, hinv⟩
      · exact .inl ⟨node, hfind, ht.trans ht'⟩
      · exact .inr ⟨hidle, ht'.flight.trans hflight, ht'.nodeInv hinv⟩
    · refine .inr ⟨fun node hfind₀ => ?_, hnew⟩
      by_contra hf
      obtain ⟨node', hfind'⟩ := h.kept key node hfind₀ (eq_true_of_ne_false hf)
      rcases h.node key node' hfind' with ⟨node₀, hfind₁, ht⟩ | ⟨hidle₀, _⟩
      · rw [hfind₀] at hfind₁
        cases hfind₁
        exact hf (ht.flight.symm.trans (hidle node' hfind'))
      · exact hf (hidle₀ node hfind₀)
  kept key node hfind hf := by
    obtain ⟨node', hfind'⟩ := h.kept key node hfind hf
    rcases h.node key node' hfind' with ⟨node₀, hfind₀, ht⟩ | ⟨hidle, _⟩
    · rw [hfind] at hfind₀
      cases hfind₀
      exact h'.kept key node' hfind' (ht.flight.trans hf)
    · rw [hidle node hfind] at hf
      cases hf

/-- The queues a build goes through are as they were. -/
structure SameBuilds (s s' : World) : Prop where
  builds : s'.slice.builds = s.slice.builds
  running : s'.running = s.running
  completions : s'.completions = s.completions
  ready : s'.slice.readyCompletions = s.slice.readyCompletions
  acceptances : s'.acceptances = s.acceptances
  dispatches : s'.slice.acceptanceDispatches = s.slice.acceptanceDispatches

theorem SameBuilds.outstanding (h : SameBuilds s s') : outstanding s' = outstanding s := by
  unfold Proof.outstanding
  rw [h.builds, h.running, h.completions, h.ready, h.acceptances, h.dispatches]

/-- Builds and nodes are as they were. -/
theorem Gentle.of_eq (hout : SameBuilds s s') (hnodes : s'.nodes = s.nodes) : Gentle s s' where
  out := hout.outstanding ▸ .refl _
  node key node' hfind := .inl ⟨node', hnodes ▸ hfind, .refl _⟩
  kept key node hfind _ := ⟨node, hnodes ▸ hfind⟩

theorem SameBuilds.refl (s : World) : SameBuilds s s := ⟨rfl, rfl, rfl, rfl, rfl, rfl⟩

theorem SameBuilds.trans {s'' : World} (h : SameBuilds s s') (h' : SameBuilds s' s'') :
    SameBuilds s s'' :=
  ⟨h'.builds.trans h.builds, h'.running.trans h.running, h'.completions.trans h.completions,
    h'.ready.trans h.ready, h'.acceptances.trans h.acceptances, h'.dispatches.trans h.dispatches⟩

theorem Gentle.refl (s : World) : Gentle s s := .of_eq (.refl s) rfl

/-- Only builds move, from one place to another. -/
theorem Gentle.of_perm (hout : (outstanding s').Perm (outstanding s))
    (hnodes : s'.nodes = s.nodes) : Gentle s s' where
  out := hout
  node key node' hfind := .inl ⟨node', hnodes ▸ hfind, .refl _⟩
  kept key node hfind _ := ⟨node, hnodes ▸ hfind⟩

/-- One node changes. -/
theorem Gentle.modify {f : Node → Node} (hout : SameBuilds s s')
    (hnodes : s'.nodes = s.nodes.modify key f)
    (hf : ∀ node, s.nodes.find? key = some node → Tame node (f node)) : Gentle s s' where
  out := hout.outstanding ▸ .refl _
  node k node' hfind := by
    rw [hnodes, Table.find?_modify] at hfind
    split at hfind
    · subst k
      obtain ⟨node, hfind₀, rfl⟩ := Option.map_eq_some_iff.mp hfind
      exact .inl ⟨node, hfind₀, hf node hfind₀⟩
    · exact .inl ⟨node', hfind, .refl _⟩
  kept k node hfind _ := by
    rw [hnodes, Table.find?_modify]
    split
    · subst k
      exact ⟨f node, by rw [hfind]; rfl⟩
    · exact ⟨node, hfind⟩

/-- A change that touches nothing a build is judged by. -/
theorem Tame.of_eq {node node' : Node} (hkey : node'.key = node.key)
    (hflight : node'.buildInFlight = node.buildInFlight)
    (hrevision : node'.desiredRevision = node.desiredRevision)
    (hgeneration : node'.generation = node.generation) (hdesired : node'.desired = node.desired)
    (hstate : node'.state = node.state) : Tame node node' where
  key := hkey
  flight := hflight
  revision _ _ := hrevision
  generation _ _ := .inr ⟨hgeneration.symm, fun h => hdesired.trans h⟩
  state h hf := hstate ▸ h (hflight ▸ hf)
  queued h hq := hdesired.trans (h (hstate ▸ hq))

/-- A node that is not building may change freely, but for a queue entry nobody wants. -/
theorem Tame.of_idle {node node' : Node} (hkey : node'.key = node.key)
    (hidle : node.buildInFlight = false) (hflight : node'.buildInFlight = false)
    (hqueued : node'.state = .queued → node'.desired = true) : Tame node node' where
  key := hkey
  flight := hflight.trans hidle.symm
  revision hf := absurd hf (by simp [hidle])
  generation hf := absurd hf (by simp [hidle])
  state _ hf := absurd hf (by simp [hflight])
  queued _ := hqueued

/-! ## The moves are gentle -/

theorem settled_false {node : Node} (h : node.settled = false) :
    node.desired = true ∧ node.terminalFailure = false ∧ node.buildInFlight = false
      ∧ node.state ≠ .queued
      ∧ (node.state = .cpuReady → node.waitingGpuSubmissions = none)
      ∧ node.state ≠ .uploadSubmitted
      ∧ (node.producedRevision = node.desiredRevision →
        node.state ≠ .gpuReady ∧ node.state ≠ .published) := by
  simp only [Node.settled, Bool.or_eq_false_iff, Bool.not_eq_false', Bool.and_eq_false_iff,
    beq_eq_false_iff_ne, ne_eq, Option.isSome_eq_false_iff, Option.isNone_iff_eq_none] at h
  obtain ⟨⟨⟨⟨⟨⟨hd, ht⟩, hf⟩, hq⟩, hc⟩, hu⟩, hp⟩ := h
  refine ⟨hd, ht, hf, hq, fun hs => hc.resolve_left (not_not.mpr hs), hu, fun he => ?_⟩
  exact hp.resolve_left (not_not.mpr he)

theorem Judged.tame {node node' : Node} (h : Judged s node node')
    (hsettled : node.settled = false) : Tame node node' := by
  obtain ⟨hd, _, hf, _⟩ := settled_false hsettled
  cases h with
  | queued => exact .of_idle rfl hf hf fun _ => hd
  | blocked => exact .of_idle rfl hf hf nofun
  | failed => exact .of_idle rfl hf hf nofun

theorem queueNode_builds (s : World) (key : ArtifactKey) : SameBuilds s (s.queueNode key) := by
  rcases queueNode_cases s key with heq | ⟨_, _, _, ⟨heq, _⟩ | ⟨_, _, heq⟩ | ⟨heq, _⟩⟩ <;>
    rw [heq] <;> exact ⟨rfl, rfl, rfl, rfl, rfl, rfl⟩

theorem queueNode_gentle (s : World) (key : ArtifactKey) : Gentle s (s.queueNode key) where
  out := (queueNode_builds s key).outstanding ▸ .refl _
  node k node' hfind := by
    rcases queueNode_find hfind with hsame | ⟨rfl, node, hfind₀, hsettled, hjudged⟩
    · exact .inl ⟨node', hsame, .refl _⟩
    · exact .inl ⟨node, hfind₀, hjudged.tame hsettled⟩
  kept k node hfind _ := by
    rw [← Option.isSome_iff_exists, queueNode_isSome, hfind]
    rfl

theorem installSuccessor_builds (s : World) (key : ArtifactKey) (node : Node)
    (successor : RequestedVersion) (successors : List RequestedVersion) :
    SameBuilds s (s.installSuccessor key node successor successors) := by
  constructor <;>
    dsimp only [installSuccessor, setState, queueReclaim, installWaiterEdges, freshFlag, modifyNode,
      unpinSuccessor, unpinRecipe, unpinVersions, removeWaiterEdges, storeVersion]

theorem idle_of_find {node : Node} (hfind : s.nodes.find? key = some node)
    (hf : node.buildInFlight = false) : Idle s key := by
  intro node' hfind'
  cases hfind.symm.trans hfind'
  exact hf

theorem Gentle.idle (h : Gentle s s') (hidle : Idle s key) : Idle s' key := by
  intro node' hfind'
  rcases h.node key node' hfind' with ⟨node, hfind, ht⟩ | ⟨_, hflight, _⟩
  · exact ht.flight.trans (hidle node hfind)
  · exact hflight

theorem installSuccessor_gentle (hidle : Idle s key) (node : Node) (successor : RequestedVersion)
    (successors : List RequestedVersion) :
    Gentle s (s.installSuccessor key node successor successors) :=
  .modify (installSuccessor_builds s key node successor successors)
    (installSuccessor_nodes s key node successor successors) fun node' hfind =>
    .of_idle rfl (hidle node' hfind) (hidle node' hfind) nofun

theorem Move.gentle {may : Node → Prop} (h : Move may s s') : Gentle s s' := by
  cases h with
  | queue key => exact queueNode_gentle s key
  | detect key =>
    obtain ⟨visits, epoch, heq⟩ := detectCycle_marks s key
    exact heq ▸ .of_eq ⟨rfl, rfl, rfl, rfl, rfl, rfl⟩ rfl
  | failCycleNode error key =>
    refine .modify ⟨rfl, rfl, rfl, rfl, rfl, rfl⟩ (failCycleNode_nodes s key error) fun node _ => ?_
    exact
      { key := rfl, flight := rfl, revision := fun _ _ => rfl
        generation := fun _ _ => .inl (Nat.lt_succ_self _), state := fun _ _ => rfl
        queued := fun _ => nofun }
  | install hfind hflight => exact installSuccessor_gentle (idle_of_find hfind hflight) _ _ _
  | @latest key node hfind hflight =>
    have hminted : Gentle s (s.mintLatest key node) :=
      .modify ⟨rfl, rfl, rfl, rfl, rfl, rfl⟩ (mintLatest_nodes s key node) fun _ _ =>
        .of_eq rfl rfl rfl rfl rfl rfl
    exact hminted.trans (installSuccessor_gentle (hminted.idle (idle_of_find hfind hflight)) _ _ _)
  | needLatest key =>
    exact .modify ⟨rfl, rfl, rfl, rfl, rfl, rfl⟩ rfl fun _ _ => .of_eq rfl rfl rfl rfl rfl rfl

theorem Moves.gentle {may : Node → Prop} (h : Moves may s s') : Gentle s s' := by
  induction h with
  | refl => exact .refl s
  | tail _ hlast ih => exact ih.trans hlast.gentle

/-! ## What gentleness keeps -/

theorem building_pos {ticket : Ticket} (h : ticket ∈ outstanding s) : 0 < building s ticket.key :=
  List.countP_pos_iff.mpr ⟨ticket, h, by simp⟩

/-- A build that has not been applied is known to its node. -/
theorem BuildInv.flight {ticket : Ticket} (hinv : BuildInv s) (h : ticket ∈ outstanding s) :
    ∃ node, s.nodes.find? ticket.key = some node ∧ node.buildInFlight = true := by
  have hpos := building_pos h
  rw [hinv.count] at hpos
  cases hfind : s.nodes.find? ticket.key with
  | none =>
    rw [hfind] at hpos
    exact absurd hpos (Nat.lt_irrefl 0)
  | some node =>
    refine ⟨node, rfl, ?_⟩
    rw [hfind] at hpos
    by_contra hf
    rw [Option.elim, if_neg hf] at hpos
    exact Nat.lt_irrefl 0 hpos

theorem Gentle.inv (h : Gentle s s') (hinv : BuildInv s) : BuildInv s' where
  node key node' hfind' := by
    rcases h.node key node' hfind' with ⟨node, hfind, ht⟩ | ⟨_, _, hnew⟩
    · exact ht.nodeInv (hinv.node key node hfind)
    · exact hnew
  count key := by
    have hsame : building s' key = building s key := h.out.countP_eq _
    rw [hsame, hinv.count]
    cases hfind' : s'.nodes.find? key with
    | none =>
      cases hfind : s.nodes.find? key with
      | none => rfl
      | some node =>
        rw [Option.elim, Option.elim, if_neg]
        intro hf
        obtain ⟨node', hsome⟩ := h.kept key node hfind hf
        rw [hfind'] at hsome
        cases hsome
    | some node' =>
      rcases h.node key node' hfind' with ⟨node, hfind, ht⟩ | ⟨hidle, hflight, _⟩
      · rw [hfind, Option.elim, Option.elim, ht.flight]
      · rw [Option.elim, hflight]
        cases hfind : s.nodes.find? key with
        | none => rfl
        | some node => rw [Option.elim, hidle node hfind]
  ticket ticket hmem hzero node' hfind' := by
    have hold := h.out.mem_iff.mp hmem
    obtain ⟨node₀, hfind₀, hf⟩ := hinv.flight hold
    rcases h.node ticket.key node' hfind' with ⟨node, hfind, ht⟩ | ⟨hidle, _⟩
    · cases hfind₀.symm.trans hfind
      obtain ⟨hr, hle, heq⟩ := hinv.ticket ticket hold hzero node₀ hfind₀
      have hrevision := hr ▸ hzero
      refine ⟨(ht.revision hf hrevision).trans hr, ?_⟩
      rcases ht.generation hf hrevision with hlt | ⟨hgen, hdesired⟩
      · exact ⟨by omega, fun h => by omega⟩
      · exact ⟨by omega, fun h => hdesired (heq (by omega))⟩
    · rw [hidle node₀ hfind₀] at hf
      cases hf

theorem BuildInv.after (hinv : BuildInv s) (h : Gentle s s') : BuildInv s' := h.inv hinv

/-! ## The functions that are gentle -/

theorem setState_ended (s : World) (key : ArtifactKey) {state : ArtifactReadiness}
    (h : state = .failed ∨ state = .cancelled) : Gentle s (s.setState key state) := by
  refine .modify ⟨rfl, rfl, rfl, rfl, rfl, rfl⟩ (setState_nodes s key state) fun node _ => ?_
  refine ⟨rfl, rfl, fun _ _ => rfl, fun _ _ => .inr ⟨rfl, id⟩, fun _ _ => ?_, fun _ hq => ?_⟩
  · rcases h with rfl | rfl <;> rfl
  · rcases h with rfl | rfl <;> cases hq

theorem setState_idle (hidle : Idle s key) (state : ArtifactReadiness) (h : state ≠ .queued) :
    Gentle s (s.setState key state) :=
  .modify ⟨rfl, rfl, rfl, rfl, rfl, rfl⟩ (setState_nodes s key state) fun node hfind =>
    .of_idle rfl (hidle node hfind) (hidle node hfind) fun hq => absurd hq h

/-- A change of a node's other fields. -/
theorem modifyNode_gentle (s : World) (key : ArtifactKey) {f : Node → Node}
    (hf : ∀ node, Tame node (f node)) : Gentle s (s.modifyNode key f) :=
  .modify ⟨rfl, rfl, rfl, rfl, rfl, rfl⟩ rfl fun node _ => hf node

theorem reach_gentle (s : World) (key : ArtifactKey) : Gentle s (s.reach key) :=
  .of_eq ⟨rfl, rfl, rfl, rfl, rfl, rfl⟩ rfl

/-! ### Cancel, release, publication -/

theorem setDesired_true (s : World) (key : ArtifactKey) : Gentle s (s.setDesired key true) :=
  .modify ⟨rfl, rfl, rfl, rfl, rfl, rfl⟩ (setDesired_nodes s key true) fun _ _ =>
    ⟨rfl, rfl, fun _ _ => rfl, fun _ _ => .inr ⟨rfl, fun _ => rfl⟩, id, fun _ _ => rfl⟩

theorem cancelLocked_builds (s : World) (key : ArtifactKey) :
    SameBuilds s (s.cancelLocked key) := by
  unfold cancelLocked
  split
  · exact .refl s
  · constructor <;>
      dsimp only [setState, queueReclaim, modifyNode, clearSuccessors, setDesired, unpinVersions,
        removeWaiterEdges]

theorem cancelLocked_gentle (s : World) (key : ArtifactKey) : Gentle s (s.cancelLocked key) :=
  .modify (cancelLocked_builds s key) (cancelLocked_nodes s key) fun _ _ =>
    { key := rfl, flight := rfl, revision := fun _ _ => rfl
      generation := fun _ _ => .inl (Nat.lt_succ_self _), state := fun _ _ => rfl
      queued := fun _ => nofun }

/-- A node nobody builds for goes. -/
theorem eraseNode_gentle (hidle : Idle s key) : Gentle s (s.eraseNode key) := by
  unfold eraseNode
  split
  · exact .refl s
  · refine ⟨.refl _, fun k node' hfind => .inl ⟨node', ?_, .refl _⟩, fun k node hfind hf =>
      ⟨node, ?_⟩⟩
    · simp only [Table.find?_erase] at hfind
      split at hfind
      · cases hfind
      · exact hfind
    · simp only [Table.find?_erase]
      rw [if_neg]
      · exact hfind
      · rintro rfl
        rw [hidle node hfind] at hf
        cases hf

theorem publishArchived_gentle (s : World) (v : VersionID) : Gentle s (s.publishArchived v) := by
  unfold publishArchived
  split
  · exact .refl s
  · split
    · exact .refl s
    · split <;> exact .of_eq ⟨rfl, rfl, rfl, rfl, rfl, rfl⟩ rfl

/-- A node that has reached a milestone of its version is not building. -/
theorem NodeInv.idle {node : Node} (h : NodeInv key node)
    (hstate : buildingState node.state = false) : node.buildInFlight = false := by
  by_contra hf
  rw [h.building (eq_true_of_ne_false hf)] at hstate
  cases hstate

theorem publishCursor_gentle (hinv : BuildInv s) (v : VersionID) :
    Gentle s (s.publishCursor v) := by
  unfold publishCursor
  split
  · exact .refl s
  rename_i node hfind
  split
  · exact .refl s
  split
  · exact .refl s
  split
  · exact .refl s
  have hset : Gentle s (s.modifyNode v.address fun node => { node with published := true }) :=
    modifyNode_gentle s _ fun _ => .of_eq rfl rfl rfl rfl rfl rfl
  refine hset.trans ?_
  simp only
  split
  · rename_i hstate
    have hidle : Idle s v.address :=
      idle_of_find hfind ((hinv.node _ _ hfind).idle (by rw [hstate]; rfl))
    refine (setState_idle (hset.idle hidle) .published nofun).trans ?_
    exact .of_eq ⟨rfl, rfl, rfl, rfl, rfl, rfl⟩ rfl
  · exact .of_eq ⟨rfl, rfl, rfl, rfl, rfl, rfl⟩ rfl

theorem markPublishedLocked_gentle (hinv : BuildInv s) (v : VersionID) :
    Gentle s (s.markPublishedLocked v) := by
  unfold markPublishedLocked
  split
  · have harchived := publishArchived_gentle s (s.canonical v)
    exact harchived.trans (publishCursor_gentle (harchived.inv hinv) _)
  · exact .refl s

theorem applyAwait_gentle (s : World) (operation : PostedAwait) :
    Gentle s (s.applyAwait operation) := by
  unfold applyAwait
  simp only
  split
  · unfold cancelAwait
    simp only
    split <;> exact .of_eq ⟨rfl, rfl, rfl, rfl, rfl, rfl⟩ rfl
  · split
    · exact .of_eq ⟨rfl, rfl, rfl, rfl, rfl, rfl⟩ rfl
    · have hsnapshot : Gentle s (s.snapshotExact operation.version).1 := by
        unfold snapshotExact
        simp only
        split
        · exact .of_eq ⟨rfl, rfl, rfl, rfl, rfl, rfl⟩ rfl
        · split
          · exact .refl s
          · split
            · exact .refl s
            · split
              · exact .refl s
              · split <;> exact .refl s
      split <;> exact hsnapshot.trans (.of_eq ⟨rfl, rfl, rfl, rfl, rfl, rfl⟩ rfl)

/-! ### Requests -/

theorem ensureGeneration_gentle (s : World) (a : RequestArgs) :
    Gentle s (s.ensureGeneration a).1 := by
  unfold ensureGeneration
  split
  · exact .refl s
  · simp only
    split
    · exact .of_eq ⟨rfl, rfl, rfl, rfl, rfl, rfl⟩ rfl
    · unfold reserveGeneration
      split <;> exact .of_eq ⟨rfl, rfl, rfl, rfl, rfl, rfl⟩ rfl

theorem ensureNode_gentle (s : World) (key : ArtifactKey) (hinv : BuildInv s) :
    Gentle s (s.ensureNode key) := by
  unfold ensureNode
  refine .trans ?_ (setDesired_true _ key)
  split
  · rename_i node hfind
    refine .modify ⟨rfl, rfl, rfl, rfl, rfl, rfl⟩ rfl fun node' hfind' => ?_
    exact .of_eq (hinv.node key node' hfind').key.symm rfl rfl rfl rfl rfl
  · rename_i hnone
    have hidle : Idle s key := fun node hfind => by cases hnone.symm.trans hfind
    refine ⟨.refl _, fun k node' hfind => ?_, fun k node hfind _ => ⟨node, ?_⟩⟩
    · rw [Table.find?_insert] at hfind
      split at hfind
      · subst k
        cases hfind
        exact .inr ⟨hidle, rfl, ⟨rfl, (fun hf => by cases hf), fun hq => by cases hq⟩⟩
      · exact .inl ⟨node', hfind, .refl _⟩
    · rw [Table.find?_insert, if_neg]
      · exact hfind
      · rintro rfl
        cases hnone.symm.trans hfind

theorem aliasPredicted_gentle (s : World) (v : VersionKey) (preassigned generation : Nat) :
    Gentle s (s.aliasPredicted v preassigned generation) := by
  unfold aliasPredicted
  split
  · exact .refl s
  · unfold migrateAliasedVersion
    simp only
    split
    · exact .of_eq ⟨rfl, rfl, rfl, rfl, rfl, rfl⟩ rfl
    · split <;> split <;> exact .of_eq ⟨rfl, rfl, rfl, rfl, rfl, rfl⟩ rfl

theorem leased_gentle (s : World) (a : RequestArgs) (generation : Nat) :
    Gentle s (leased s a generation).1 :=
  (aliasPredicted_gentle s _ _ _).trans (.of_eq ⟨rfl, rfl, rfl, rfl, rfl, rfl⟩ rfl)

theorem signed_gentle (s : World) (a : RequestArgs) : Gentle s (signed s a) :=
  .modify ⟨rfl, rfl, rfl, rfl, rfl, rfl⟩ rfl fun _ _ => .of_eq rfl rfl rfl rfl rfl rfl

theorem renewGeneration_gentle (s : World) (a : RequestArgs) (generation : Nat) :
    Gentle s (s.renewGeneration a generation).1 := by
  unfold renewGeneration
  split
  · exact .refl s
  · exact .of_eq ⟨rfl, rfl, rfl, rfl, rfl, rfl⟩ rfl

theorem rejectPredicted_gentle (s : World) (v : VersionKey) (status : ArtifactRequestStatus)
    (preassigned generation : Nat) (lease : Option Nat) (createdHere : Bool) :
    Gentle s (s.rejectPredicted v status preassigned generation lease createdHere) := by
  unfold rejectPredicted
  split
  · exact .refl s
  · simp only
    split <;> exact .of_eq ⟨rfl, rfl, rfl, rfl, rfl, rfl⟩ rfl

theorem coalesceFrom_gentle (key : ArtifactKey) (s : World) (successors : List RequestedVersion) :
    Gentle s (coalesceFrom key s successors).1 := by
  induction successors generalizing s with
  | nil => exact .refl s
  | cons successor successors ih =>
    unfold coalesceFrom
    split
    · have hunpin : Gentle s (s.unpinSuccessor key successor) :=
        .of_eq ⟨rfl, rfl, rfl, rfl, rfl, rfl⟩ rfl
      exact hunpin.trans (ih _)
    · exact .refl s

theorem supersede_gentle (s : World) (key : ArtifactKey) (node : Node) :
    Gentle s (s.supersede key node) := by
  unfold supersede
  simp only
  refine .trans ?_ (modifyNode_gentle _ key fun _ => .of_eq rfl rfl rfl rfl rfl rfl)
  refine .trans ?_ (coalesceFrom_gentle key _ _)
  split <;> exact .of_eq ⟨rfl, rfl, rfl, rfl, rfl, rfl⟩ rfl

theorem superseding_gentle (s : World) (a : RequestArgs) (node : Node) :
    Gentle s (superseding s a node) := by
  unfold superseding
  split
  · exact supersede_gentle s a.key node
  · exact .refl s

theorem appending_gentle (s : World) (a : RequestArgs) (generation lease : Nat) :
    Gentle s (appending s a generation lease) :=
  .modify ⟨rfl, rfl, rfl, rfl, rfl, rfl⟩ rfl fun _ _ => .of_eq rfl rfl rfl rfl rfl rfl

theorem queueSuccessor_gentle (s : World) (a : RequestArgs) (node : Node)
    (generation lease : Nat) : Gentle s (s.queueSuccessor a node generation lease) := by
  have happend := (superseding_gentle s a node).trans (appending_gentle _ a generation lease)
  rw [queueSuccessor_eq]
  simp only
  split
  · exact happend.trans
      (promoteSuccessor_moves _ _ fun _ _ => trivial : Moves (fun _ => True) _ _).gentle
  · exact happend

/-- A node a request may take over builds nothing, or revision 0. -/
theorem zero_of_not_busy {node : Node} (hinv : NodeInv key node) (hbusy : node.busy = false)
    (hf : node.buildInFlight = true) : node.desiredRevision = 0 := by
  have hstate := hinv.building hf
  simp only [Node.busy, Bool.and_eq_false_iff, bne_eq_false_iff_eq, Bool.not_eq_false',
    Bool.and_eq_true, Bool.or_eq_true, beq_iff_eq] at hbusy
  rcases hbusy with hrevision | ⟨_, hgpu | hpublished⟩
  · exact hrevision
  · rw [hgpu] at hstate
    cases hstate
  · rw [hpublished] at hstate
    cases hstate

theorem nodeAt_of_find {node : Node} (hfind : s.nodes.find? key = some node) :
    nodeAt s key = node := by
  unfold nodeAt
  rw [hfind]
  rfl

theorem replacing_builds (s : World) (a : RequestArgs) (node : Node) (generation lease : Nat) :
    SameBuilds s (replacing s a node generation lease) := by
  constructor <;>
    dsimp only [replacing, setState, queueReclaim, installWaiterEdges, freshFlag, modifyNode,
      unpinVersions, removeWaiterEdges, storeVersion]

theorem replacing_gentle (hinv : BuildInv s) (hbusy : (nodeAt s a.key).busy = false) (node : Node)
    (generation lease : Nat) : Gentle s (replacing s a node generation lease) := by
  refine .modify (replacing_builds s a node generation lease)
    (replacing_nodes s a node generation lease) fun node' hfind => ?_
  rw [nodeAt_of_find hfind] at hbusy
  have hzero := zero_of_not_busy (hinv.node _ _ hfind) hbusy
  exact
    { key := rfl, flight := rfl, revision := fun hf hr => absurd (hzero hf) hr
      generation := fun hf hr => absurd (hzero hf) hr, state := fun _ _ => rfl
      queued := fun _ => nofun }

theorem startVersion_gentle (s : World) (key : ArtifactKey) : Gentle s (s.startVersion key) :=
  (startVersion_moves s key : Moves (fun _ => True) _ _).gentle

theorem installing_gentle (hinv : BuildInv s) (generation lease : Nat) : Gentle s (installing s a generation lease) := by
  unfold installing
  split
  · exact queueSuccessor_gentle s a _ generation lease
  · rename_i hbusy
    rw [replaceVersion_eq]
    exact (replacing_gentle hinv (eq_false_of_ne_true hbusy) _ _ _).trans (startVersion_gentle _ _)

theorem entered_gentle (hinv : BuildInv s) (a : RequestArgs) : Gentle s (entered s a) := by
  have hgeneration := ensureGeneration_gentle s a
  exact hgeneration.trans (ensureNode_gentle _ a.key (hgeneration.inv hinv))

theorem Requested.gentle {a : RequestArgs} (h : Requested s a s') (hinv : BuildInv s) :
    Gentle s s' := by
  cases h with
  | refused => exact .refl s
  | rejected hb hu =>
    subst hu
    exact (entered_gentle hinv _).trans (rejectPredicted_gentle _ _ _ _ _ _ _)
  | already hb hu =>
    subst hu
    exact (entered_gentle hinv _).trans (leased_gentle _ _ _)
  | @accepted u v b generation hb hu _ hv =>
    subst hu
    have hv : Gentle s v := by
      rcases hv with ⟨rfl, _⟩ | ⟨heq, _⟩
      · exact entered_gentle hinv _
      · have hrenew := renewGeneration_gentle (entered s b) b (s.ensureGeneration b).2
        rw [← heq] at hrenew
        exact (entered_gentle hinv _).trans hrenew
    have hsigned := (hv.trans (leased_gentle v b generation)).trans (signed_gentle _ b)
    exact hsigned.trans (installing_gentle (hsigned.inv hinv) _ _)

theorem requestInternal_gentle (hinv : BuildInv s) {a : RequestArgs} :
    Gentle s (s.requestInternal a) := by
  obtain ⟨u, event, hrequested, heq⟩ := requestInternal_requested s a
  rw [heq]
  exact (hrequested.gentle hinv).trans (.of_eq ⟨rfl, rfl, rfl, rfl, rfl, rfl⟩ rfl)

/-! ## The two calls that are not: a build starts, a completion lands -/

/-- A node whose build is over. -/
def landedNode (node : Node) : Node := { node with buildInFlight := false }

theorem countP_cons_ticket (ticket : Ticket) (tickets : List Ticket) (key : ArtifactKey) :
    (ticket :: tickets).countP (fun t => t.key == key)
      = tickets.countP (fun t => t.key == key) + if ticket.key = key then 1 else 0 := by
  simp [List.countP_cons]

theorem landed_perm {completion : Completion} {rest : List Completion} (stale : Bool)
    (hhead : s.slice.readyCompletions = completion :: rest) :
    (outstanding s).Perm
      (completionTicket completion :: outstanding (landed (takeCompletion s rest) completion stale)) := by
  unfold outstanding
  rw [hhead]
  simp only [landed, takeCompletion, log, modifyNode, List.map_append, List.map_cons]
  grind

/-- A completion lands: its build is over, and that of nobody else. -/
theorem landed_inv {completion : Completion} {rest : List Completion} (stale : Bool)
    (hinv : BuildInv s) (hhead : s.slice.readyCompletions = completion :: rest) :
    BuildInv (landed (takeCompletion s rest) completion stale)
      ∧ Idle (landed (takeCompletion s rest) completion stale) completion.key := by
  have hperm := landed_perm stale hhead
  have hfind (k : ArtifactKey) :
      (landed (takeCompletion s rest) completion stale).nodes.find? k
        = if k = completion.key then (s.nodes.find? completion.key).map landedNode
          else s.nodes.find? k :=
    Table.find?_modify _ _ _ _
  have hbuilding (k : ArtifactKey) : building s k
      = building (landed (takeCompletion s rest) completion stale) k
        + if completion.key = k then 1 else 0 := by
    unfold building
    rw [hperm.countP_eq, countP_cons_ticket]
    rfl
  obtain ⟨node, hnode, hflight⟩ := hinv.flight (hperm.mem_iff.mpr List.mem_cons_self)
  change s.nodes.find? completion.key = some node at hnode
  refine ⟨⟨fun k node' hfind' => ?_, fun k => ?_, fun ticket hmem hzero node' hfind' => ?_⟩,
    fun node' hfind' => ?_⟩
  · rw [hfind] at hfind'
    split at hfind'
    · subst k
      rw [hnode] at hfind'
      cases hfind'
      have hold := hinv.node _ node hnode
      exact ⟨hold.key, (fun hf => by cases hf), hold.queued⟩
    · exact hinv.node k node' hfind'
  · have hcount := hinv.count k
    rw [hbuilding] at hcount
    rw [hfind]
    by_cases hk : completion.key = k
    · subst hk
      rw [hnode, Option.elim, if_pos hflight, if_pos rfl] at hcount
      rw [if_pos rfl, hnode]
      simpa [landedNode] using hcount
    · rw [if_neg hk, Nat.add_zero] at hcount
      rw [if_neg (Ne.symm hk), hcount]
  · have hticket := hinv.ticket ticket (hperm.mem_iff.mpr (List.mem_cons_of_mem _ hmem)) hzero
    rw [hfind] at hfind'
    split at hfind'
    · rename_i hk
      rw [hnode] at hfind'
      cases hfind'
      exact hticket node (hk ▸ hnode)
    · exact hticket node' hfind'
  · rw [hfind, if_pos rfl, hnode] at hfind'
    cases hfind'
    rfl

/-- The build of a node. -/
def nodeTicket (key : ArtifactKey) (node : Node) : Ticket :=
  ⟨key, node.desiredRevision, node.generation⟩

theorem startBuild_perm (s : World) (key : ArtifactKey) (node : Node) :
    (outstanding (s.startBuild key node)).Perm (nodeTicket key node :: outstanding s) := by
  obtain ⟨_, ⟨_, _, _, rfl⟩, heq⟩ := startBuild_eq s key node
  rw [heq]
  simp only [outstanding, starting, setState, modifyNode, List.map_append, List.map_cons,
    List.map_nil]
  change List.Perm (_ ++ [nodeTicket key node] ++ _ ++ _ ++ _) _
  grind

/-- A build starts, of the version its node wants. -/
theorem started_inv {node node' : Node} (hinv : BuildInv s)
    (hfind : s.nodes.find? key = some node) (hflight : node.buildInFlight = false)
    (hdesired : node.desired = true) (hrevision : node'.desiredRevision = node.desiredRevision)
    (hgeneration : node'.generation = node.generation) : BuildInv (s.startBuild key node') := by
  have hperm := startBuild_perm s key node'
  have hfind' (k : ArtifactKey) : (s.startBuild key node').nodes.find? k
      = if k = key then some (startedNode node) else s.nodes.find? k := by
    rw [startBuild_nodes, Table.find?_modify, hfind]
    rfl
  have hbuilding (k : ArtifactKey) : building (s.startBuild key node') k
      = building s k + if key = k then 1 else 0 := by
    unfold building
    rw [hperm.countP_eq, countP_cons_ticket]
    rfl
  refine ⟨fun k node₁ hnode => ?_, fun k => ?_, fun ticket hmem hzero node₁ hnode => ?_⟩
  · rw [hfind'] at hnode
    split at hnode
    · subst k
      cases hnode
      exact ⟨(hinv.node _ node hfind).key, fun _ => rfl, fun hq => by cases hq⟩
    · exact hinv.node k node₁ hnode
  · rw [hbuilding, hinv.count, hfind']
    by_cases hk : key = k
    · subst hk
      rw [if_pos rfl, if_pos rfl, hfind, Option.elim, Option.elim, hflight]
      rfl
    · rw [if_neg hk, if_neg (Ne.symm hk)]
      rfl
  · rw [hfind'] at hnode
    rcases List.mem_cons.mp (hperm.mem_iff.mp hmem) with rfl | hold
    · rw [if_pos (show (nodeTicket key node').key = key from rfl)] at hnode
      cases hnode
      exact ⟨hrevision.symm, le_of_eq hgeneration, fun _ => hdesired⟩
    · split at hnode
      · rename_i hk
        cases hnode
        exact hinv.ticket ticket hold hzero node (hk ▸ hfind)
      · exact hinv.ticket ticket hold hzero node₁ hnode

/-! ## Every call keeps it -/

theorem ended_gentle (s : World) (node : Node) (completion : Completion) (error : Option String) :
    Gentle s (ended s node completion error) := by
  have hbuilds : SameBuilds s (ended s node completion error) := by
    cases error <;> exact ⟨rfl, rfl, rfl, rfl, rfl, rfl⟩
  refine .modify hbuilds (ended_nodes s node completion error) fun node' _ => ?_
  cases error <;>
    exact ⟨rfl, rfl, fun _ _ => rfl, fun _ _ => .inr ⟨rfl, id⟩, fun _ _ => rfl, fun _ => nofun⟩

theorem readied_gentle (s : World) (node : Node) (completion : Completion)
    (hidle : Idle s completion.key) : Gentle s (readied s node completion) := by
  have hbuilds : SameBuilds s (readied s node completion) := by
    unfold readied awaiting
    cases (readyState completion).2 <;> constructor <;>
      dsimp only [reach, wakeWaiters, storeVersion, announceNode, setState, awaitGpu, modifyNode,
        pruneCompletedWaiterEdges, queueReclaim]
  refine .modify hbuilds (readied_nodes s node completion) fun node' hfind => ?_
  refine .of_idle rfl (hidle node' hfind) (hidle node' hfind) ?_
  unfold readiedNode readyState
  intro hq
  split at hq
  · split at hq
    · cases hq
    · split at hq <;> cases hq
  · cases hq

theorem needed_gentle (s : World) (key : ArtifactKey) (result : ArtifactBuildResult) :
    Gentle s (needed s key result) := by
  have hbuilds : SameBuilds s (needed s key result) := by
    constructor <;>
      dsimp only [needed, installWaiterEdges, modifyNode, removeWaiterEdges, unpinVersions]
  exact .modify hbuilds (needed_nodes s key result) fun _ _ => .of_eq rfl rfl rfl rfl rfl rfl

theorem applyRetryAfter_gentle (s : World) {node : Node} (result : ArtifactBuildResult)
    (hidle : Idle s node.key) : Gentle s (s.applyRetryAfter node result) :=
  .modify ⟨rfl, rfl, rfl, rfl, rfl, rfl⟩ (applyRetryAfter_nodes s node result) fun node' hfind =>
    .of_idle rfl (hidle node' hfind) (hidle node' hfind) nofun

theorem applySuspended_gentle (s : World) {node : Node} (result : ArtifactBuildResult)
    (suspension : ArtifactSuspension) (hidle : Idle s node.key) :
    Gentle s (s.applySuspended node result suspension) := by
  have hset : Gentle s (suspending s node.key result suspension) :=
    .modify ⟨rfl, rfl, rfl, rfl, rfl, rfl⟩ (suspending_nodes s node.key result suspension)
      fun node' hfind => .of_idle rfl (hidle node' hfind) (hidle node' hfind) nofun
  rw [applySuspended_eq]
  generalize suspending s node.key result suspension = u at hset
  refine hset.trans ?_
  simp only
  split
  · have hbuilds : SameBuilds u (discovering u node.key suspension) := by
      constructor <;>
        dsimp only [discovering, installWaiterEdges, modifyNode, removeWaiterEdges, unpinVersions]
    have hdiscover : Gentle u (discovering u node.key suspension) :=
      .modify hbuilds (discovering_nodes u node.key suspension) fun _ _ =>
        .of_eq rfl rfl rfl rfl rfl rfl
    exact hdiscover.trans (queueNode_gentle _ _)
  · split
    · refine .modify ⟨rfl, rfl, rfl, rfl, rfl, rfl⟩ (unidentified_nodes u node.key) fun node' _ => ?_
      exact ⟨rfl, rfl, fun _ _ => rfl, fun _ _ => .inr ⟨rfl, id⟩, fun _ _ => rfl, fun _ => nofun⟩
    · split
      · have hsatisfied : Gentle u (alreadySatisfied u node.key suspension.identity) :=
          .modify ⟨rfl, rfl, rfl, rfl, rfl, rfl⟩ rfl fun _ _ => .of_eq rfl rfl rfl rfl rfl rfl
        exact hsatisfied.trans (queueNode_gentle _ _)
      · exact .of_eq ⟨rfl, rfl, rfl, rfl, rfl, rfl⟩ rfl

theorem latchReadyGates_gentle (s : World) (key : ArtifactKey) :
    Gentle s (s.latchReadyGates key) :=
  modifyNode_gentle s key fun _ => .of_eq rfl rfl rfl rfl rfl rfl

/-- A completion collected or handed around is the same build. -/
theorem evaluateCompletion_ticket (s : World) (completion : Completion) :
    completionTicket (s.evaluateCompletion completion) = completionTicket completion := by
  unfold evaluateCompletion
  split
  · simp only
    split <;> rfl
  · rfl

theorem prepareAcceptance_ticket {completion : Completion} {dispatch : AcceptanceDispatch}
    (h : s.prepareAcceptance completion = some dispatch) :
    completionTicket dispatch.completion = completionTicket completion := by
  unfold prepareAcceptance at h
  split at h
  · cases h
  · split at h
    · cases h
    · split at h
      · cases h
      · cases h
        rfl

theorem perm_of_getElem? {α : Type} {xs : List α} {index : Nat} {x : α}
    (h : xs[index]? = some x) : xs.Perm (x :: xs.eraseIdx index) := by
  obtain ⟨hlt, rfl⟩ := List.getElem?_eq_some_iff.mp h
  exact (List.getElem_cons_eraseIdx_perm hlt).symm

/-- **Every call keeps the builds in order.** -/
theorem Does.buildInv {Q : World → Call → Prop} (h : Does Q s s') (hinv : BuildInv s) :
    BuildInv s' := by
  cases h with
  | frame h =>
    exact hinv.after (.of_eq ⟨h.builds, h.running, h.completions, h.ready, h.acceptances,
      h.dispatches⟩ h.nodes)
  | publish => exact hinv.after (.of_eq ⟨rfl, rfl, rfl, rfl, rfl, rfl⟩ rfl)
  | move h => exact hinv.after h.gentle
  | await operation => exact hinv.after (applyAwait_gentle s operation)
  | request a _ _ h => exact hinv.after (requestInternal_gentle hinv)
  | @posted _ _ _ _ _ u _ hu h =>
    have htaken : BuildInv u := by
      subst hu
      exact hinv.after (.of_eq ⟨rfl, rfl, rfl, rfl, rfl, rfl⟩ rfl)
    exact htaken.after (requestInternal_gentle htaken)
  | cancel key => exact hinv.after (cancelLocked_gentle s key)
  | erase hfind _ hflight => exact hinv.after (eraseNode_gentle (idle_of_find hfind hflight))
  | markPublished v => exact hinv.after (markPublishedLocked_gentle hinv v)
  | @resume key f hf =>
    refine hinv.after ((modifyNode_gentle s key fun node => ?_).trans (queueNode_gentle _ key))
    rw [hf]
    exact .of_eq rfl rfl rfl rfl rfl rfl
  | @gpuEnded evaluation node _ hfind _ _ error =>
    refine hinv.after (.modify ⟨rfl, rfl, rfl, rfl, rfl, rfl⟩
      (gpuEnded_nodes s evaluation.signal.key error) fun node' _ => ?_)
    exact ⟨rfl, rfl, fun _ _ => rfl, fun _ _ => .inr ⟨rfl, id⟩, fun _ _ => rfl, fun _ => nofun⟩
  | @gpuSubmitted evaluation node _ hfind _ hstate =>
    have hidle := idle_of_find hfind ((hinv.node _ _ hfind).idle (by rw [hstate]; rfl))
    exact hinv.after (.modify ⟨rfl, rfl, rfl, rfl, rfl, rfl⟩ (gpuSubmitted_nodes s _)
      fun node' hfind' => .of_idle rfl (hidle node' hfind') (hidle node' hfind') nofun)
  | @gpuReached key node token hfind _ hstate =>
    have hidle := idle_of_find hfind ((hinv.node _ _ hfind).idle (by rw [hstate]; rfl))
    refine hinv.after (.modify ⟨rfl, rfl, rfl, rfl, rfl, rfl⟩ (gpuReached_nodes s key node.published)
      fun node' hfind' => .of_idle rfl (hidle node' hfind') (hidle node' hfind') ?_)
    unfold gpuReachedNode
    intro hq
    simp only at hq
    split at hq <;> cases hq
  | @prepare completion rest dispatch hhead hprepare =>
    refine hinv.after (.of_perm ?_ rfl)
    have hticket := prepareAcceptance_ticket hprepare
    unfold outstanding
    rw [hhead]
    simp only [takeCompletion, List.map_append, List.map_cons, List.map_nil, hticket]
    grind
  | discard hhead hfind =>
    obtain ⟨node, hnode, _⟩ := hinv.flight ((landed_perm false hhead).mem_iff.mpr
      List.mem_cons_self)
    cases hfind.symm.trans hnode
  | @stale _ _ _ _ key hhead hu =>
    subst hu
    exact (landed_inv _ hinv hhead).1.after (queueNode_gentle _ key)
  | ready hhead hu =>
    subst hu
    obtain ⟨hlanded, hidle⟩ := landed_inv false hinv hhead
    exact hlanded.after (readied_gentle _ _ _ hidle)
  | needs hhead hu =>
    subst hu
    exact (landed_inv false hinv hhead).1.after (needed_gentle _ _ _)
  | @retryAfter completion rest node u hhead hu hfind =>
    subst hu
    obtain ⟨hlanded, hidle⟩ := landed_inv false hinv hhead
    rw [← (hinv.node _ _ hfind).key] at hidle
    exact hlanded.after (applyRetryAfter_gentle _ _ hidle)
  | suspended hhead hu hfind =>
    subst hu
    obtain ⟨hlanded, hidle⟩ := landed_inv false hinv hhead
    have hkey := (hinv.node _ _ hfind).key
    exact hlanded.after (applySuspended_gentle _ _ _ (by rwa [← hkey] at hidle))
  | ended hhead hu =>
    subst hu
    exact (landed_inv false hinv hhead).1.after (ended_gentle _ _ _ _)
  | wake dependency consumer =>
    exact hinv.after (wakeWaiter_moves s dependency consumer
      fun _ _ _ => trivial : Moves (fun _ => True) _ _).gentle
  | @block key node hfind _ hflight =>
    have hlatch := latchReadyGates_gentle s key
    exact hinv.after (hlatch.trans (setState_idle (hlatch.idle (idle_of_find hfind hflight))
      .blocked nofun))
  | @build key node _ hfind hstate hflight =>
    have hlatched : BuildInv (s.latchReadyGates key) := hinv.after (latchReadyGates_gentle s key)
    have hnode : (s.latchReadyGates key).nodes.find? key = some (latched s node) := by
      rw [latchReadyGates_nodes, Table.find?_modify, if_pos rfl, hfind]
      rfl
    exact started_inv hlatched hnode hflight ((hinv.node _ _ hfind).queued hstate) rfl rfl
  | @producerless key node hfind _ hflight =>
    refine hinv.after ((latchReadyGates_gentle s key).trans
      (.modify ⟨rfl, rfl, rfl, rfl, rfl, rfl⟩ (failProducerless_nodes _ key) fun node' _ => ?_))
    exact ⟨rfl, rfl, fun _ _ => rfl, fun _ _ => .inr ⟨rfl, id⟩, fun _ _ => rfl, fun _ => nofun⟩
  | dispatch snapshot =>
    refine hinv.after ?_
    unfold dispatchReady
    split
    · exact .refl s
    · exact .of_eq ⟨rfl, rfl, rfl, rfl, rfl, rfl⟩ rfl
  | forget => exact hinv.after (.of_eq ⟨rfl, rfl, rfl, rfl, rfl, rfl⟩ rfl)
  | reclaim => exact hinv.after (.of_eq ⟨rfl, rfl, rfl, rfl, rfl, rfl⟩ rfl)
  | post intent coalescible =>
    refine hinv.after ?_
    unfold postRequest
    simp only
    split
    · exact .of_eq ⟨rfl, rfl, rfl, rfl, rfl, rfl⟩ rfl
    · unfold reserveGeneration
      split <;> exact .of_eq ⟨rfl, rfl, rfl, rfl, rfl, rfl⟩ rfl
  | dropLease => exact hinv.after (.of_eq ⟨rfl, rfl, rfl, rfl, rfl, rfl⟩ rfl)
  | @finishBuild index context hget result =>
    refine hinv.after (.of_perm ?_ rfl)
    have hperm := (perm_of_getElem? hget).map contextTicket
    unfold outstanding
    simp only [World.finishBuild, List.map_append, List.map_cons, List.map_nil] at hperm ⊢
    change List.Perm (_ ++ (_ ++ [contextTicket context] ++ _) ++ _) _
    grind
  | @finishAcceptance index dispatch hget error =>
    refine hinv.after (.of_perm ?_ rfl)
    have hperm := (perm_of_getElem? hget).map fun d => completionTicket d.completion
    unfold outstanding
    simp only [World.finishAcceptance, List.map_append, List.map_cons, List.map_nil] at hperm ⊢
    change List.Perm (_ ++ (_ ++ [completionTicket dispatch.completion] ++ _) ++ _) _
    grind
  | @collect completion rest hhead =>
    refine hinv.after (.of_perm ?_ rfl)
    unfold outstanding
    rw [hhead]
    simp only [List.map_append, List.map_cons, List.map_nil, evaluateCompletion_ticket]
    grind
  | handBuild hhead =>
    refine hinv.after (.of_perm ?_ rfl)
    unfold outstanding
    rw [hhead]
    simp only [log, List.map_append, List.map_cons, List.map_nil]
    grind
  | handAcceptance hhead =>
    refine hinv.after (.of_perm ?_ rfl)
    unfold outstanding
    rw [hhead]
    simp only [List.map_append, List.map_cons, List.map_nil]
    grind

end ModuleServices.Graph.Proof
