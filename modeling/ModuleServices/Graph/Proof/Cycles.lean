import ModuleServices.Lib.Search
import ModuleServices.Graph.Proof.Coherence

/-!
# A cycle is found when there is one

`DetectCycle` is a search of `Search.Graph` for the way back to its node, over the mandatory
requirements. The marks of earlier searches are of earlier epochs, so none of them counts; the
counter that wraps clears them all.
-/

namespace ModuleServices.Graph.Proof

open World Search Search.Graph

variable {s s' : World} {key : ArtifactKey} {node : Node} {epoch : Nat}
  {marks : Marks ArtifactKey} {stack : List ArtifactKey}

/-! ## The graph of requirements -/

/-- A requirement of a node on an archived other revision of itself. -/
def ArchivedPredecessor (s : World) (node : Node) (r : ArtifactRequirement) : Prop :=
  r.key = node.key ∧ r.invalidation = .exactSnapshot ∧ r.requiredGeneration ≠ 0
    ∧ r.minimumRevision ≠ node.desiredRevision ∧ s.versions.contains r.version = true

instance (s : World) (node : Node) : DecidablePred (ArchivedPredecessor s node) := fun r => by
  unfold ArchivedPredecessor
  infer_instance

/-- `a` has a mandatory requirement on `b`, and not one by which the node searched for follows its
own archived version. -/
def Requires (s : World) (key a b : ArtifactKey) : Prop :=
  ∃ node, s.nodes.find? a = some node ∧ ∃ r ∈ node.requirements, r.gates = true ∧ r.key = b
    ∧ ¬(a = key ∧ ArchivedPredecessor s node r)

/-- The keys that the requirements of one node lead to. -/
def mandatory (s : World) (key a : ArtifactKey) (node : Node)
    (requirements : List ArtifactRequirement) : List ArtifactKey :=
  (requirements.filter fun r => r.gates && !decide (a = key ∧ ArchivedPredecessor s node r)).map
    ArtifactRequirement.key

/-- What a search for a way back to `key` goes over. -/
def requirementGraph (s : World) (key : ArtifactKey) : Search.Graph ArtifactKey where
  origin := key
  present := s.nodes.contains
  edges a :=
    match s.nodes.find? a with
    | none => []
    | some node => mandatory s key a node node.requirements
  absent a h := by
    rw [Table.contains, Option.isSome_eq_false_iff, Option.isNone_iff_eq_none] at h
    rw [h]

theorem edge_iff {a b : ArtifactKey} : (requirementGraph s key).Edge a b ↔ Requires s key a b := by
  unfold Search.Graph.Edge requirementGraph Requires
  dsimp only
  cases s.nodes.find? a with
  | none => simp
  | some node =>
    simp only [mandatory, List.mem_map, List.mem_filter, Bool.and_eq_true, Bool.not_eq_true',
      decide_eq_false_iff_not, Option.some.injEq, exists_eq_left']
    constructor
    · rintro ⟨r, ⟨hr, hgates, hnot⟩, rfl⟩
      exact ⟨r, hr, hgates, rfl, hnot⟩
    · rintro ⟨r, hr, hgates, rfl, hnot⟩
      exact ⟨r, ⟨hr, hgates, hnot⟩, rfl⟩

theorem edge_eq : (requirementGraph s key).Edge = Requires s key := by
  funext a b
  exact propext edge_iff

/-! ## The code is that search -/

/-- The graph with other marks. -/
def marked (s : World) (marks : Marks ArtifactKey) : World := { s with cycleVisits := marks }

@[simp] theorem marked_nodes : (marked s marks).nodes = s.nodes := rfl
@[simp] theorem marked_versions : (marked s marks).versions = s.versions := rfl

@[simp] theorem requirementGraph_origin : (requirementGraph s key).origin = key := rfl
@[simp] theorem requirementGraph_present : (requirementGraph s key).present = s.nodes.contains := rfl

theorem mandatory_skip {a : ArtifactKey} {r : ArtifactRequirement}
    {requirements : List ArtifactRequirement}
    (h : r.gates = true → a = key ∧ ArchivedPredecessor s node r) :
    mandatory s key a node (r :: requirements) = mandatory s key a node requirements := by
  unfold mandatory
  rw [List.filter_cons_of_neg]
  rw [Bool.and_eq_true, Bool.not_eq_true', decide_eq_false_iff_not, not_and, not_not]
  exact h

theorem mandatory_cons {a : ArtifactKey} {r : ArtifactRequirement}
    {requirements : List ArtifactRequirement} (hgates : r.gates = true)
    (hnot : ¬(a = key ∧ ArchivedPredecessor s node r)) :
    mandatory s key a node (r :: requirements)
      = r.key :: mandatory s key a node requirements := by
  unfold mandatory
  rw [List.filter_cons_of_pos, List.map_cons]
  rw [Bool.and_eq_true, Bool.not_eq_true', decide_eq_false_iff_not]
  exact ⟨hgates, hnot⟩

theorem cycleRoots_scan (hkey : node.key = key) (requirements : List ArtifactRequirement) :
    cycleRoots epoch node (marked s marks) stack requirements
      = (marked s ((requirementGraph s key).scan epoch key marks stack
          (mandatory s key key node requirements)).1,
        ((requirementGraph s key).scan epoch key marks stack
          (mandatory s key key node requirements)).2) := by
  induction requirements generalizing marks stack with
  | nil => rfl
  | cons r requirements ih =>
    unfold cycleRoots
    by_cases hgates : r.gates = true
    · rw [if_neg (by rw [hgates]; exact Bool.false_ne_true)]
      by_cases hself : r.key = node.key
      · rw [if_pos hself]
        by_cases harchived : r.invalidation = .exactSnapshot ∧ r.requiredGeneration ≠ 0
            ∧ r.minimumRevision ≠ node.desiredRevision ∧ s.versions.contains r.version = true
        · rw [mandatory_skip fun _ => ⟨rfl, hself, harchived⟩]
          exact (if_pos harchived).trans ih
        · rw [mandatory_cons hgates fun h => harchived h.2.2, scan_origin (hself.trans hkey)]
          exact if_neg harchived
      · have horigin : r.key ≠ key := fun h => hself (h.trans hkey.symm)
        rw [if_neg hself, mandatory_cons hgates fun h => hself h.2.1]
        by_cases hskip : (!s.nodes.contains r.key || marks.visited epoch r.key) = true
        · rw [scan_skip horigin hskip]
          exact (if_pos hskip).trans ih
        · rw [scan_push horigin hskip, hkey]
          exact (if_neg hskip).trans ih
    · rw [if_pos (by rw [Bool.eq_false_iff.mpr hgates]; rfl),
        mandatory_skip fun h => absurd h hgates]
      exact ih

theorem cycleEdges_scan (node : Node) {current : ArtifactKey} (hcurrent : current ≠ key)
    (requirements : List ArtifactRequirement) :
    cycleEdges epoch key current (marked s marks) stack requirements
      = (marked s ((requirementGraph s key).scan epoch current marks stack
          (mandatory s key current node requirements)).1,
        ((requirementGraph s key).scan epoch current marks stack
          (mandatory s key current node requirements)).2) := by
  induction requirements generalizing marks stack with
  | nil => rfl
  | cons r requirements ih =>
    unfold cycleEdges
    by_cases hgates : r.gates = true
    · rw [if_neg (by rw [hgates]; exact Bool.false_ne_true),
        mandatory_cons hgates fun h => hcurrent h.1]
      by_cases hself : r.key = key
      · rw [if_pos hself, scan_origin hself]
      · rw [if_neg hself]
        by_cases hskip : (!s.nodes.contains r.key || marks.visited epoch r.key) = true
        · rw [scan_skip hself hskip]
          exact (if_pos hskip).trans ih
        · rw [scan_push hself hskip]
          exact (if_neg hskip).trans ih
    · rw [if_pos (by rw [Bool.eq_false_iff.mpr hgates]; rfl),
        mandatory_skip fun h => absurd h hgates]
      exact ih

theorem cyclePath_trace (fuel : Nat) (cursor : ArtifactKey) :
    (marked s marks).cyclePath key fuel cursor
      = (requirementGraph s key).trace marks fuel cursor := by
  induction fuel generalizing cursor with
  | zero => rfl
  | succ fuel ih =>
    unfold cyclePath Search.Graph.trace
    rw [requirementGraph_origin, requirementGraph_present, marked_nodes]
    have hvisits : (marked s marks).cycleVisits = marks := rfl
    rw [hvisits]
    generalize (if s.nodes.contains cursor = true then marks.find? cursor else none) = found
    cases found with
    | none => rfl
    | some visit =>
      obtain ⟨-, parent⟩ := visit
      cases parent with
      | none => rfl
      | some parent =>
        dsimp only
        rw [ih]

theorem edges_of_find {a : ArtifactKey} (hfind : s.nodes.find? a = some node) :
    (requirementGraph s key).edges a = mandatory s key a node node.requirements := by
  unfold requirementGraph
  dsimp only
  rw [hfind]

theorem edges_of_missing {a : ArtifactKey} (hfind : s.nodes.find? a = none) :
    (requirementGraph s key).edges a = [] := by
  unfold requirementGraph
  dsimp only
  rw [hfind]

/-- A key without a node is dropped from the stack. -/
theorem searching_drop {current : ArtifactKey}
    (h : Searching (requirementGraph s key) epoch marks (current :: stack))
    (hfind : s.nodes.find? current = none) :
    Searching (requirementGraph s key) epoch marks stack := by
  have hstep := h.step
  rw [edges_of_missing hfind] at hstep
  exact hstep rfl

/-- `cycleSearch` is the search of the graph of requirements. -/
theorem cycleSearch_search (h : Searching (requirementGraph s key) epoch marks stack) (fuel : Nat) :
    cycleSearch epoch key fuel (marked s marks) stack
      = (marked s ((requirementGraph s key).search epoch fuel marks stack).1,
        match ((requirementGraph s key).search epoch fuel marks stack).2 with
        | none => []
        | some current =>
          key :: (requirementGraph s key).trace
            ((requirementGraph s key).search epoch fuel marks stack).1 (s.nodes.keys.length + 1)
              current ++ [key]) := by
  induction fuel generalizing marks stack with
  | zero => rfl
  | succ fuel ih =>
    cases stack with
    | nil => rfl
    | cons current stack =>
      have hcurrent : current ≠ key := h.apart current (h.pending current List.mem_cons_self)
      unfold cycleSearch search
      rw [marked_nodes]
      cases hfind : s.nodes.find? current with
      | none =>
        rw [edges_of_missing hfind]
        exact ih (searching_drop h hfind)
      | some node =>
        have hstep := h.step
        dsimp only
        rw [cycleEdges_scan node hcurrent]
        rw [edges_of_find hfind] at hstep ⊢
        generalize (requirementGraph s key).scan epoch current marks stack
          (mandatory s key current node node.requirements) = scanned at hstep
        obtain ⟨marks', stack', found⟩ := scanned
        cases found with
        | true =>
          dsimp only
          rw [cyclePath_trace, marked_nodes]
        | false => exact ih (hstep rfl)

/-! ## Which keys are looked at -/

/-- The keys `cycleSearch` takes off the stack. -/
def cycleTaken (epoch : Nat) (target : ArtifactKey) :
    Nat → World → List ArtifactKey → List ArtifactKey
  | 0, _, _ => []
  | _ + 1, _, [] => []
  | rounds + 1, s, current :: stack =>
    current ::
      match s.nodes.find? current with
      | none => cycleTaken epoch target rounds s stack
      | some node =>
        match cycleEdges epoch target current s stack node.requirements with
        | (_, _, true) => []
        | (s, stack, false) => cycleTaken epoch target rounds s stack

theorem cycleTaken_taken (h : Searching (requirementGraph s key) epoch marks stack) (fuel : Nat) :
    cycleTaken epoch key fuel (marked s marks) stack
      = (requirementGraph s key).taken epoch fuel marks stack := by
  induction fuel generalizing marks stack with
  | zero => rfl
  | succ fuel ih =>
    cases stack with
    | nil => rfl
    | cons current stack =>
      have hcurrent : current ≠ key := h.apart current (h.pending current List.mem_cons_self)
      unfold cycleTaken Search.Graph.taken
      rw [marked_nodes]
      congr 1
      cases hfind : s.nodes.find? current with
      | none =>
        rw [edges_of_missing hfind]
        exact ih (searching_drop h hfind)
      | some node =>
        have hstep := h.step
        dsimp only
        rw [cycleEdges_scan node hcurrent]
        rw [edges_of_find hfind] at hstep ⊢
        generalize (requirementGraph s key).scan epoch current marks stack
          (mandatory s key current node node.requirements) = scanned at hstep
        obtain ⟨marks', stack', found⟩ := scanned
        cases found with
        | true => rfl
        | false => exact ih (hstep rfl)

/-! ## Epochs -/

/-- The marks are of searches up to now. -/
structure EpochInv (s : World) : Prop where
  keyed : Keyed s
  bound : s.nextCycleVisitEpoch < 2 ^ 64
  past : ∀ k visit, s.cycleVisits.find? k = some visit → visit.1 ≤ s.nextCycleVisitEpoch

/-- A graph after any searches: what happens in between may change every node, and it drops the
marks of the nodes it erases. -/
inductive Searched : World → Prop where
  | fresh {s : World} (hkeyed : Keyed s) (hvisits : s.cycleVisits = ∅)
      (hepoch : s.nextCycleVisitEpoch = 0) : Searched s
  | edited {s s' : World} (h : Searched s) (hkeyed : Keyed s')
      (hvisits : ∀ k visit, s'.cycleVisits.find? k = some visit →
        s.cycleVisits.find? k = some visit)
      (hepoch : s'.nextCycleVisitEpoch = s.nextCycleVisitEpoch) : Searched s'
  | search {s : World} (h : Searched s) (key : ArtifactKey) : Searched (s.detectCycle key).1

/-- A wrapped counter leaves every mark it goes over at 0. -/
theorem cleared_find (keys : List ArtifactKey) {k : ArtifactKey} {visit : Nat × Option ArtifactKey}
    (h : (keys.foldl (fun visits key => visits.modify key fun visit => (0, visit.2)) marks).find? k
      = some visit) :
    visit.1 = 0 ∨ k ∉ keys ∧ marks.find? k = some visit := by
  induction keys generalizing marks with
  | nil => exact .inr ⟨List.not_mem_nil, h⟩
  | cons a keys ih =>
    rcases ih h with hzero | ⟨hmem, hfind⟩
    · exact .inl hzero
    · rw [Table.find?_modify] at hfind
      split at hfind
      · obtain ⟨old, -, rfl⟩ := Option.map_eq_some_iff.mp hfind
        exact .inl rfl
      · rename_i hne
        exact .inr ⟨by simp [hne, hmem], hfind⟩

/-- No mark is of the epoch a search begins with. -/
theorem EpochInv.nextEpoch (h : EpochInv s) : EpochInv s.nextEpoch
    ∧ ∀ k, Marks.visited s.nextEpoch.cycleVisits s.nextEpoch.nextCycleVisitEpoch k = false := by
  unfold World.nextEpoch
  dsimp only
  split
  · have hcleared : ∀ k visit, (s.cycleVisits.keys.foldl (fun visits key =>
        visits.modify key fun visit => (0, visit.2)) s.cycleVisits).find? k = some visit →
        visit.1 = 0 := by
      intro k visit hfind
      rcases cleared_find _ hfind with hzero | ⟨hmem, hold⟩
      · exact hzero
      · exact absurd (Table.mem_keys.mpr ⟨visit, hold⟩) hmem
    refine ⟨⟨h.keyed, Nat.one_lt_two_pow (by decide), fun k visit hfind => ?_⟩, fun k => ?_⟩
    · rw [hcleared k visit hfind]
      exact Nat.zero_le 1
    · rw [← Bool.not_eq_true]
      intro hvisited
      obtain ⟨visit, hfind, hepoch⟩ := Option.any_eq_true _ _ |>.mp hvisited
      rw [hcleared k visit hfind] at hepoch
      cases hepoch
  · rename_i hwrap
    have hbound := h.bound
    have hnext : (s.nextCycleVisitEpoch + 1) % 2 ^ 64 = s.nextCycleVisitEpoch + 1 := by omega
    rw [hnext]
    refine ⟨⟨h.keyed, by change s.nextCycleVisitEpoch + 1 < _; omega, fun k visit hfind => ?_⟩,
      fun k => ?_⟩
    · exact Nat.le_succ_of_le (h.past k visit hfind)
    · rw [← Bool.not_eq_true]
      intro hvisited
      obtain ⟨visit, hfind, hepoch⟩ := Option.any_eq_true _ _ |>.mp hvisited
      have hpast := h.past k visit hfind
      rw [beq_iff_eq] at hepoch
      change visit.1 = s.nextCycleVisitEpoch + 1 at hepoch
      omega

/-! ## The search as a whole -/

/-- `detectCycle` with a number of rounds to search in. -/
def detectCycleWithin (s : World) (key : ArtifactKey) (rounds : Nat) : World × List ArtifactKey :=
  match s.nodes.find? key with
  | none => (s, [])
  | some node =>
    let s := s.nextEpoch
    let epoch := s.nextCycleVisitEpoch
    match cycleRoots epoch node s [] node.requirements with
    | (s, _, true) => (s, [key, key])
    | (s, stack, false) => cycleSearch epoch key rounds s stack

theorem detectCycle_within (s : World) (key : ArtifactKey) :
    s.detectCycle key = detectCycleWithin s key (s.nodes.keys.length + 1) := by
  unfold detectCycle detectCycleWithin
  cases s.nodes.find? key with
  | none => rfl
  | some node =>
    dsimp only
    have hmarks := cycleRoots_marks s.nextEpoch s.nextEpoch.nextCycleVisitEpoch node []
      node.requirements
    generalize cycleRoots s.nextEpoch.nextCycleVisitEpoch node s.nextEpoch [] node.requirements
      = roots at hmarks
    obtain ⟨u, stack, found⟩ := roots
    obtain ⟨_, _, rfl⟩ := hmarks
    obtain ⟨_, _, hnext⟩ := nextEpoch_marks s
    cases found with
    | true => rfl
    | false =>
      dsimp only
      rw [hnext]

/-- The keys a search takes off its stack, in the rounds it has. -/
def takenWithin (s : World) (key : ArtifactKey) (rounds : Nat) : List ArtifactKey :=
  match s.nodes.find? key with
  | none => []
  | some node =>
    let s := s.nextEpoch
    let epoch := s.nextCycleVisitEpoch
    match cycleRoots epoch node s [] node.requirements with
    | (_, _, true) => []
    | (s, stack, false) => cycleTaken epoch key rounds s stack

theorem requires_missing (hfind : s.nodes.find? key = none) :
    ¬Relation.TransGen (Requires s key) key key := by
  intro hcycle
  obtain ⟨b, ⟨node, hnode, -⟩, -⟩ := Relation.TransGen.head'_iff.mp hcycle
  rw [hfind] at hnode
  cases hnode

/-- What is found, and what it means. -/
structure Exact (s : World) (key : ArtifactKey) (found : World × List ArtifactKey) : Prop where
  inv : EpochInv found.1
  path : found.2 ≠ [] → ∃ path, found.2 = key :: path ++ [key] ∧ path.Nodup
    ∧ List.IsChain (Requires s key) (key :: path ++ [key])
  none : found.2 = [] → ¬Relation.TransGen (Requires s key) key key

/-- Marks made by a search are of its epoch. -/
theorem EpochInv.marked (h : EpochInv s) {marks : Marks ArtifactKey}
    (hbound : ∀ k visit, marks.find? k = some visit →
      s.cycleVisits.find? k = some visit ∨ visit.1 = s.nextCycleVisitEpoch) :
    EpochInv (marked s marks) where
  keyed := h.keyed
  bound := h.bound
  past k visit hfind := by
    rcases hbound k visit hfind with hold | hnew
    · exact h.past k visit hold
    · exact Nat.le_of_eq hnew

/-- The scan of the node's own requirements, from a state without marks of the epoch. -/
theorem roots_spec (hkey : node.key = key) (hfind : s.nodes.find? key = some node)
    (hnone : ∀ k, Marks.visited s.cycleVisits epoch k = false) :
    ∃ marks stack found new,
      cycleRoots epoch node s [] node.requirements = (marked s marks, stack, found)
      ∧ Scanned (requirementGraph s key) epoch key s.cycleVisits []
        ((requirementGraph s key).edges key) marks stack new
      ∧ (found = true → Requires s key key key)
      ∧ (found = false → Searching (requirementGraph s key) epoch marks stack) := by
  obtain ⟨new, hscanned, horigin, -⟩ := scan_spec (requirementGraph s key) epoch key s.cycleVisits []
    ((requirementGraph s key).edges key)
  have hroots : cycleRoots epoch node (marked s s.cycleVisits) [] node.requirements = _ :=
    cycleRoots_scan hkey node.requirements
  rw [← edges_of_find hfind] at hroots
  exact ⟨_, _, _, new, hroots, hscanned, fun hfound => edge_iff.mp (horigin.mp hfound),
    searching_start (g := requirementGraph s key) hnone⟩

/-- From a state without marks of the epoch the search is exact, once it has a round for every
node, and more rounds change nothing. -/
theorem search_exact (h : EpochInv s)
    (hnone : ∀ k, Marks.visited s.cycleVisits s.nextCycleVisitEpoch k = false)
    (hfind : s.nodes.find? key = some node) {rounds : Nat} (hrounds : s.nodes.keys.length < rounds) :
    Exact s key (match cycleRoots s.nextCycleVisitEpoch node s [] node.requirements with
        | (u, _, true) => (u, [key, key])
        | (u, stack, false) => cycleSearch s.nextCycleVisitEpoch key rounds u stack)
      ∧ ∀ more, (match cycleRoots s.nextCycleVisitEpoch node s [] node.requirements with
        | (u, _, true) => (u, [key, key])
        | (u, stack, false) => cycleSearch s.nextCycleVisitEpoch key (rounds + more) u stack)
        = match cycleRoots s.nextCycleVisitEpoch node s [] node.requirements with
        | (u, _, true) => (u, [key, key])
        | (u, stack, false) => cycleSearch s.nextCycleVisitEpoch key rounds u stack := by
  have hall (a : ArtifactKey) (ha : (requirementGraph s key).present a = true) :
      a ∈ s.nodes.keys := by
    obtain ⟨node, hnode⟩ := (Table.contains_iff _ _).mp ha
    exact Table.mem_keys.mpr ⟨node, hnode⟩
  obtain ⟨marks, stack, found, new, hroots, hscanned, hself, hstart⟩ :=
    roots_spec (h.keyed key node hfind) hfind hnone
  rw [hroots]
  cases found with
  | true =>
    refine ⟨⟨h.marked hscanned.bound, fun _ => ⟨[], rfl, .nil, ?_⟩, fun hnil => by cases hnil⟩,
      fun _ => rfl⟩
    rw [List.cons_append, List.nil_append, List.isChain_pair]
    exact hself rfl
  | false =>
    have hsearching := hstart rfl
    have hfuel : unvisited s.nextCycleVisitEpoch marks s.nodes.keys + stack.length < rounds := by
      have hle := hscanned.unvisited_le s.nodes.nodup_keys hall
      have htotal : unvisited s.nextCycleVisitEpoch s.cycleVisits s.nodes.keys
          ≤ s.nodes.keys.length := List.length_filter_le _ _
      have hstack : stack = new ++ [] := hscanned.stack
      rw [hstack, List.append_nil]
      omega
    obtain ⟨hfound, hnot, hmore⟩ := search_spec hsearching s.nodes.nodup_keys hall hfuel
    have hbound := (requirementGraph s key).search_bound s.nextCycleVisitEpoch marks stack rounds
    dsimp only
    rw [cycleSearch_search hsearching]
    refine ⟨⟨h.marked fun k visit hk => ?_, fun hne => ?_, fun hnil => ?_⟩, fun more => ?_⟩
    · exact (hbound k visit hk).elim (hscanned.bound k visit) .inr
    · cases hresult : ((requirementGraph s key).search s.nextCycleVisitEpoch rounds marks stack).2 with
      | none =>
        rw [hresult] at hne
        exact absurd rfl hne
      | some current =>
        obtain ⟨hedge, path, hpath⟩ := hfound current hresult
        refine ⟨path, ?_, hpath.nodup, ?_⟩
        · dsimp only
          rw [hpath.trace_eq (Nat.le_succ_of_le (hpath.length_le hall))]
        · have hchain := hpath.closed hedge
          rw [edge_eq] at hchain
          exact hchain
    · cases hresult : ((requirementGraph s key).search s.nextCycleVisitEpoch rounds marks stack).2 with
      | none =>
        have hacyclic := hnot hresult
        rw [edge_eq] at hacyclic
        exact hacyclic
      | some current =>
        rw [hresult] at hnil
        cases hnil
    · rw [cycleSearch_search hsearching, hmore]

theorem detectCycleWithin_exact (h : EpochInv s) (key : ArtifactKey) {rounds : Nat}
    (hrounds : s.nodes.keys.length < rounds) : Exact s key (detectCycleWithin s key rounds)
      ∧ ∀ more, detectCycleWithin s key (rounds + more) = detectCycleWithin s key rounds := by
  unfold detectCycleWithin
  cases hfind : s.nodes.find? key with
  | none => exact ⟨⟨h, fun hne => absurd rfl hne, fun _ => requires_missing hfind⟩, fun _ => rfl⟩
  | some node =>
    obtain ⟨hinv, hnone⟩ := h.nextEpoch
    obtain ⟨visits, epoch, hnext⟩ := nextEpoch_marks s
    dsimp only
    rw [hnext] at hinv hnone ⊢
    obtain ⟨hexact, hmore⟩ := search_exact hinv hnone hfind hrounds
    exact ⟨⟨hexact.inv, hexact.path, hexact.none⟩, hmore⟩

/-- Searches leave only marks of theirs. -/
theorem Searched.inv (h : Searched s) : EpochInv s := by
  induction h with
  | fresh hkeyed hvisits hepoch =>
    refine ⟨hkeyed, by rw [hepoch]; decide, fun k visit hfind => ?_⟩
    rw [hvisits, Table.find?_empty] at hfind
    cases hfind
  | edited _ hkeyed hvisits hepoch ih =>
    refine ⟨hkeyed, hepoch ▸ ih.bound, fun k visit hfind => ?_⟩
    rw [hepoch]
    exact ih.past k visit (hvisits k visit hfind)
  | search _ key ih =>
    rw [detectCycle_within]
    exact (detectCycleWithin_exact ih key (Nat.lt_succ_self _)).1.inv

theorem search_nodup (h : EpochInv s)
    (hnone : ∀ k, Marks.visited s.cycleVisits s.nextCycleVisitEpoch k = false)
    (hfind : s.nodes.find? key = some node) (rounds : Nat) :
    (match cycleRoots s.nextCycleVisitEpoch node s [] node.requirements with
      | (_, _, true) => []
      | (u, stack, false) => cycleTaken s.nextCycleVisitEpoch key rounds u stack).Nodup
    ∧ ∀ k ∈ (match cycleRoots s.nextCycleVisitEpoch node s [] node.requirements with
      | (_, _, true) => []
      | (u, stack, false) => cycleTaken s.nextCycleVisitEpoch key rounds u stack),
      s.nodes.contains k = true := by
  obtain ⟨marks, stack, found, new, hroots, hscanned, -, hstart⟩ :=
    roots_spec (h.keyed key node hfind) hfind hnone
  rw [hroots]
  cases found with
  | true => exact ⟨.nil, fun k hk => (by cases hk)⟩
  | false =>
    dsimp only
    rw [cycleTaken_taken (hstart rfl)]
    have hpresent : ∀ k ∈ stack, (requirementGraph s key).present k = true := by
      intro k hk
      obtain ⟨path, hpath⟩ := (hstart rfl).trails k ((hstart rfl).pending k hk)
      refine hpath.present k ?_
      cases hpath with
      | origin => exact absurd rfl ((hstart rfl).apart _ ((hstart rfl).pending _ hk))
      | next => exact List.mem_append_right _ List.mem_cons_self
    obtain ⟨hnodup, htaken⟩ := taken_spec (hstart rfl).nodup (hstart rfl).pending hpresent rounds
    exact ⟨hnodup, fun k hk => (htaken k hk).1⟩

/-- No node is looked at twice, whatever the rounds. -/
theorem takenWithin_nodup (h : EpochInv s) (key : ArtifactKey) (rounds : Nat) :
    (takenWithin s key rounds).Nodup
      ∧ ∀ k ∈ takenWithin s key rounds, s.nodes.contains k = true := by
  unfold takenWithin
  cases hfind : s.nodes.find? key with
  | none => exact ⟨.nil, fun k hk => (by cases hk)⟩
  | some node =>
    obtain ⟨hinv, hnone⟩ := h.nextEpoch
    obtain ⟨visits, epoch, hnext⟩ := nextEpoch_marks s
    dsimp only
    rw [hnext] at hinv hnone ⊢
    exact search_nodup hinv hnone hfind rounds

/-- **Cycle detection is exact.** After any searches, a path is found exactly when the node reaches
itself over mandatory requirements; it starts and ends at the node, passes no other node twice and
follows requirements. The search takes every node off its stack at most once, and given more rounds
than there are nodes to look at it ends the same. -/
theorem detectCycle_exact (h : Searched s) (key : ArtifactKey) :
    ((s.detectCycle key).2 ≠ [] ↔ Relation.TransGen (Requires s key) key key)
    ∧ ((s.detectCycle key).2 ≠ [] → ∃ path, (s.detectCycle key).2 = key :: path ++ [key]
      ∧ path.Nodup ∧ List.IsChain (Requires s key) (key :: path ++ [key]))
    ∧ (∀ rounds, (takenWithin s key rounds).Nodup
      ∧ ∀ k ∈ takenWithin s key rounds, s.nodes.contains k = true)
    ∧ ∀ more, detectCycleWithin s key (s.nodes.keys.length + 1 + more) = s.detectCycle key := by
  obtain ⟨hexact, hmore⟩ :=
    detectCycleWithin_exact h.inv key (Nat.lt_succ_self s.nodes.keys.length)
  rw [detectCycle_within]
  refine ⟨⟨fun hne => ?_, fun hcycle hnil => hexact.none hnil hcycle⟩, hexact.path,
    takenWithin_nodup h.inv key, hmore⟩
  obtain ⟨path, -, -, hchain⟩ := hexact.path hne
  rw [← edge_eq] at hchain ⊢
  exact transGen_of_chain (g := requirementGraph s key) hchain

/-- Two nodes that require each other. -/
def pair : World :=
  { start [] with
    nodes := ((∅ : Table ArtifactKey Node).insert {}
        { key := {}, requirements := [{ key := { primaryID := 1 } }] }).insert { primaryID := 1 }
        { key := { primaryID := 1 }, requirements := [{ key := {} }] } }

theorem pair_keyed : Keyed pair := by
  intro key node hfind
  change (Table.insert _ _ _).find? key = some node at hfind
  rw [Table.find?_insert, Table.find?_insert] at hfind
  split at hfind
  · cases hfind
    exact Eq.symm ‹_›
  · split at hfind
    · cases hfind
      exact Eq.symm ‹_›
    · cases hfind

/-- Either finds the cycle, the second search over the marks of the first. -/
theorem detectCycle_exact_pair :
    Relation.TransGen (Requires (pair.detectCycle { primaryID := 1 }).1 {}) {} {} :=
  (detectCycle_exact (.search (.fresh pair_keyed rfl rfl) { primaryID := 1 }) {}).1.mp
    (by decide +kernel)

end ModuleServices.Graph.Proof
