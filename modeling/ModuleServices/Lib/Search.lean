import ModuleServices.Lib.Table

/-!
# Depth-first search over marks that stay

A search for a way back to its own origin. The marks are kept from one search to the next: a mark
holds the epoch of the search that made it and the key it came from, and only those of the running
epoch count. `scan` looks at the edges of one key, `search` takes keys off the stack until one has
an edge to the origin, and `trace` goes back from there.

An absent key has no edges and is never marked.
-/

namespace Search

variable {κ : Type*} [DecidableEq κ]

/-- What is searched: the way back to `origin` over `edges` between the present keys. -/
structure Graph (κ : Type*) where
  origin : κ
  present : κ → Bool
  edges : κ → List κ
  absent : ∀ k, present k = false → edges k = []

abbrev Marks (κ : Type*) := Table κ (Nat × Option κ)

/-- Marked in this epoch. -/
def Marks.visited (m : Marks κ) (epoch : Nat) (k : κ) : Bool :=
  (m.find? k).any fun visit => visit.1 == epoch

namespace Graph

/-- The edges of `parent`: the marks and the stack they leave, and whether one leads to the origin. -/
def scan (g : Graph κ) (epoch : Nat) (parent : κ) :
    Marks κ → List κ → List κ → Marks κ × List κ × Bool
  | m, stack, [] => (m, stack, false)
  | m, stack, k :: ks =>
    if k = g.origin then (m, stack, true)
    else if !g.present k || m.visited epoch k then g.scan epoch parent m stack ks
    else g.scan epoch parent (m.insert k (epoch, some parent)) (k :: stack) ks

/-- The key whose edge leads to the origin, if the keys on the stack lead to one. -/
def search (g : Graph κ) (epoch : Nat) : Nat → Marks κ → List κ → Marks κ × Option κ
  | 0, m, _ => (m, none)
  | _ + 1, m, [] => (m, none)
  | fuel + 1, m, current :: stack =>
    match g.scan epoch current m stack (g.edges current) with
    | (m, _, true) => (m, some current)
    | (m, stack, false) => g.search epoch fuel m stack

/-- The keys the search takes off the stack. -/
def taken (g : Graph κ) (epoch : Nat) : Nat → Marks κ → List κ → List κ
  | 0, _, _ => []
  | _ + 1, _, [] => []
  | fuel + 1, m, current :: stack =>
    current ::
      match g.scan epoch current m stack (g.edges current) with
      | (_, _, true) => []
      | (m, stack, false) => g.taken epoch fuel m stack

/-- The marks followed from a key back to the origin, which is left out. -/
def trace (g : Graph κ) (m : Marks κ) : Nat → κ → List κ
  | 0, _ => []
  | fuel + 1, k =>
    if k = g.origin then []
    else
      match (if g.present k then m.find? k else none) with
      | some (_, some parent) => g.trace m fuel parent ++ [k]
      | _ => [k]

def Edge (g : Graph κ) (a b : κ) : Prop := b ∈ g.edges a

variable {g : Graph κ} {epoch : Nat} {m m' : Marks κ} {stack : List κ} {k : κ}

/-! ## One key's edges -/

section
variable {parent : κ} {ks : List κ}

theorem scan_origin (h : k = g.origin) :
    g.scan epoch parent m stack (k :: ks) = (m, stack, true) := if_pos h

theorem scan_skip (h : k ≠ g.origin) (hskip : (!g.present k || m.visited epoch k) = true) :
    g.scan epoch parent m stack (k :: ks) = g.scan epoch parent m stack ks :=
  (if_neg h).trans (if_pos hskip)

theorem scan_push (h : k ≠ g.origin) (hpush : ¬(!g.present k || m.visited epoch k) = true) :
    g.scan epoch parent m stack (k :: ks)
      = g.scan epoch parent (m.insert k (epoch, some parent)) (k :: stack) ks :=
  (if_neg h).trans (if_neg hpush)

end

/-- Marks of this epoch stay as they are. -/
def Extends (epoch : Nat) (m m' : Marks κ) : Prop :=
  ∀ k, m.visited epoch k = true → m'.find? k = m.find? k

theorem Extends.refl (m : Marks κ) : Extends epoch m m := fun _ _ => rfl

theorem Extends.visited (h : Extends epoch m m') (hk : m.visited epoch k = true) :
    m'.visited epoch k = true := by
  unfold Marks.visited
  rw [h k hk]
  exact hk

theorem Extends.trans {m'' : Marks κ} (h : Extends epoch m m') (h' : Extends epoch m' m'') :
    Extends epoch m m'' := fun k hk => (h' k (h.visited hk)).trans (h k hk)

theorem visited_insert (m : Marks κ) (a k : κ) (parent : Option κ) :
    Marks.visited (m.insert a (epoch, parent)) epoch k = (decide (k = a) || m.visited epoch k) := by
  unfold Marks.visited
  rw [Table.find?_insert]
  by_cases h : k = a
  · rw [if_pos h]
    simp [h]
  · rw [if_neg h]
    simp [h]

theorem extends_insert (hnot : m.visited epoch k = false) (parent : Option κ) :
    Extends epoch m (m.insert k (epoch, parent)) := by
  intro a ha
  have hne : a ≠ k := by
    rintro rfl
    rw [hnot] at ha
    cases ha
  rw [Table.find?_insert, if_neg hne]

/-- What a scan did: `new` are the keys it marked and pushed. -/
structure Scanned (g : Graph κ) (epoch : Nat) (parent : κ) (m : Marks κ) (stack ks : List κ)
    (m' : Marks κ) (stack' new : List κ) : Prop where
  extend : Extends epoch m m'
  stack : stack' = new ++ stack
  nodup : new.Nodup
  visited : ∀ k, m'.visited epoch k = true ↔ m.visited epoch k = true ∨ k ∈ new
  fresh : ∀ k ∈ new, k ∈ ks ∧ g.present k = true ∧ k ≠ g.origin ∧ m.visited epoch k = false
    ∧ m'.find? k = some (epoch, some parent)
  bound : ∀ k visit, m'.find? k = some visit → m.find? k = some visit ∨ visit.1 = epoch

theorem Scanned.of_nil (parent : κ) (m : Marks κ) (stack ks : List κ) :
    Scanned g epoch parent m stack ks m stack [] where
  extend := .refl m
  stack := rfl
  nodup := .nil
  visited k := by simp
  fresh k hk := by cases hk
  bound k visit h := .inl h

/-- An edge passed over adds nothing. -/
theorem Scanned.skip {parent a : κ} {ks stack' new : List κ}
    (h : Scanned g epoch parent m stack ks m' stack' new) :
    Scanned g epoch parent m stack (a :: ks) m' stack' new where
  extend := h.extend
  stack := h.stack
  nodup := h.nodup
  visited := h.visited
  fresh k hk := ⟨List.mem_cons_of_mem a (h.fresh k hk).1, (h.fresh k hk).2⟩
  bound := h.bound

/-- An edge to a key not yet visited pushes it before the others. -/
theorem Scanned.push {parent a : κ} {ks stack' new : List κ} (hpresent : g.present a = true)
    (horigin : a ≠ g.origin) (hnot : m.visited epoch a = false)
    (h : Scanned g epoch parent (m.insert a (epoch, some parent)) (a :: stack) ks m' stack' new) :
    Scanned g epoch parent m stack (a :: ks) m' stack' (new ++ [a]) := by
  have hinsert := extends_insert hnot (some parent)
  have hmarked : Marks.visited (m.insert a (epoch, some parent)) epoch a = true := by
    rw [visited_insert]
    simp
  have hapart : a ∉ new := by
    intro hmem
    have hfresh := (h.fresh a hmem).2.2.2.1
    rw [hmarked] at hfresh
    cases hfresh
  refine ⟨hinsert.trans h.extend, ?_, ?_, fun k => ?_, fun k hk => ?_, fun k visit hk => ?_⟩
  · rw [h.stack, List.append_assoc]
    rfl
  · exact h.nodup.append (List.nodup_singleton a) (List.disjoint_singleton.mpr hapart)
  · rw [h.visited, visited_insert, List.mem_append, List.mem_singleton, Bool.or_eq_true,
      decide_eq_true_eq]
    tauto
  · rcases List.mem_append.mp hk with hk | hk
    · obtain ⟨hmem, hpresent', horigin', hfresh, hfind⟩ := h.fresh k hk
      rw [visited_insert, Bool.or_eq_false_iff] at hfresh
      exact ⟨List.mem_cons_of_mem a hmem, hpresent', horigin', hfresh.2, hfind⟩
    · cases List.mem_singleton.mp hk
      refine ⟨List.mem_cons_self, hpresent, horigin, hnot, ?_⟩
      rw [h.extend a hmarked, Table.find?_insert, if_pos rfl]
  · rcases h.bound k visit hk with hfind | hepoch
    · rw [Table.find?_insert] at hfind
      split at hfind
      · cases hfind
        exact .inr rfl
      · exact .inl hfind
    · exact .inr hepoch

/-- A scan marks and pushes keys of its edges. It ends early only at an edge to the origin, and
otherwise leaves every present key of its edges visited. -/
theorem scan_spec (g : Graph κ) (epoch : Nat) (parent : κ) (m : Marks κ) (stack ks : List κ) :
    ∃ new, Scanned g epoch parent m stack ks (g.scan epoch parent m stack ks).1
        (g.scan epoch parent m stack ks).2.1 new
      ∧ ((g.scan epoch parent m stack ks).2.2 = true ↔ g.origin ∈ ks)
      ∧ ((g.scan epoch parent m stack ks).2.2 = false → ∀ k ∈ ks, g.present k = true →
        (g.scan epoch parent m stack ks).1.visited epoch k = true) := by
  induction ks generalizing m stack with
  | nil => exact ⟨[], .of_nil parent m stack [], by simp [scan], fun _ k hk => by cases hk⟩
  | cons a ks ih =>
    by_cases horigin : a = g.origin
    · rw [scan_origin horigin]
      exact ⟨[], .of_nil parent m stack _, by simp [horigin], fun hfalse => by cases hfalse⟩
    by_cases hskip : (!g.present a || m.visited epoch a) = true
    · rw [scan_skip horigin hskip]
      obtain ⟨new, hscanned, hfound, hall⟩ := ih m stack
      refine ⟨new, hscanned.skip, ?_, fun hfalse k hk hpresent => ?_⟩
      · rw [hfound, List.mem_cons]
        exact ⟨.inr, fun h => h.resolve_left (Ne.symm horigin)⟩
      · rcases List.mem_cons.mp hk with rfl | hk
        · rw [hpresent] at hskip
          exact hscanned.extend.visited hskip
        · exact hall hfalse k hk hpresent
    · rw [scan_push horigin hskip]
      rw [Bool.or_eq_true, Bool.not_eq_true', not_or, Bool.not_eq_false, Bool.not_eq_true] at hskip
      obtain ⟨new, hscanned, hfound, hall⟩ := ih (m.insert a (epoch, some parent)) (a :: stack)
      refine ⟨new ++ [a], hscanned.push hskip.1 horigin hskip.2, ?_, fun hfalse k hk hpresent => ?_⟩
      · rw [hfound, List.mem_cons]
        exact ⟨.inr, fun h => h.resolve_left (Ne.symm horigin)⟩
      · rcases List.mem_cons.mp hk with rfl | hk
        · exact hscanned.extend.visited (by rw [visited_insert]; simp)
        · exact hall hfalse k hk hpresent

/-! ## The way back -/

/-- Marks of this epoch lead from a key back to the origin, along edges. -/
inductive Trail (g : Graph κ) (epoch : Nat) (m : Marks κ) : κ → List κ → Prop where
  | origin : Trail g epoch m g.origin []
  | next {k parent : κ} {path : List κ} (hfind : m.find? k = some (epoch, some parent))
      (hpresent : g.present k = true) (horigin : k ≠ g.origin) (hedge : g.Edge parent k)
      (hparent : Trail g epoch m parent path) (hfresh : k ∉ path) :
      Trail g epoch m k (path ++ [k])

theorem visited_of_find {parent : Option κ} (h : m.find? k = some (epoch, parent)) :
    m.visited epoch k = true := by
  unfold Marks.visited
  rw [h]
  simp

namespace Trail

variable {path : List κ}

theorem extend (h : Trail g epoch m k path) (hext : Extends epoch m m') :
    Trail g epoch m' k path := by
  induction h with
  | origin => exact .origin
  | next hfind hpresent horigin hedge _ hfresh ih =>
    exact .next ((hext _ (visited_of_find hfind)).trans hfind) hpresent horigin hedge ih hfresh

theorem visited (h : Trail g epoch m k path) : ∀ a ∈ path, m.visited epoch a = true := by
  induction h with
  | origin => exact fun a ha => by cases ha
  | next hfind _ _ _ _ _ ih =>
    intro a ha
    rcases List.mem_append.mp ha with ha | ha
    · exact ih a ha
    · cases List.mem_singleton.mp ha
      exact visited_of_find hfind

theorem present (h : Trail g epoch m k path) : ∀ a ∈ path, g.present a = true := by
  induction h with
  | origin => exact fun a ha => by cases ha
  | next _ hpresent _ _ _ _ ih =>
    intro a ha
    rcases List.mem_append.mp ha with ha | ha
    · exact ih a ha
    · cases List.mem_singleton.mp ha
      exact hpresent

theorem nodup (h : Trail g epoch m k path) : path.Nodup := by
  induction h with
  | origin => exact .nil
  | next _ _ _ _ _ hfresh ih =>
    exact ih.append (List.nodup_singleton _) (List.disjoint_singleton.mpr hfresh)

theorem last (h : Trail g epoch m k path) : (g.origin :: path).getLast? = some k := by
  cases h with
  | origin => rfl
  | next => rw [← List.cons_append, List.getLast?_append]; rfl

theorem chain (h : Trail g epoch m k path) : List.IsChain g.Edge (g.origin :: path) := by
  induction h with
  | origin => exact .singleton _
  | next _ _ _ hedge hparent _ ih =>
    rw [← List.cons_append, List.isChain_append]
    refine ⟨ih, .singleton _, fun a ha b hb => ?_⟩
    rw [hparent.last] at ha
    cases ha
    cases hb
    exact hedge

/-- Closed by an edge to the origin, it is a way around. -/
theorem closed (h : Trail g epoch m k path) (hedge : g.Edge k g.origin) :
    List.IsChain g.Edge (g.origin :: path ++ [g.origin]) := by
  rw [List.isChain_append]
  refine ⟨h.chain, .singleton _, fun a ha b hb => ?_⟩
  rw [h.last] at ha
  cases ha
  cases hb
  exact hedge

/-- `trace` reads the trail off the marks. -/
theorem trace_eq (h : Trail g epoch m k path) {fuel : Nat} (hfuel : path.length ≤ fuel) :
    g.trace m fuel k = path := by
  induction h generalizing fuel with
  | origin =>
    cases fuel with
    | zero => rfl
    | succ fuel => exact if_pos rfl
  | next hfind hpresent horigin _ _ _ ih =>
    rw [List.length_append, List.length_singleton] at hfuel
    obtain ⟨fuel, rfl⟩ : ∃ n, fuel = n + 1 := ⟨fuel - 1, by omega⟩
    unfold trace
    rw [if_neg horigin, if_pos hpresent, hfind]
    dsimp only
    rw [ih (by omega)]

theorem length_le (h : Trail g epoch m k path) {all : List κ}
    (hall : ∀ a, g.present a = true → a ∈ all) : path.length ≤ all.length :=
  (h.nodup.subperm fun a ha => hall a (h.present a ha)).length_le

end Trail

omit [DecidableEq κ] in
/-- A way around from the origin back to it. -/
theorem transGen_of_chain {path : List κ} (h : List.IsChain g.Edge (g.origin :: path ++ [g.origin])) :
    Relation.TransGen g.Edge g.origin g.origin := by
  have hgen (a : κ) (rest : List κ) (hchain : List.IsChain g.Edge (a :: rest ++ [g.origin])) :
      Relation.TransGen g.Edge a g.origin := by
    induction rest generalizing a with
    | nil =>
      rw [List.cons_append, List.nil_append, List.isChain_pair] at hchain
      exact .single hchain
    | cons b rest ih =>
      rw [List.cons_append, List.cons_append, List.isChain_cons_cons] at hchain
      exact .head hchain.1 (ih b hchain.2)
  exact hgen g.origin path h

/-! ## The search -/

/-- Every key visited has a trail, and every one that has been taken off the stack has no edge to
the origin and none to a present key that is not visited. -/
structure Searching (g : Graph κ) (epoch : Nat) (m : Marks κ) (stack : List κ) : Prop where
  nodup : stack.Nodup
  pending : ∀ k ∈ stack, m.visited epoch k = true
  apart : ∀ k, m.visited epoch k = true → k ≠ g.origin
  trails : ∀ k, m.visited epoch k = true → ∃ path, Trail g epoch m k path
  closed : ∀ k, m.visited epoch k = true → k ∉ stack →
    ∀ b, g.Edge k b → b ≠ g.origin ∧ (g.present b = true → m.visited epoch b = true)
  roots : ∀ b, g.Edge g.origin b →
    b ≠ g.origin ∧ (g.present b = true → m.visited epoch b = true)

/-- The keys a scan pushes have trails through the key scanned. -/
theorem Scanned.trails {parent : κ} {stack' new path : List κ}
    (h : Scanned g epoch parent m stack (g.edges parent) m' stack' new)
    (hparent : Trail g epoch m parent path) (hk : k ∈ new) :
    Trail g epoch m' k (path ++ [k]) := by
  obtain ⟨hedge, hpresent, horigin, hnot, hfind⟩ := h.fresh k hk
  refine .next hfind hpresent horigin hedge (hparent.extend h.extend) fun hmem => ?_
  rw [hparent.visited k hmem] at hnot
  cases hnot

theorem Scanned.all_trails {parent : κ} {stack' new path : List κ}
    (h : Scanned g epoch parent m stack (g.edges parent) m' stack' new)
    (hparent : Trail g epoch m parent path)
    (htrails : ∀ k, m.visited epoch k = true → ∃ path, Trail g epoch m k path) :
    ∀ k, m'.visited epoch k = true → ∃ path, Trail g epoch m' k path := by
  intro k hk
  rcases (h.visited k).mp hk with hold | hnew
  · obtain ⟨path', hpath'⟩ := htrails k hold
    exact ⟨path', hpath'.extend h.extend⟩
  · exact ⟨_, h.trails hparent hnew⟩

theorem Scanned.all_apart {parent : κ} {ks stack' new : List κ}
    (h : Scanned g epoch parent m stack ks m' stack' new)
    (hapart : ∀ k, m.visited epoch k = true → k ≠ g.origin) :
    ∀ k, m'.visited epoch k = true → k ≠ g.origin := by
  intro k hk
  rcases (h.visited k).mp hk with hold | hnew
  · exact hapart k hold
  · exact (h.fresh k hnew).2.2.1

/-- The search starts with the origin's own edges. -/
theorem searching_start (hnone : ∀ k, m.visited epoch k = false)
    (hfound : (g.scan epoch g.origin m [] (g.edges g.origin)).2.2 = false) :
    Searching g epoch (g.scan epoch g.origin m [] (g.edges g.origin)).1
      (g.scan epoch g.origin m [] (g.edges g.origin)).2.1 := by
  obtain ⟨new, hscanned, horigin, hall⟩ := scan_spec g epoch g.origin m [] (g.edges g.origin)
  have hnew (k : κ) : (g.scan epoch g.origin m [] (g.edges g.origin)).1.visited epoch k = true
      → k ∈ new := by
    rw [hscanned.visited, hnone]
    simp
  have hnot : g.origin ∉ g.edges g.origin := by
    rw [← horigin, hfound]
    exact Bool.false_ne_true
  rw [hscanned.stack, List.append_nil]
  refine ⟨hscanned.nodup, fun k hk => (hscanned.visited k).mpr (.inr hk),
    fun k hk => (hscanned.fresh k (hnew k hk)).2.2.1, hscanned.all_trails .origin fun k hk => ?_, fun k hk hmem => absurd (hnew k hk) hmem,
    fun b hb => ⟨fun heq => hnot (heq ▸ hb), hall hfound b hb⟩⟩
  rw [hnone] at hk
  cases hk

/-- One key taken off the stack and scanned. -/
theorem Searching.step {current : κ} (h : Searching g epoch m (current :: stack))
    (hfound : (g.scan epoch current m stack (g.edges current)).2.2 = false) :
    Searching g epoch (g.scan epoch current m stack (g.edges current)).1
      (g.scan epoch current m stack (g.edges current)).2.1 := by
  obtain ⟨new, hscanned, horigin, hall⟩ := scan_spec g epoch current m stack (g.edges current)
  obtain ⟨hcurrent, hstack⟩ := List.nodup_cons.mp h.nodup
  obtain ⟨path, hpath⟩ := h.trails current (h.pending current List.mem_cons_self)
  have hnot : g.origin ∉ g.edges current := by
    rw [← horigin, hfound]
    exact Bool.false_ne_true
  rw [hscanned.stack]
  refine ⟨?_, ?_, hscanned.all_apart h.apart, hscanned.all_trails hpath h.trails, ?_, ?_⟩
  · refine hscanned.nodup.append hstack fun k hk hmem => ?_
    have hold := h.pending k (List.mem_cons_of_mem current hmem)
    rw [(hscanned.fresh k hk).2.2.2.1] at hold
    cases hold
  · intro k hk
    rcases List.mem_append.mp hk with hk | hk
    · exact (hscanned.visited k).mpr (.inr hk)
    · exact hscanned.extend.visited (h.pending k (List.mem_cons_of_mem current hk))
  · intro k hk hmem b hb
    rw [List.mem_append, not_or] at hmem
    by_cases heq : k = current
    · subst heq
      exact ⟨fun heq => hnot (heq ▸ hb), hall hfound b hb⟩
    · have hold := ((hscanned.visited k).mp hk).resolve_right hmem.1
      obtain ⟨hne, hvisited⟩ := h.closed k hold (by simp [heq, hmem.2]) b hb
      exact ⟨hne, fun hpresent => hscanned.extend.visited (hvisited hpresent)⟩
  · intro b hb
    obtain ⟨hne, hvisited⟩ := h.roots b hb
    exact ⟨hne, fun hpresent => hscanned.extend.visited (hvisited hpresent)⟩

/-- With nothing left on the stack there is no way around. -/
theorem Searching.acyclic (h : Searching g epoch m []) :
    ¬Relation.TransGen g.Edge g.origin g.origin := by
  have hreached (b : κ) (hb : Relation.TransGen g.Edge g.origin b) :
      b ≠ g.origin ∧ (g.present b = true → m.visited epoch b = true) := by
    induction hb with
    | single hedge => exact h.roots _ hedge
    | tail _ hedge ih =>
      rename_i b c _
      have hpresent : g.present b = true := by
        rw [← Bool.not_eq_false]
        intro habsent
        unfold Edge at hedge
        rw [g.absent b habsent] at hedge
        cases hedge
      exact h.closed b (ih.2 hpresent) List.not_mem_nil c hedge
  exact fun hcycle => (hreached g.origin hcycle).1 rfl

/-! ## It ends -/

/-- The keys of `all` not yet visited. -/
def unvisited (epoch : Nat) (m : Marks κ) (all : List κ) : Nat :=
  (all.filter fun k => !m.visited epoch k).length

/-- What a scan pushes was not visited before. -/
theorem Scanned.unvisited_le {parent : κ} {ks stack' new all : List κ}
    (h : Scanned g epoch parent m stack ks m' stack' new) (hnodup : all.Nodup)
    (hall : ∀ a, g.present a = true → a ∈ all) :
    unvisited epoch m' all + new.length ≤ unvisited epoch m all := by
  have hsub : all.filter (fun k => !m'.visited epoch k) ++ new
      ⊆ all.filter fun k => !m.visited epoch k := by
    intro k hk
    rw [List.mem_filter]
    rcases List.mem_append.mp hk with hk | hk
    · obtain ⟨hmem, hnot⟩ := List.mem_filter.mp hk
      refine ⟨hmem, ?_⟩
      rw [Bool.not_eq_true'] at hnot ⊢
      rw [← Bool.not_eq_true] at hnot ⊢
      exact fun hold => hnot (h.extend.visited hold)
    · obtain ⟨-, hpresent, -, hnot, -⟩ := h.fresh k hk
      exact ⟨hall k hpresent, by rw [hnot]; rfl⟩
  have hdisjoint : (all.filter fun k => !m'.visited epoch k).Disjoint new := by
    intro k hk hmem
    have hnot := (List.mem_filter.mp hk).2
    rw [(h.visited k).mpr (.inr hmem)] at hnot
    cases hnot
  have hle := (((hnodup.filter _).append h.nodup hdisjoint).subperm hsub).length_le
  rwa [List.length_append] at hle

/-- With a round for every key not yet visited or on the stack, the search finds an edge back to
the origin or there is no way around, and more rounds change nothing. -/
theorem search_spec (h : Searching g epoch m stack) {all : List κ} (hnodup : all.Nodup)
    (hall : ∀ a, g.present a = true → a ∈ all) {fuel : Nat}
    (hfuel : unvisited epoch m all + stack.length < fuel) :
    (∀ current, (g.search epoch fuel m stack).2 = some current → g.Edge current g.origin
        ∧ ∃ path, Trail g epoch (g.search epoch fuel m stack).1 current path)
      ∧ ((g.search epoch fuel m stack).2 = none → ¬Relation.TransGen g.Edge g.origin g.origin)
      ∧ ∀ more, g.search epoch (fuel + more) m stack = g.search epoch fuel m stack := by
  induction fuel generalizing m stack with
  | zero => omega
  | succ fuel ih =>
    cases stack with
    | nil =>
      refine ⟨fun current hfound => (by cases hfound), fun _ => h.acyclic, fun more => ?_⟩
      rw [Nat.add_right_comm]
      rfl
    | cons current stack =>
      obtain ⟨new, hscanned, horigin, -⟩ := scan_spec g epoch current m stack (g.edges current)
      have hless := hscanned.unvisited_le hnodup hall
      have hstep := h.step
      obtain ⟨path, hpath⟩ := h.trails current (h.pending current List.mem_cons_self)
      rw [List.length_cons] at hfuel
      simp only [Nat.add_right_comm fuel 1, search]
      generalize g.scan epoch current m stack (g.edges current) = scanned
        at hscanned horigin hless hstep
      obtain ⟨m', stack', found⟩ := scanned
      cases found with
      | true =>
        refine ⟨fun other hother => ?_, fun hnone => (by cases hnone), fun more => rfl⟩
        cases hother
        exact ⟨horigin.mp rfl, path, hpath.extend hscanned.extend⟩
      | false =>
        have hlength : stack'.length = new.length + stack.length :=
          (congrArg List.length hscanned.stack).trans List.length_append
        dsimp only at hless
        exact ih (hstep rfl) (by omega)

/-- No key is taken off the stack twice. -/
theorem taken_spec (hnodup : stack.Nodup) (hpending : ∀ k ∈ stack, m.visited epoch k = true)
    (hpresent : ∀ k ∈ stack, g.present k = true) (fuel : Nat) :
    (g.taken epoch fuel m stack).Nodup ∧ ∀ k ∈ g.taken epoch fuel m stack,
      g.present k = true ∧ (k ∈ stack ∨ m.visited epoch k = false) := by
  induction fuel generalizing m stack with
  | zero => exact ⟨.nil, fun k hk => (by cases hk)⟩
  | succ fuel ih =>
    cases stack with
    | nil => exact ⟨.nil, fun k hk => (by cases hk)⟩
    | cons current stack =>
      obtain ⟨new, hscanned, -, -⟩ := scan_spec g epoch current m stack (g.edges current)
      obtain ⟨hcurrent, hstack⟩ := List.nodup_cons.mp hnodup
      have hhead := hpending current List.mem_cons_self
      unfold taken
      generalize g.scan epoch current m stack (g.edges current) = scanned at hscanned
      obtain ⟨m', stack', found⟩ := scanned
      have hself : g.present current = true
          ∧ (current ∈ current :: stack ∨ m.visited epoch current = false) :=
        ⟨hpresent current List.mem_cons_self, .inl List.mem_cons_self⟩
      cases found with
      | true =>
        refine ⟨List.nodup_singleton current, fun k hk => ?_⟩
        cases List.mem_singleton.mp hk
        exact hself
      | false =>
        dsimp only
        have hstack' : stack' = new ++ stack := hscanned.stack
        have hnew (k : κ) (hk : k ∈ new) : g.present k = true ∧ m.visited epoch k = false :=
          ⟨(hscanned.fresh k hk).2.1, (hscanned.fresh k hk).2.2.2.1⟩
        have hold (k : κ) (hk : k ∈ stack) : m.visited epoch k = true :=
          hpending k (List.mem_cons_of_mem current hk)
        have hrest := @ih m' stack' ?_ ?_ ?_
        · refine ⟨List.nodup_cons.mpr ⟨fun hmem => ?_, hrest.1⟩, fun k hk => ?_⟩
          · rcases (hrest.2 current hmem).2 with hon | hnot
            · rw [hstack', List.mem_append] at hon
              rcases hon with hon | hon
              · have hfalse := (hnew current hon).2
                rw [hhead] at hfalse
                cases hfalse
              · exact hcurrent hon
            · rw [hscanned.extend.visited hhead] at hnot
              cases hnot
          · rcases List.mem_cons.mp hk with rfl | hk
            · exact hself
            obtain ⟨hpresent', hon | hnot⟩ := hrest.2 k hk
            · rw [hstack', List.mem_append] at hon
              rcases hon with hon | hon
              · exact ⟨hpresent', .inr (hnew k hon).2⟩
              · exact ⟨hpresent', .inl (List.mem_cons_of_mem current hon)⟩
            · refine ⟨hpresent', .inr ?_⟩
              rw [← Bool.not_eq_true] at hnot ⊢
              exact fun hvisited => hnot (hscanned.extend.visited hvisited)
        · rw [hstack']
          refine hscanned.nodup.append hstack fun k hk hmem => ?_
          have hfalse := (hnew k hk).2
          rw [hold k hmem] at hfalse
          cases hfalse
        · intro k hk
          rw [hstack', List.mem_append] at hk
          rcases hk with hk | hk
          · exact (hscanned.visited k).mpr (.inr hk)
          · exact hscanned.extend.visited (hold k hk)
        · intro k hk
          rw [hstack', List.mem_append] at hk
          rcases hk with hk | hk
          · exact (hnew k hk).1
          · exact hpresent k (List.mem_cons_of_mem current hk)

/-- What is marked after a search was marked before or is of its epoch. -/
theorem search_bound (g : Graph κ) (epoch : Nat) (m : Marks κ) (stack : List κ) (fuel : Nat) :
    ∀ k visit, (g.search epoch fuel m stack).1.find? k = some visit →
      m.find? k = some visit ∨ visit.1 = epoch := by
  induction fuel generalizing m stack with
  | zero => exact fun _ _ => .inl
  | succ fuel ih =>
    cases stack with
    | nil => exact fun _ _ => .inl
    | cons current stack =>
      obtain ⟨new, hscanned, -, -⟩ := scan_spec g epoch current m stack (g.edges current)
      unfold search
      generalize g.scan epoch current m stack (g.edges current) = scanned at hscanned
      obtain ⟨m', stack', found⟩ := scanned
      cases found with
      | true => exact hscanned.bound
      | false =>
        intro k visit hk
        exact (ih m' stack' k visit hk).elim (hscanned.bound k visit) .inr

end Graph

end Search
