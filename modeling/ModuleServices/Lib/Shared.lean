import Mathlib

/-!
# Cells behind counted references

A list of references into cells that others hold references into as well. Writing a cell
through one of the references first copies it when its use count is not one. The two
operations that change what a list of references shows, `push` and `replace`, are described
by what they do to the values shown and by `Keeps`: no list of references held elsewhere
shows anything else than before.
-/

namespace Shared

variable {α : Type*}

/-- All cells ever made, and one list of references to them. -/
structure Cells (α : Type*) where
  cells : List α := []
  refs : List Nat := []

/-- The values a list of references shows. -/
def deref (d : α) (cells : List α) (refs : List Nat) : List α := refs.map fun r => cells.getD r d

/-- How many references to a cell there are, in `refs` and in the lists held elsewhere. -/
def useCount (held : List (List Nat)) (refs : List Nat) (r : Nat) : Nat :=
  refs.count r + (held.map (List.count r)).sum

namespace Cells

variable {d a : α} {held : List (List Nat)} {s t u : Cells α} {k : Nat}

def view (d : α) (s : Cells α) : List α := deref d s.cells s.refs

/-- The value at one place of the list. -/
def get (d : α) (s : Cells α) (k : Nat) : α := s.cells.getD (s.refs.getD k 0) d

/-- A new cell at the end of the list. -/
def push (s : Cells α) (a : α) : Cells α :=
  { cells := s.cells ++ [a], refs := s.refs ++ [s.cells.length] }

/-- A copy of a cell that is not the list's alone. -/
def unshare (held : List (List Nat)) (d : α) (s : Cells α) (k : Nat) : Cells α :=
  if useCount held s.refs (s.refs.getD k 0) ≠ 1 then
    { cells := s.cells ++ [s.get d k], refs := s.refs.set k s.cells.length }
  else s

/-- A write into a cell. -/
def store (s : Cells α) (k : Nat) (a : α) : Cells α :=
  { s with cells := s.cells.set (s.refs.getD k 0) a }

/-- A write through the list: into a cell of its own. -/
def replace (held : List (List Nat)) (d : α) (s : Cells α) (k : Nat) (a : α) : Cells α :=
  (s.unshare held d k).store k a

/-- Every reference is to a cell. -/
structure Sound (held : List (List Nat)) (s : Cells α) : Prop where
  own : ∀ r ∈ s.refs, r < s.cells.length
  held : ∀ refs ∈ held, ∀ r ∈ refs, r < s.cells.length

/-- The references held elsewhere show what they showed. -/
structure Keeps (d : α) (held : List (List Nat)) (s t : Cells α) : Prop where
  sound : Sound held t
  shown : ∀ refs ∈ held, deref d t.cells refs = deref d s.cells refs

theorem Keeps.refl (h : Sound held s) : Keeps d held s s := ⟨h, fun _ _ => rfl⟩

theorem Keeps.trans (h : Keeps d held s t) (h' : Keeps d held t u) : Keeps d held s u :=
  ⟨h'.sound, fun refs hrefs => (h'.shown refs hrefs).trans (h.shown refs hrefs)⟩

theorem deref_congr {cells cells' : List α} {refs : List Nat}
    (h : ∀ r ∈ refs, cells'.getD r d = cells.getD r d) : deref d cells' refs = deref d cells refs :=
  List.map_congr_left h

@[simp] theorem length_view : (s.view d).length = s.refs.length := List.length_map _

theorem getD_view (hk : k < s.refs.length) (d' : α) : (s.view d).getD k d' = s.get d k := by
  unfold view deref get
  rw [List.getD_eq_getElem _ _ (by rwa [List.length_map]), List.getElem_map,
    List.getD_eq_getElem _ _ hk]

theorem push_spec (h : Sound held s) (a : α) :
    Keeps d held s (s.push a) ∧ (s.push a).view d = s.view d ++ [a] := by
  have hold : ∀ r, r < s.cells.length → (s.cells ++ [a]).getD r d = s.cells.getD r d :=
    fun r hr => List.getD_append _ _ _ _ hr
  have hlength : (s.cells ++ [a]).length = s.cells.length + 1 := List.length_append
  refine ⟨⟨⟨fun r hr => ?_, fun refs hrefs r hr => ?_⟩, fun refs hrefs => ?_⟩, ?_⟩
  · show r < (s.cells ++ [a]).length
    rw [hlength]
    rcases List.mem_append.mp hr with hr | hr
    · exact Nat.lt_succ_of_lt (h.own r hr)
    · rw [List.mem_singleton.mp hr]
      exact Nat.lt_succ_self _
  · show r < (s.cells ++ [a]).length
    rw [hlength]
    exact Nat.lt_succ_of_lt (h.held refs hrefs r hr)
  · exact deref_congr fun r hr => hold r (h.held refs hrefs r hr)
  · show deref d (s.cells ++ [a]) (s.refs ++ [s.cells.length]) = _
    unfold deref
    rw [List.map_append, List.map_singleton, List.getD_append_right _ _ _ _ (Nat.le_refl _),
      Nat.sub_self]
    congr 1
    exact List.map_congr_left fun r hr => hold r (h.own r hr)

/-- What a copy shows at its place is what was there. -/
theorem get_unshare (hk : k < s.refs.length) : (s.unshare held d k).get d k = s.get d k := by
  unfold unshare
  split
  · show (s.cells ++ [s.get d k]).getD ((s.refs.set k s.cells.length).getD k 0) d = _
    have hnew : (s.refs.set k s.cells.length).getD k 0 = s.cells.length := by
      rw [List.getD_eq_getElem _ _ (by rwa [List.length_set]), List.getElem_set_self]
    rw [hnew, List.getD_append_right _ _ _ _ (Nat.le_refl _), Nat.sub_self]
    rfl
  · rfl

theorem useCount_eq_one {refs : List Nat} {r : Nat} (hmem : r ∈ refs)
    (h : useCount held refs r = 1) : refs.count r = 1 ∧ ∀ other ∈ held, r ∉ other := by
  have hpos : 0 < refs.count r := List.count_pos_iff.mpr hmem
  unfold useCount at h
  refine ⟨by omega, fun other hother hr => ?_⟩
  have hle := List.le_sum_of_mem (List.mem_map_of_mem (f := List.count r) hother)
  have := List.count_pos_iff.mpr hr
  omega

/-- Referred to once in the list, a cell is referred to at one place of it. -/
theorem index_of_count_one {refs : List Nat} {j : Nat} (hj : j < refs.length)
    (hk : k < refs.length) (hone : refs.count refs[k] = 1) (heq : refs[j] = refs[k]) : j = k := by
  by_contra hne
  have hset := List.count_set (a := refs[k] + 1) (b := refs[k]) hk
  rw [hone] at hset
  simp only [beq_self_eq_true, if_true] at hset
  have hmem : refs[k] ∈ refs.set k (refs[k] + 1) := by
    rw [← heq]
    refine List.mem_iff_getElem.mpr ⟨j, by rwa [List.length_set], ?_⟩
    exact List.getElem_set_of_ne (Ne.symm hne) _ _
  have := List.count_pos_iff.mpr hmem
  simp at hset
  omega

/-- **A write through the list** changes what it shows at one place, and nothing shown elsewhere. -/
theorem replace_spec (h : Sound held s) (hk : k < s.refs.length) (a : α) :
    Keeps d held s (s.replace held d k a) ∧ (s.replace held d k a).view d = (s.view d).set k a := by
  have hget : s.refs.getD k 0 = s.refs[k] := List.getD_eq_getElem _ _ hk
  have hmem : s.refs[k] ∈ s.refs := List.getElem_mem hk
  unfold replace unshare
  split
  · -- a copy: the new cell is the last one, and nobody else refers to it
    generalize hcopied : s.cells ++ [s.get d k] = copied
    have hlength : copied.length = s.cells.length + 1 := by
      rw [← hcopied]
      exact List.length_append
    have hnew : (s.refs.set k s.cells.length).getD k 0 = s.cells.length := by
      rw [List.getD_eq_getElem _ _ (by rwa [List.length_set]), List.getElem_set_self]
    have hold : ∀ r, r < s.cells.length →
        (copied.set s.cells.length a).getD r d = s.cells.getD r d := by
      intro r hr
      rw [List.getD_eq_getElem?_getD, List.getElem?_set_ne (by omega), ← List.getD_eq_getElem?_getD,
        ← hcopied]
      exact List.getD_append _ _ _ _ hr
    have hlast : (copied.set s.cells.length a).getD s.cells.length d = a := by
      rw [List.getD_eq_getElem _ _ (by rw [List.length_set]; omega), List.getElem_set_self]
    unfold store
    simp only [hnew]
    refine ⟨⟨⟨fun r hr => ?_, fun refs hrefs r hr => ?_⟩, fun refs hrefs => ?_⟩, ?_⟩
    · show r < (copied.set s.cells.length a).length
      rw [List.length_set, hlength]
      rcases List.mem_or_eq_of_mem_set hr with hr | rfl
      · exact Nat.lt_succ_of_lt (h.own r hr)
      · exact Nat.lt_succ_self _
    · show r < (copied.set s.cells.length a).length
      rw [List.length_set, hlength]
      exact Nat.lt_succ_of_lt (h.held refs hrefs r hr)
    · exact deref_congr fun r hr => hold r (h.held refs hrefs r hr)
    · refine List.ext_getElem (by simp [view, deref]) fun j h₁ h₂ => ?_
      have hj : j < s.refs.length := by simpa [view, deref] using h₁
      simp only [view, deref, List.getElem_map, List.getElem_set]
      split
      · exact hlast
      · exact hold _ (h.own _ (List.getElem_mem hj))
  · -- in place: the only reference there is
    rename_i hunique
    rw [hget, not_not] at hunique
    obtain ⟨hone, hother⟩ := useCount_eq_one hmem hunique
    have hkept : ∀ r, r ≠ s.refs[k] → (s.cells.set s.refs[k] a).getD r d = s.cells.getD r d := by
      intro r hr
      rw [List.getD_eq_getElem?_getD, List.getElem?_set_ne hr.symm, ← List.getD_eq_getElem?_getD]
    unfold store
    rw [hget]
    refine ⟨⟨⟨fun r hr => ?_, fun refs hrefs r hr => ?_⟩, fun refs hrefs => ?_⟩, ?_⟩
    · show r < (s.cells.set s.refs[k] a).length
      rw [List.length_set]
      exact h.own r hr
    · show r < (s.cells.set s.refs[k] a).length
      rw [List.length_set]
      exact h.held refs hrefs r hr
    · exact deref_congr fun r hr => hkept r fun heq => hother refs hrefs (heq ▸ hr)
    · refine List.ext_getElem (by simp [view, deref]) fun j h₁ h₂ => ?_
      have hj : j < s.refs.length := by simpa [view, deref] using h₁
      simp only [view, deref, List.getElem_map, List.getElem_set]
      split
      · rename_i heq
        subst heq
        rw [List.getD_eq_getElem _ _ (by rw [List.length_set]; exact h.own _ hmem),
          List.getElem_set_self]
      · rename_i hne
        exact hkept _ fun heq => hne (index_of_count_one hj hk hone heq).symm

end Cells

end Shared
