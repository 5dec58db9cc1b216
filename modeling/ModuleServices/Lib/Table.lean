import Mathlib

/-!
# Finite tables

A table maps finitely many keys to a value each. It is Mathlib's `AList` under the
four operations a program has of a hash map (`find?`, `insert`, `erase`, `modify`),
each described by what `find?` reads afterwards; `sum` adds a weight over the
entries and is described by what one change of an entry does to it.
-/

/-- A finite map from `κ` to `α`. -/
structure Table (κ α : Type*) where
  alist : AList fun _ : κ => α := ∅

namespace Table

variable {κ α : Type*}

instance : EmptyCollection (Table κ α) := ⟨{}⟩
instance : Inhabited (Table κ α) := ⟨∅⟩

/-- The entries, in no order that means anything. -/
def toList (t : Table κ α) : List (κ × α) := t.alist.entries.map fun e => (e.1, e.2)

def keys (t : Table κ α) : List κ := t.toList.map Prod.fst

/-- The entries' weights added up. -/
def sum (t : Table κ α) (f : κ → α → Nat) : Nat := (t.toList.map fun e => f e.1 e.2).sum

theorem nodup_keys (t : Table κ α) : t.keys.Nodup := by
  have hkeys : t.keys = List.keys t.alist.entries := by
    unfold keys toList List.keys
    rw [List.map_map]
    rfl
  rw [hkeys]
  exact t.alist.nodupKeys

variable [DecidableEq κ]

def find? (t : Table κ α) (k : κ) : Option α := AList.lookup k t.alist

def insert (t : Table κ α) (k : κ) (a : α) : Table κ α := ⟨AList.insert k a t.alist⟩

def erase (t : Table κ α) (k : κ) : Table κ α := ⟨AList.erase k t.alist⟩

/-- Change the value under a key, if there is one. -/
def modify (t : Table κ α) (k : κ) (f : α → α) : Table κ α :=
  match t.find? k with
  | none => t
  | some a => t.insert k (f a)

def contains (t : Table κ α) (k : κ) : Bool := (t.find? k).isSome

@[simp] theorem find?_empty (k : κ) : (∅ : Table κ α).find? k = none := AList.lookup_empty k

@[simp] theorem find?_insert (t : Table κ α) (k k' : κ) (a : α) :
    (t.insert k a).find? k' = if k' = k then some a else t.find? k' := by
  split
  · subst k'
    exact AList.lookup_insert t.alist
  · exact AList.lookup_insert_ne ‹_›

@[simp] theorem find?_erase (t : Table κ α) (k k' : κ) :
    (t.erase k).find? k' = if k' = k then none else t.find? k' := by
  split
  · subst k'
    exact AList.lookup_erase k t.alist
  · exact AList.lookup_erase_ne ‹_›

@[simp] theorem find?_modify (t : Table κ α) (k k' : κ) (f : α → α) :
    (t.modify k f).find? k' = if k' = k then (t.find? k).map f else t.find? k' := by
  unfold modify
  split
  · rename_i h
    split
    · rename_i hk
      rw [hk, h]
      rfl
    · rfl
  · rename_i a h
    rw [find?_insert, h]
    rfl

@[simp] theorem modify_modify (t : Table κ α) (k : κ) (f g : α → α) :
    (t.modify k f).modify k g = t.modify k fun a => g (f a) := by
  cases h : t.find? k with
  | none => simp only [modify, h]
  | some a =>
    simp only [modify, h, find?_insert, if_true]
    exact congrArg Table.mk (AList.insert_insert t.alist)

theorem contains_iff (t : Table κ α) (k : κ) : t.contains k = true ↔ ∃ a, t.find? k = some a :=
  Option.isSome_iff_exists

theorem mem_toList {t : Table κ α} {k : κ} {a : α} :
    (k, a) ∈ t.toList ↔ t.find? k = some a := by
  unfold toList find?
  rw [List.mem_map, ← Option.mem_def, AList.mem_lookup_iff]
  constructor
  · rintro ⟨⟨k', a'⟩, hmem, heq⟩
    cases heq
    exact hmem
  · exact fun h => ⟨_, h, rfl⟩

theorem mem_keys {t : Table κ α} {k : κ} : k ∈ t.keys ↔ ∃ a, t.find? k = some a := by
  unfold keys
  rw [List.mem_map]
  constructor
  · rintro ⟨⟨k', a⟩, hmem, rfl⟩
    exact ⟨a, mem_toList.mp hmem⟩
  · rintro ⟨a, h⟩
    exact ⟨(k, a), mem_toList.mpr h, rfl⟩

omit [DecidableEq κ] in
@[simp] theorem sum_empty (f : κ → α → Nat) : (∅ : Table κ α).sum f = 0 := rfl

/-- The whole is what is counted without the key, and the key's own weight. -/
theorem sum_erase_add (t : Table κ α) (f : κ → α → Nat) (k : κ) :
    (t.erase k).sum f + (t.find? k).elim 0 (f k) = t.sum f := by
  by_cases hk : k ∈ List.keys t.alist.entries
  · obtain ⟨a, l₁, l₂, hnot, heq, hker⟩ := List.exists_of_kerase hk
    have hfind : t.find? k = some a := by
      refine mem_toList.mp (List.mem_map.mpr ⟨⟨k, a⟩, ?_, rfl⟩)
      rw [heq]
      simp
    have herase : (t.erase k).toList = (l₁ ++ l₂).map fun e => (e.1, e.2) := by
      unfold toList erase
      exact congrArg _ hker
    have hall : t.toList = (l₁ ++ ⟨k, a⟩ :: l₂).map fun e => (e.1, e.2) := by
      unfold toList
      rw [heq]
    unfold sum
    rw [herase, hall, hfind]
    simp only [List.map_append, List.map_cons, List.sum_append, List.sum_cons, Option.elim]
    omega
  · have hfind : t.find? k = none := by
      rw [Option.eq_none_iff_forall_ne_some]
      intro a ha
      obtain ⟨⟨k', a'⟩, hmem, heq⟩ := List.mem_map.mp (mem_toList.mpr ha)
      cases heq
      exact hk (List.mem_keys_of_mem hmem)
    have herase : (t.erase k).toList = t.toList := by
      unfold toList erase
      exact congrArg _ (List.kerase_of_notMem_keys hk)
    unfold sum
    rw [herase, hfind]
    rfl

theorem sum_insert (t : Table κ α) (f : κ → α → Nat) (k : κ) (a : α) :
    (t.insert k a).sum f = (t.erase k).sum f + f k a := by
  have h := sum_erase_add (t.insert k a) f k
  rw [find?_insert, if_pos rfl] at h
  have herase : ((t.insert k a).erase k).sum f = (t.erase k).sum f := by
    have htwice : ((t.insert k a).erase k).toList = (t.erase k).toList := by
      unfold toList insert erase
      refine congrArg _ ?_
      change List.kerase k (List.kinsert k a t.alist.entries) = List.kerase k t.alist.entries
      exact List.kerase_cons_eq (a := k) (s := ⟨k, a⟩) (l := List.kerase k t.alist.entries) rfl
    unfold sum
    rw [htwice]
  rw [herase] at h
  exact h.symm

/-- A change of one entry moves its weight and no other. -/
theorem sum_modify {t : Table κ α} {k : κ} {a : α} (h : t.find? k = some a) (f : κ → α → Nat)
    (g : α → α) : (t.modify k g).sum f + f k a = t.sum f + f k (g a) := by
  have hmodify : t.modify k g = t.insert k (g a) := by
    unfold modify
    rw [h]
  have herase := sum_erase_add t f k
  rw [h, Option.elim] at herase
  rw [hmodify, sum_insert]
  omega

theorem le_sum {t : Table κ α} {k : κ} {a : α} (h : t.find? k = some a) (f : κ → α → Nat) :
    f k a ≤ t.sum f := by
  have herase := sum_erase_add t f k
  rw [h, Option.elim] at herase
  omega

theorem sum_insert_new {t : Table κ α} {k : κ} (h : t.find? k = none) (f : κ → α → Nat) (a : α) :
    (t.insert k a).sum f = t.sum f + f k a := by
  have herase := sum_erase_add t f k
  rw [h, Option.elim] at herase
  rw [sum_insert]
  omega

/-- Entries agree as far as the weight can tell, so the sums do. -/
theorem sum_congr {t : Table κ α} {f g : κ → α → Nat}
    (h : ∀ k a, t.find? k = some a → f k a = g k a) : t.sum f = t.sum g := by
  unfold sum
  refine congrArg _ (List.map_congr_left fun e he => ?_)
  exact h e.1 e.2 (mem_toList.mp he)

end Table
