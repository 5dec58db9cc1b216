import Mathlib.Data.List.Basic
import Mathlib.Data.List.TakeWhile
import Mathlib.Data.Nat.Basic
import Mathlib.Tactic.Common

/-!
# Disjoint half-open intervals in order

A set of naturals held as a list of `[lo, hi)` intervals, in order, no two of them
touching. `add` unions one interval in, `gaps` lists what a range has outside the set.
Both are described by the points they cover; the order is what makes the scans of
either stop early.
-/

structure HalfOpen where
  lo : Nat
  hi : Nat
  deriving DecidableEq, Repr

namespace Intervals

/-- The point lies in one of the intervals. -/
def Covers (s : List HalfOpen) (i : Nat) : Prop := ∃ r ∈ s, r.lo ≤ i ∧ i < r.hi

instance (s : List HalfOpen) (i : Nat) : Decidable (Covers s i) := inferInstanceAs (Decidable (∃ r ∈ s, r.lo ≤ i ∧ i < r.hi))

/-- In order, none empty, no two touching. -/
structure Ordered (s : List HalfOpen) : Prop where
  apart : s.Pairwise fun a b => a.hi < b.lo
  nonempty : ∀ r ∈ s, r.lo < r.hi

/-- The two share no point. -/
def Disjoint (a b : HalfOpen) : Prop := ∀ i, a.lo ≤ i → i < a.hi → b.lo ≤ i → i < b.hi → False

/-- Those that begin at or below `b`: everything before `upper_bound`. -/
def upTo (s : List HalfOpen) (b : Nat) : List HalfOpen := s.takeWhile fun r => decide (r.lo ≤ b)

/-- Those that begin past `b`. -/
def past (s : List HalfOpen) (b : Nat) : List HalfOpen := s.dropWhile fun r => decide (r.lo ≤ b)

/-- Take in every interval that begins at or below the end reached so far. -/
def absorb : Nat → List HalfOpen → Nat × List HalfOpen
  | hi, [] => (hi, [])
  | hi, r :: rest => if r.lo ≤ hi then absorb (max hi r.hi) rest else (hi, r :: rest)

/-- Union `[b, e)` in; touching intervals merge. -/
def add (s : List HalfOpen) (b e : Nat) : List HalfOpen :=
  if e ≤ b then s
  else
    match (upTo s b).getLast? with
    | some before =>
      if b ≤ before.hi then
        let (hi, rest) := absorb (max e before.hi) (past s b)
        (upTo s b).dropLast ++ ⟨before.lo, hi⟩ :: rest
      else
        let (hi, rest) := absorb e (past s b)
        upTo s b ++ ⟨b, hi⟩ :: rest
    | none =>
      let (hi, rest) := absorb e (past s b)
      upTo s b ++ ⟨b, hi⟩ :: rest

/-- The loop of `gaps` over the intervals that begin past the range's start. -/
def gapsFrom (e : Nat) : Nat → List HalfOpen → List HalfOpen
  | b, [] => if b < e then [⟨b, e⟩] else []
  | b, r :: rest =>
    if b < e then
      if e ≤ r.lo then [⟨b, e⟩]
      else (if b < r.lo then [⟨b, r.lo⟩] else []) ++ gapsFrom e (max b r.hi) rest
    else []

/-- The parts of `[b, e)` outside the set, in order. -/
def gaps (s : List HalfOpen) (b e : Nat) : List HalfOpen :=
  match (upTo s b).getLast? with
  | some before => gapsFrom e (max b before.hi) (past s b)
  | none => gapsFrom e b (past s b)

variable {s t : List HalfOpen} {r : HalfOpen} {a b e i : Nat}

@[simp] theorem covers_nil : ¬ Covers [] i := by
  rintro ⟨r, hr, -⟩
  cases hr

@[simp] theorem covers_cons : Covers (r :: s) i ↔ (r.lo ≤ i ∧ i < r.hi) ∨ Covers s i := by
  simp [Covers]

@[simp] theorem covers_append : Covers (s ++ t) i ↔ Covers s i ∨ Covers t i := by
  simp [Covers, or_and_right, exists_or]

theorem Ordered.nil : Ordered [] := ⟨.nil, by simp⟩

theorem ordered_cons :
    Ordered (r :: s) ↔ r.lo < r.hi ∧ (∀ q ∈ s, r.hi < q.lo) ∧ Ordered s := by
  constructor
  · rintro ⟨hp, hn⟩
    rw [List.pairwise_cons] at hp
    exact ⟨hn r (by simp), hp.1, hp.2, fun q hq => hn q (by simp [hq])⟩
  · rintro ⟨h₁, h₂, h₃⟩
    refine ⟨List.pairwise_cons.mpr ⟨h₂, h₃.apart⟩, fun q hq => ?_⟩
    rcases List.mem_cons.mp hq with rfl | hq
    exacts [h₁, h₃.nonempty q hq]

theorem ordered_append :
    Ordered (s ++ t) ↔ Ordered s ∧ Ordered t ∧ ∀ p ∈ s, ∀ q ∈ t, p.hi < q.lo := by
  constructor
  · rintro ⟨hp, hn⟩
    rw [List.pairwise_append] at hp
    exact ⟨⟨hp.1, fun r hr => hn r (by simp [hr])⟩, ⟨hp.2.1, fun r hr => hn r (by simp [hr])⟩,
      hp.2.2⟩
  · rintro ⟨h₁, h₂, h₃⟩
    refine ⟨List.pairwise_append.mpr ⟨h₁.apart, h₂.apart, h₃⟩, fun r hr => ?_⟩
    rcases List.mem_append.mp hr with hr | hr
    exacts [h₁.nonempty r hr, h₂.nonempty r hr]

theorem Disjoint.symm {p q : HalfOpen} (h : Disjoint p q) : Disjoint q p :=
  fun i h₁ h₂ h₃ h₄ => h i h₃ h₄ h₁ h₂

theorem Ordered.disjoint (hs : Ordered s) : s.Pairwise Disjoint :=
  hs.apart.imp fun h i _ _ _ _ => by omega

/-! ## Where a bound cuts the list -/

theorem upTo_append_past : upTo s b ++ past s b = s := List.takeWhile_append_dropWhile

theorem mem_upTo (h : r ∈ upTo s b) : r.lo ≤ b := by
  simpa using List.mem_takeWhile_imp h

/-- In an ordered set everything after the cut begins past the bound. -/
theorem mem_past (hs : Ordered s) (h : r ∈ past s b) : b < r.lo := by
  induction s with
  | nil => cases h
  | cons q s ih =>
    obtain ⟨hq, hlt, hrest⟩ := ordered_cons.mp hs
    unfold past at h
    rw [List.dropWhile_cons] at h
    split at h
    · exact ih hrest h
    · rename_i hb
      simp only [decide_eq_true_eq] at hb
      rcases List.mem_cons.mp h with rfl | h
      · omega
      · have := hlt r h
        omega

/-- The cut of an ordered set: both halves ordered, the first wholly before the second. -/
theorem Ordered.cut (hs : Ordered s) (b : Nat) :
    Ordered (upTo s b) ∧ Ordered (past s b) ∧ ∀ p ∈ upTo s b, ∀ q ∈ past s b, p.hi < q.lo := by
  rw [← ordered_append, upTo_append_past]
  exact hs

theorem covers_cut : Covers s i ↔ Covers (upTo s b) i ∨ Covers (past s b) i := by
  rw [← covers_append, upTo_append_past]

/-- The last interval at or below the bound is the only one of them that can reach past it. -/
theorem upTo_last (hs : Ordered s) (hlast : (upTo s b).getLast? = some r) :
    r.lo ≤ b ∧ r.lo < r.hi ∧ upTo s b = (upTo s b).dropLast ++ [r]
      ∧ Ordered (upTo s b).dropLast ∧ ∀ p ∈ (upTo s b).dropLast, p.hi < r.lo := by
  have heq : upTo s b = (upTo s b).dropLast ++ [r] := by
    rw [List.dropLast_append_getLast? r hlast]
  have hr : r ∈ upTo s b := List.mem_of_getLast? hlast
  have hord := (hs.cut b).1
  rw [heq] at hord
  obtain ⟨h₁, h₂, h₃⟩ := ordered_append.mp hord
  exact ⟨mem_upTo hr, h₂.nonempty r (by simp), heq, h₁, fun p hp => h₃ p hp r (by simp)⟩

/-! ## `add` -/

/-- What `absorb` leaves: the end reached covers exactly what it took in. -/
theorem absorb_spec (hs : Ordered s) (hlo : ∀ q ∈ s, a < q.lo) (ha : a < e) :
    Ordered (absorb e s).2 ∧ e ≤ (absorb e s).1 ∧ (∀ q ∈ (absorb e s).2, (absorb e s).1 < q.lo)
      ∧ (∀ q ∈ (absorb e s).2, q ∈ s)
      ∧ ∀ i, a ≤ i → ((i < (absorb e s).1 ∨ Covers (absorb e s).2 i) ↔ (i < e ∨ Covers s i)) := by
  induction s generalizing e with
  | nil => simp [absorb, Ordered.nil]
  | cons q s ih =>
    obtain ⟨hq, hlt, hrest⟩ := ordered_cons.mp hs
    have haq := hlo q (by simp)
    unfold absorb
    split
    · rename_i hle
      obtain ⟨h₁, h₂, h₃, h₄, h₅⟩ :=
        ih (e := max e q.hi) hrest (fun p hp => hlo p (by simp [hp])) (by omega)
      refine ⟨h₁, by omega, h₃, fun p hp => by simp [h₄ p hp], fun i hi => ?_⟩
      rw [h₅ i hi, covers_cons]
      constructor
      · rintro (h | h)
        · by_cases hie : i < e
          · exact .inl hie
          · exact .inr (.inl (by omega))
        · exact .inr (.inr h)
      · rintro (h | h | h)
        · exact .inl (by omega)
        · exact .inl (by omega)
        · exact .inr h
    · rename_i hle
      refine ⟨hs, Nat.le_refl _, fun p hp => ?_, fun p hp => hp, fun i _ => Iff.rfl⟩
      rcases List.mem_cons.mp hp with rfl | hp
      · show e < _
        omega
      · have := hlt p hp
        show e < _
        omega

/-- Put an interval between the intervals before it and what `absorb` leaves. -/
theorem insert_spec (hs : Ordered s) (ht : Ordered t) (hst : ∀ p ∈ s, p.hi < a)
    (hat : ∀ q ∈ t, a < q.lo) (hae : a < e) :
    Ordered (s ++ ⟨a, (absorb e t).1⟩ :: (absorb e t).2)
      ∧ ∀ i, Covers (s ++ ⟨a, (absorb e t).1⟩ :: (absorb e t).2) i
        ↔ Covers s i ∨ (a ≤ i ∧ i < e) ∨ Covers t i := by
  obtain ⟨h₁, h₂, h₃, h₄, h₅⟩ := absorb_spec ht hat hae
  refine ⟨?_, fun i => ?_⟩
  · rw [ordered_append, ordered_cons]
    refine ⟨hs, ⟨by dsimp only; omega, h₃, h₁⟩, fun p hp q hq => ?_⟩
    rcases List.mem_cons.mp hq with rfl | hq
    · exact hst p hp
    · exact Nat.lt_trans (hst p hp) (hat q (h₄ q hq))
  · rw [covers_append, covers_cons]
    refine or_congr_right ?_
    by_cases hi : a ≤ i
    · rw [← or_congr_left (and_iff_right hi), ← or_congr_left (and_iff_right hi)]
      simpa [hi] using h₅ i hi
    · have hnot : ∀ {u : List HalfOpen}, (∀ q ∈ u, a < q.lo) → ¬ Covers u i := by
        rintro u hu ⟨q, hq, hqi, -⟩
        have := hu q hq
        omega
      simp [hi, hnot hat, hnot fun q hq => hat q (h₄ q hq)]

theorem add_spec (hs : Ordered s) (b e : Nat) :
    Ordered (add s b e) ∧ ∀ i, Covers (add s b e) i ↔ Covers s i ∨ (b ≤ i ∧ i < e) := by
  unfold add
  split
  · rename_i h
    refine ⟨hs, fun i => ?_⟩
    have : ¬ (b ≤ i ∧ i < e) := by omega
    simp [this]
  · rename_i hbe
    obtain ⟨hup, hpast, hcut⟩ := hs.cut b
    have hmem : ∀ q ∈ past s b, b < q.lo := fun q hq => mem_past hs hq
    split
    · rename_i before hlast
      obtain ⟨hlo, hne, heq, hinit, hbefore⟩ := upTo_last hs hlast
      split
      · rename_i hreach
        have hmem' : ∀ q ∈ past s b, before.lo < q.lo := fun q hq => by
          have := hmem q hq
          omega
        obtain ⟨h₁, h₂⟩ :=
          insert_spec (e := max e before.hi) hinit hpast hbefore hmem' (by omega)
        refine ⟨h₁, fun i => ?_⟩
        have hcov : Covers (upTo s b) i
            ↔ Covers (upTo s b).dropLast i ∨ (before.lo ≤ i ∧ i < before.hi) := by
          conv_lhs => rw [heq]
          simp
        rw [h₂ i, covers_cut (s := s) (b := b), hcov]
        by_cases hc : Covers (upTo s b).dropLast i <;> by_cases hp : Covers (past s b) i <;>
          simp [hc, hp]
        omega
      · rename_i hreach
        have hst : ∀ p ∈ upTo s b, p.hi < b := by
          intro p hp
          rw [heq] at hp
          rcases List.mem_append.mp hp with hp | hp
          · have := hbefore p hp
            omega
          · obtain rfl := List.mem_singleton.mp hp
            omega
        obtain ⟨h₁, h₂⟩ := insert_spec (e := e) hup hpast hst hmem (by omega)
        refine ⟨h₁, fun i => ?_⟩
        rw [h₂ i, covers_cut (s := s) (b := b)]
        tauto
    · rename_i hnone
      have hnil : upTo s b = [] := List.getLast?_eq_none_iff.mp hnone
      obtain ⟨h₁, h₂⟩ := insert_spec (s := upTo s b) (e := e) hup hpast
        (fun p hp => by rw [hnil] at hp; cases hp) hmem (by omega)
      refine ⟨h₁, fun i => ?_⟩
      rw [h₂ i, covers_cut (s := s) (b := b)]
      tauto

theorem Ordered.add (hs : Ordered s) : Ordered (add s b e) := (add_spec hs b e).1

@[simp] theorem covers_add (hs : Ordered s) :
    Covers (add s b e) i ↔ Covers s i ∨ (b ≤ i ∧ i < e) := (add_spec hs b e).2 i

/-! ## `gaps` -/

theorem gapsFrom_ordered (hs : Ordered s) (b : Nat) :
    Ordered (gapsFrom e b s) ∧ ∀ g ∈ gapsFrom e b s, b ≤ g.lo := by
  induction s generalizing b with
  | nil =>
    unfold gapsFrom
    split <;> simp [ordered_cons, *]
  | cons q s ih =>
    obtain ⟨hq, hlt, hrest⟩ := ordered_cons.mp hs
    obtain ⟨h₁, h₂⟩ := ih hrest (max b q.hi)
    unfold gapsFrom
    split
    · rename_i hb
      split
      · simp [ordered_cons, Ordered.nil, hb]
      · split
        · rename_i hbq
          refine ⟨?_, fun g hg => ?_⟩
          · rw [List.singleton_append, ordered_cons]
            exact ⟨hbq, fun g hg => by have := h₂ g hg; dsimp only; omega, h₁⟩
          · rcases List.mem_cons.mp hg with rfl | hg
            · exact Nat.le_refl _
            · have := h₂ g hg
              omega
        · rw [List.nil_append]
          exact ⟨h₁, fun g hg => by have := h₂ g hg; omega⟩
    · exact ⟨.nil, by simp⟩

theorem covers_gapsFrom (hs : Ordered s) (b : Nat) :
    Covers (gapsFrom e b s) i ↔ b ≤ i ∧ i < e ∧ ¬ Covers s i := by
  induction s generalizing b with
  | nil =>
    unfold gapsFrom
    split <;> simp <;> omega
  | cons q s ih =>
    obtain ⟨hq, hlt, hrest⟩ := ordered_cons.mp hs
    -- nothing later begins before `q` ends
    have hlater : Covers s i → q.hi < i := by
      rintro ⟨p, hp, hpi, -⟩
      have := hlt p hp
      omega
    unfold gapsFrom
    split
    · split
      · have : Covers (q :: s) i → e ≤ i := by
          rw [covers_cons]
          rintro (h | h)
          · omega
          · have := hlater h
            omega
        simp only [covers_cons, covers_nil, or_false] at this ⊢
        constructor
        · exact fun h => ⟨h.1, h.2, fun hc => by have := this hc; omega⟩
        · exact fun h => ⟨h.1, h.2.1⟩
      · rw [covers_append, ih hrest, covers_cons]
        have hhead : Covers (if b < q.lo then [⟨b, q.lo⟩] else []) i ↔ b ≤ i ∧ i < q.lo := by
          split <;> simp <;> omega
        rw [hhead]
        by_cases hc : Covers s i
        · have := hlater hc
          simp [hc]
          omega
        · simp only [hc, or_false, not_false_eq_true, and_true]
          omega
    · simp
      omega

theorem gaps_ordered (hs : Ordered s) : Ordered (gaps s b e) := by
  unfold gaps
  split
  · exact (gapsFrom_ordered (hs.cut b).2.1 _).1
  · exact (gapsFrom_ordered (hs.cut b).2.1 _).1

@[simp] theorem covers_gaps (hs : Ordered s) :
    Covers (gaps s b e) i ↔ b ≤ i ∧ i < e ∧ ¬ Covers s i := by
  have hpast := (hs.cut b).2.1
  unfold gaps
  split
  · rename_i before hlast
    obtain ⟨hlo, hne, heq, hinit, hbefore⟩ := upTo_last hs hlast
    -- of the intervals at or below `b` only the last can reach past it
    have hcov : b ≤ i → (Covers (upTo s b) i ↔ i < before.hi) := by
      intro hi
      have hsplit : Covers (upTo s b) i
          ↔ Covers (upTo s b).dropLast i ∨ (before.lo ≤ i ∧ i < before.hi) := by
        conv_lhs => rw [heq]
        simp
      rw [hsplit]
      have hnot : ¬ Covers (upTo s b).dropLast i := by
        rintro ⟨p, hp, -, hpi⟩
        have := hbefore p hp
        omega
      simp only [hnot, false_or]
      omega
    rw [covers_gapsFrom hpast, covers_cut (s := s) (b := b)]
    constructor
    · rintro ⟨h₁, h₂, h₃⟩
      refine ⟨by omega, h₂, ?_⟩
      rintro (h | h)
      · have := (hcov (by omega)).mp h
        omega
      · exact h₃ h
    · rintro ⟨h₁, h₂, h₃⟩
      have := mt (fun h => Or.inl ((hcov h₁).mpr h)) h₃
      exact ⟨by omega, h₂, fun h => h₃ (.inr h)⟩
  · rename_i hnone
    have hnil : upTo s b = [] := List.getLast?_eq_none_iff.mp hnone
    rw [covers_gapsFrom hpast, covers_cut (s := s) (b := b), hnil]
    simp

end Intervals
