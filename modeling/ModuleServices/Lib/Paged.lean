import Mathlib

/-!
# Paged sequences

A flat sequence held as a list of pages of `P` elements, the last one shorter.
Everything here is about reading one flat index: growing the pages, cutting a
sequence into pages and copying a run over page boundaries are each described by
what they do to `read`, so no later proof looks at a page again.
-/

namespace Paged

variable {α : Type*}

/-- The element at flat index `i`, and `d` where no page reaches. -/
def read (P : Nat) (d : α) (pages : List (List α)) (i : Nat) : α :=
  (pages.getD (i / P) []).getD (i % P) d

/-- Pages that hold exactly `n` elements, all full but the last. -/
structure Dense (P n : Nat) (pages : List (List α)) : Prop where
  count : pages.length = (n + P - 1) / P
  size : ∀ k, k < pages.length → (pages.getD k []).length = min P (n - k * P)

/-- Cut a flat sequence into pages. -/
def chunks (P : Nat) (xs : List α) : List (List α) :=
  (List.range ((xs.length + P - 1) / P)).map fun k => (xs.drop (k * P)).take P

/-- Push pages filled with `d` until `n` elements are covered. -/
def extend (P : Nat) (d : α) (n : Nat) (pages : List (List α)) : List (List α) :=
  pages ++ (List.range' pages.length ((n + P - 1) / P - pages.length)).map fun k =>
    List.replicate (min P (n - k * P)) d

/-- Lengthen with `d` every page shorter than its share of `n` elements. -/
def padTails (P : Nat) (d : α) (n : Nat) (pages : List (List α)) : List (List α) :=
  pages.mapIdx fun k page => page ++ List.replicate (min P (n - k * P) - page.length) d

/-- Copy `xs` to flat index `offset`, one page's share at a time. -/
def overwrite (P : Nat) : Nat → Nat → List α → List (List α) → List (List α)
  | 0, _, _, pages => pages
  | fuel + 1, offset, xs, pages =>
    if xs = [] then pages
    else
      let page := pages.getD (offset / P) []
      let copySize := min xs.length (page.length - offset % P)
      overwrite P fuel (offset + copySize) (xs.drop copySize)
        (pages.set (offset / P)
          (page.take (offset % P) ++ xs.take copySize ++ page.drop (offset % P + copySize)))

/-! ## Counting pages -/

theorem div_lt_pages {P n i : Nat} (hP : 0 < P) (hi : i < n) : i / P < (n + P - 1) / P := by
  rw [Nat.div_lt_iff_lt_mul hP]
  have hlt : (n - 1) / P + 1 = (n + P - 1) / P := by
    rw [← Nat.add_div_right _ hP]
    congr 1
    omega
  rw [← hlt]
  have := Nat.lt_div_mul_add (a := n - 1) hP
  rw [Nat.add_mul, Nat.one_mul]
  omega

theorem pages_le_div {P n k : Nat} (hP : 0 < P) (hk : (n + P - 1) / P ≤ k) : n ≤ k * P := by
  by_contra hlt
  have hd := div_lt_pages (P := P) (n := n) (i := k * P) hP (by omega)
  rw [Nat.mul_div_cancel _ hP] at hd
  omega

theorem lt_of_lt_pages {P n k : Nat} (hP : 0 < P) (hk : k < (n + P - 1) / P) : k * P < n := by
  have := Nat.div_mul_le_self (n + P - 1) P
  have : (k + 1) * P ≤ (n + P - 1) / P * P := Nat.mul_le_mul_right _ hk
  rw [Nat.add_mul, Nat.one_mul] at this
  omega

namespace Dense

variable {P n : Nat} {d : α} {pages : List (List α)}

/-- The page of an index inside the sequence is there, and reaches it. -/
theorem slot_lt (h : Dense P n pages) (hP : 0 < P) {i : Nat} (hi : i < n) :
    i / P < pages.length ∧ i % P < (pages.getD (i / P) []).length := by
  have hpage : i / P < pages.length := h.count ▸ div_lt_pages hP hi
  refine ⟨hpage, ?_⟩
  rw [h.size _ hpage]
  have hdm := Nat.div_add_mod i P
  have hmod := Nat.mod_lt i hP
  rw [Nat.mul_comm] at hdm
  omega

/-- No page reaches an index past the end. -/
theorem slot_ge (h : Dense P n pages) {i : Nat} (hi : n ≤ i) :
    (pages.getD (i / P) []).length ≤ i % P := by
  by_cases hpage : i / P < pages.length
  · rw [h.size _ hpage]
    have hdm := Nat.div_add_mod i P
    rw [Nat.mul_comm] at hdm
    omega
  · simp [List.getElem?_eq_none (Nat.le_of_not_lt hpage)]

/-- All pages but the last are full. -/
theorem length_full (h : Dense P n pages) (hP : 0 < P) {k : Nat} (hk : k + 1 < pages.length) :
    (pages.getD k []).length = P := by
  have hlt := lt_of_lt_pages hP (h.count ▸ hk)
  rw [h.size k (Nat.lt_of_succ_lt hk)]
  rw [Nat.add_mul, Nat.one_mul] at hlt
  omega

/-- The pages hold as many elements as the sequence has. -/
theorem sum_length (h : Dense P n pages) (hP : 0 < P) : (pages.map List.length).sum = n := by
  have hshares : pages.map List.length
      = (List.range pages.length).map fun k => min P (n - k * P) := by
    refine List.ext_getElem (by simp) fun k hk _ => ?_
    have hk' : k < pages.length := by simpa using hk
    rw [List.getElem_map, List.getElem_map, List.getElem_range, ← h.size k hk',
      List.getD_eq_getElem _ _ hk']
  have hfirst : ∀ c, ((List.range c).map fun k => min P (n - k * P)).sum = min (c * P) n := by
    intro c
    induction c with
    | zero => simp
    | succ c ih =>
      rw [List.range_succ, List.map_append, List.sum_append, ih, Nat.add_mul, Nat.one_mul]
      simp only [List.map_cons, List.map_nil, List.sum_cons, List.sum_nil]
      omega
  have hall := pages_le_div hP (Nat.le_of_eq h.count.symm)
  rw [hshares, hfirst]
  omega

/-- Past the end a dense sequence reads the default. -/
theorem read_ge (h : Dense P n pages) {i : Nat} (hi : n ≤ i) : read P d pages i = d := by
  unfold read
  rw [List.getD_eq_default _ _ (h.slot_ge hi)]

end Dense

/-! ## Cutting into pages -/

theorem getD_chunks {P k : Nat} {xs : List α} (hk : k < (xs.length + P - 1) / P) :
    (chunks P xs).getD k [] = (xs.drop (k * P)).take P := by
  simp [chunks, hk]

theorem chunks_dense {P : Nat} (xs : List α) : Dense P xs.length (chunks P xs) := by
  constructor
  · simp [chunks]
  · intro k hk
    rw [getD_chunks (by simpa [chunks] using hk)]
    simp

theorem read_chunks {P : Nat} {d : α} (hP : 0 < P) (xs : List α) (i : Nat) :
    read P d (chunks P xs) i = xs.getD i d := by
  rcases Nat.lt_or_ge i xs.length with hi | hi
  · have hmod := Nat.mod_lt i hP
    unfold read
    rw [getD_chunks (div_lt_pages hP hi)]
    simp only [List.getD_eq_getElem?_getD]
    rw [List.getElem?_take_of_lt hmod, List.getElem?_drop, Nat.mul_comm, Nat.div_add_mod]
  · rw [(chunks_dense xs).read_ge hi, List.getD_eq_default _ _ hi]

/-! ## Growing -/

theorem getD_extend {P n k : Nat} {d : α} {pages : List (List α)} :
    (extend P d n pages).getD k [] =
      if k < pages.length then pages.getD k []
      else if k < (n + P - 1) / P then List.replicate (min P (n - k * P)) d else [] := by
  unfold extend
  split
  · rename_i hk
    rw [List.getD_append _ _ _ _ hk]
  · rename_i hk
    rw [List.getD_append_right _ _ _ _ (Nat.le_of_not_lt hk)]
    split
    · rename_i hk'
      rw [List.getD_eq_getElem _ _ (by simp; omega)]
      simp only [List.getElem_map, List.getElem_range']
      rw [show pages.length + 1 * (k - pages.length) = k by omega]
    · rename_i hk'
      rw [List.getD_eq_default _ _ (by simp; omega)]

theorem getD_padTails {P n k : Nat} {d : α} {pages : List (List α)} (hk : k < pages.length) :
    (padTails P d n pages).getD k [] =
      pages.getD k [] ++ List.replicate (min P (n - k * P) - (pages.getD k []).length) d := by
  simp [padTails, hk]

theorem grow_dense {P n n' : Nat} {d : α} {pages : List (List α)} (h : Dense P n pages)
    (hP : 0 < P) (hn : n ≤ n') : Dense P n' (padTails P d n' (extend P d n' pages)) := by
  have hle : (n + P - 1) / P ≤ (n' + P - 1) / P := Nat.div_le_div_right (by omega)
  have hlen : (extend P d n' pages).length = (n' + P - 1) / P := by
    have := h.count
    simp [extend]
    omega
  constructor
  · simp [padTails, hlen]
  · intro k hk
    have hk' : k < (extend P d n' pages).length := by simpa [padTails] using hk
    rw [getD_padTails hk', List.length_append, List.length_replicate]
    have hle' : ((extend P d n' pages).getD k []).length ≤ min P (n' - k * P) := by
      rw [getD_extend]
      split
      · rename_i hk''
        rw [h.size k hk'']
        omega
      · split <;> simp
    omega

/-- Padding with the default is invisible to a read with that default. -/
theorem getD_pad (xs : List α) (m i : Nat) (d : α) :
    (xs ++ List.replicate m d).getD i d = xs.getD i d := by
  rcases Nat.lt_or_ge i xs.length with hi | hi
  · rw [List.getD_append _ _ _ _ hi]
  · rw [List.getD_append_right _ _ _ _ hi, List.getD_eq_default _ _ hi]
    simp only [List.getD_eq_getElem?_getD, List.getElem?_replicate]
    split <;> rfl

/-- Growing changes nothing that is read. -/
theorem read_grow {P n' : Nat} {d : α} {pages : List (List α)} (i : Nat) :
    read P d (padTails P d n' (extend P d n' pages)) i = read P d pages i := by
  unfold read
  by_cases hk : i / P < (extend P d n' pages).length
  · rw [getD_padTails hk, getD_pad, getD_extend]
    split
    · rfl
    · rename_i hk'
      have hnone : pages.getD (i / P) [] = [] := List.getD_eq_default _ _ (by omega)
      rw [hnone]
      split
      · rw [← List.nil_append (List.replicate _ d), getD_pad]
      · rfl
  · have hpad : (padTails P d n' (extend P d n' pages)).getD (i / P) [] = [] :=
      List.getD_eq_default _ _ (by simpa [padTails] using hk)
    have hold : pages.getD (i / P) [] = [] := by
      refine List.getD_eq_default _ _ ?_
      simp [extend] at hk
      omega
    rw [hpad, hold]

/-! ## Copying a run over page boundaries -/

theorem getD_set {pages : List (List α)} {k k' : Nat} {page : List α} (hk : k < pages.length) :
    (pages.set k page).getD k' [] = if k' = k then page else pages.getD k' [] := by
  simp only [List.getD_eq_getElem?_getD, List.getElem?_set]
  split
  · rename_i h
    subst h
    simp
  · rename_i h
    rw [if_neg (Ne.symm h)]

/-- Replacing a stretch of one page, its length kept, keeps the sequence dense. -/
theorem set_dense {P n k : Nat} {pages : List (List α)} {page : List α} (h : Dense P n pages)
    (hk : k < pages.length) (hlen : page.length = (pages.getD k []).length) :
    Dense P n (pages.set k page) := by
  constructor
  · simpa using h.count
  · intro k' hk'
    rw [getD_set hk]
    split
    · rename_i heq
      subst heq
      rw [hlen, h.size _ hk]
    · exact h.size _ (by simpa using hk')

/-- So one round of a copy does. -/
theorem Dense.splice {P n offset cs : Nat} {xs : List α} {pages : List (List α)}
    (h : Dense P n pages) (hpage : offset / P < pages.length) (hcs : cs ≤ xs.length)
    (hfit : offset % P + cs ≤ (pages.getD (offset / P) []).length) :
    Dense P n (pages.set (offset / P)
      ((pages.getD (offset / P) []).take (offset % P) ++ xs.take cs
        ++ (pages.getD (offset / P) []).drop (offset % P + cs))) := by
  refine set_dense h hpage ?_
  simp only [List.length_append, List.length_drop, List.length_take]
  omega

/-- One page with `ys` laid over it from `o` on. -/
theorem getD_splice {page ys : List α} {o j : Nat} {d : α} (h : o + ys.length ≤ page.length) :
    (page.take o ++ ys ++ page.drop (o + ys.length)).getD j d =
      if o ≤ j ∧ j < o + ys.length then ys.getD (j - o) d else page.getD j d := by
  have htake : (page.take o).length = o := by
    rw [List.length_take]
    omega
  simp only [List.getD_eq_getElem?_getD, List.append_assoc, List.getElem?_append, htake]
  by_cases hj : j < o
  · rw [if_pos hj, if_neg (by omega), List.getElem?_take_of_lt hj]
  · rw [if_neg hj]
    by_cases hj' : j < o + ys.length
    · rw [if_pos (by omega), if_pos ⟨by omega, hj'⟩]
    · rw [if_neg (by omega), if_neg (by omega), List.getElem?_drop]
      congr 2
      omega

/-- **What a copy does.** The run reads back where it was copied, the rest is untouched. -/
theorem overwrite_spec {P n : Nat} {d : α} (hP : 0 < P) : ∀ (fuel offset : Nat) (xs : List α)
    (pages : List (List α)), xs.length ≤ fuel → Dense P n pages → offset + xs.length ≤ n →
    Dense P n (overwrite P fuel offset xs pages)
      ∧ ∀ i, read P d (overwrite P fuel offset xs pages) i =
          if offset ≤ i ∧ i < offset + xs.length then xs.getD (i - offset) d
          else read P d pages i := by
  intro fuel
  induction fuel with
  | zero =>
    intro offset xs pages hf h hn
    have hxs : xs = [] := List.length_eq_zero_iff.mp (by omega)
    subst hxs
    refine ⟨h, fun i => ?_⟩
    rw [if_neg (by simp)]
    rfl
  | succ fuel ih =>
    intro offset xs pages hf h hn
    rw [overwrite]
    split
    · rename_i hxs
      subst hxs
      refine ⟨h, fun i => ?_⟩
      rw [if_neg (by simp)]
    · rename_i hxs
      have hpos : 0 < xs.length := List.length_pos_iff.mpr hxs
      obtain ⟨hpage, hslot⟩ := h.slot_lt hP (i := offset) (by omega)
      simp only
      generalize hcs : min xs.length ((pages.getD (offset / P) []).length - offset % P) = cs
      have hcs0 : 0 < cs := by omega
      have hcsx : cs ≤ xs.length := by omega
      have htake : (xs.take cs).length = cs := by
        rw [List.length_take]
        omega
      have hfit : offset % P + (xs.take cs).length ≤ (pages.getD (offset / P) []).length := by
        rw [htake]
        omega
      have hsplice := fun j => getD_splice (d := d) (j := j) hfit
      simp only [htake] at hsplice
      -- the page keeps its length, so the next round starts from a dense sequence
      have hdense : Dense P n (pages.set (offset / P)
          ((pages.getD (offset / P) []).take (offset % P) ++ xs.take cs
            ++ (pages.getD (offset / P) []).drop (offset % P + cs))) :=
        h.splice hpage hcsx (by rwa [htake] at hfit)
      obtain ⟨hd, hr⟩ := ih (offset + cs) (xs.drop cs) _ (by rw [List.length_drop]; omega) hdense
        (by rw [List.length_drop]; omega)
      refine ⟨hd, fun i => ?_⟩
      rw [hr i, List.length_drop]
      by_cases hrest : offset + cs ≤ i ∧ i < offset + cs + (xs.length - cs)
      · rw [if_pos hrest, if_pos (by omega)]
        simp only [List.getD_eq_getElem?_getD, List.getElem?_drop]
        congr 2
        omega
      · rw [if_neg hrest]
        unfold read
        rw [getD_set hpage]
        by_cases hsame : i / P = offset / P
        · rw [if_pos hsame, hsplice (i % P)]
          have hi := Nat.div_add_mod i P
          have ho := Nat.div_add_mod offset P
          rw [hsame] at hi
          by_cases hin : offset ≤ i ∧ i < offset + xs.length
          · rw [if_pos (by omega), if_pos hin]
            simp only [List.getD_eq_getElem?_getD]
            rw [List.getElem?_take_of_lt (by omega)]
            congr 2
            omega
          · rw [if_neg (by omega), if_neg hin, hsame]
        · rw [if_neg hsame]
          have hout : ¬(offset ≤ i ∧ i < offset + xs.length) := by
            intro hin
            apply hsame
            have hlt : i < offset + cs := by omega
            have hle : (pages.getD (offset / P) []).length ≤ P := by
              rw [h.size _ hpage]
              omega
            have ho := Nat.div_add_mod offset P
            refine Nat.div_eq_of_lt_le ?_ ?_
            · rw [Nat.mul_comm]
              omega
            · rw [Nat.add_mul, Nat.one_mul, Nat.mul_comm]
              omega
          rw [if_neg hout]

end Paged
