import ModuleServices.Buffers.SharedJournal
import ModuleServices.Buffers.Proof.Journal

/-!
# The journal image is the reference image

The journal with shared pages follows the one with pages as values: what its references show
is what that one has, and every capture shows what it showed. The image of the value journal
is then the reference: a whole image, zeros up to the logical row count, and the writes since,
laid over it in order.

The page loops come first. Each is described by what it does to the pages shown, in the
words the value journal does the same in, and by what the captures keep.
-/

namespace ModuleServices.Proof

open ModuleServices BufferImage Shared Shared.Cells

variable {held : List (List Nat)} {s : Cells Page}

/-! ## The page loops -/

theorem pushPages_spec (desiredSize : Nat) : ∀ (missing : Nat) (s : Cells Page), s.Sound held →
    Keeps [] held s (SharedJournal.pushPages desiredSize missing s)
      ∧ (SharedJournal.pushPages desiredSize missing s).view [] = s.view []
        ++ (List.range' s.refs.length missing).map fun k =>
          List.replicate (min pageBytes (desiredSize - k * pageBytes)) 0 := by
  intro missing
  induction missing with
  | zero =>
    intro s hs
    exact ⟨.refl hs, (List.append_nil _).symm⟩
  | succ missing ih =>
    intro s hs
    obtain ⟨hkeeps, hview⟩ := push_spec (d := []) hs
      (List.replicate (min pageBytes (desiredSize - s.refs.length * pageBytes)) 0)
    obtain ⟨hrest, hviews⟩ := ih _ hkeeps.sound
    refine ⟨hkeeps.trans hrest, hviews.trans ?_⟩
    have hlength : ∀ page, (s.push page).refs.length = s.refs.length + 1 :=
      fun page => List.length_append
    rw [hview, hlength, List.range'_succ, List.map_cons, List.append_assoc]
    rfl

/-- What the padding loop does to a list of pages before it is at page `k`. -/
def padded (desiredSize k : Nat) (pages : List Page) : List Page :=
  pages.mapIdx fun i page =>
    if i < k then
      page ++ List.replicate (min pageBytes (desiredSize - i * pageBytes) - page.length) 0
    else page

theorem getD_padded {desiredSize k i : Nat} {pages : List Page} (hi : i < pages.length) :
    (padded desiredSize k pages).getD i [] =
      if i < k then pages.getD i [] ++ List.replicate
        (min pageBytes (desiredSize - i * pageBytes) - (pages.getD i []).length) 0
      else pages.getD i [] := by
  simp [padded, hi]

theorem padPage_spec (hs : s.Sound held) (desiredSize : Nat) {k : Nat} (hk : k < s.refs.length) :
    Keeps [] held s (SharedJournal.padPage held desiredSize s k)
      ∧ (SharedJournal.padPage held desiredSize s k).view [] = (s.view []).set k
        ((s.view []).getD k [] ++ List.replicate
          (min pageBytes (desiredSize - k * pageBytes) - ((s.view []).getD k []).length) 0) := by
  have hget := getD_view (d := []) hk []
  unfold SharedJournal.padPage
  simp only
  split
  · rename_i hlong
    refine ⟨.refl hs, ?_⟩
    rw [hget, Nat.sub_eq_zero_of_le hlong, List.replicate_zero, List.append_nil, ← hget,
      List.getD_eq_getElem _ _ (by simpa using hk), List.set_getElem_self]
  · rw [get_unshare hk, hget]
    exact replace_spec hs hk _

theorem padPages_spec (hs : s.Sound held) (desiredSize : Nat) : ∀ k ≤ s.refs.length,
    Keeps [] held s ((List.range k).foldl (SharedJournal.padPage held desiredSize) s)
      ∧ ((List.range k).foldl (SharedJournal.padPage held desiredSize) s).view []
        = padded desiredSize k (s.view []) := by
  intro k
  induction k with
  | zero =>
    intro _
    exact ⟨.refl hs, List.ext_getElem (by simp [padded]) fun i _ _ => by simp [padded]⟩
  | succ k ih =>
    intro hk
    obtain ⟨hkeeps, hview⟩ := ih (Nat.le_of_succ_le hk)
    rw [List.range_succ, List.foldl_append]
    generalize (List.range k).foldl (SharedJournal.padPage held desiredSize) s = t at hkeeps hview ⊢
    have hlength : t.refs.length = s.refs.length := by
      rw [← length_view (d := []), hview]
      simp [padded]
    obtain ⟨hnext, hset⟩ := padPage_spec hkeeps.sound desiredSize (k := k) (by omega)
    refine ⟨hkeeps.trans hnext, hset.trans ?_⟩
    have hold : (padded desiredSize k (s.view [])).getD k [] = (s.view []).getD k [] := by
      rw [getD_padded (by simpa using hk), if_neg (Nat.lt_irrefl k)]
    rw [hview, hold]
    refine List.ext_getElem (by simp [padded]) fun i h₁ h₂ => ?_
    have hi : i < (s.view []).length := by simpa [padded] using h₁
    simp only [padded, List.getElem_set, List.getElem_mapIdx]
    rcases Nat.lt_trichotomy i k with hlt | rfl | hgt
    · rw [if_neg (by omega), if_pos hlt, if_pos (by omega)]
    · rw [if_pos rfl, if_pos (by omega), List.getD_eq_getElem _ _ hi]
    · rw [if_neg (by omega), if_neg (by omega), if_neg (by omega)]

/-- Over all pages the padding loop is the one of the value journal. -/
theorem padded_eq_padTails (desiredSize : Nat) (pages : List Page) :
    padded desiredSize pages.length pages = Paged.padTails pageBytes 0 desiredSize pages := by
  refine List.ext_getElem (by simp [padded, Paged.padTails]) fun i h₁ h₂ => ?_
  have hi : i < pages.length := by simpa [padded] using h₁
  simp only [padded, Paged.padTails, List.getElem_mapIdx]
  rw [if_pos hi]

/-- **The page copy loop ends** over pages that reach as far as the bytes go, and is the one of the
value journal. -/
theorem copyPages_spec {n : Nat} : ∀ (fuel offset : Nat) (bytes : List Byte) (s : Cells Page),
    s.Sound held → Paged.Dense pageBytes n (s.view []) → bytes.length ≤ fuel →
    offset + bytes.length ≤ n →
    ∃ t, SharedJournal.copyPages held fuel offset bytes s = some t ∧ Keeps [] held s t
      ∧ t.view [] = Paged.overwrite pageBytes fuel offset bytes (s.view []) := by
  intro fuel
  induction fuel with
  | zero =>
    intro offset bytes s hs hdense hfuel hfits
    have hnil : bytes = [] := List.length_eq_zero_iff.mp (by omega)
    subst hnil
    exact ⟨s, rfl, .refl hs, rfl⟩
  | succ fuel ih =>
    intro offset bytes s hs hdense hfuel hfits
    cases bytes with
    | nil => exact ⟨s, rfl, .refl hs, by simp [Paged.overwrite]⟩
    | cons byte rest =>
      generalize hbytes : byte :: rest = bytes at hfuel hfits
      have hpos : 0 < bytes.length := by
        rw [← hbytes]
        exact Nat.succ_pos _
      obtain ⟨hpage, hslot⟩ := hdense.slot_lt pageBytes_pos (i := offset) (by omega)
      have hk : offset / pageBytes < s.refs.length := by simpa using hpage
      have hget := getD_view (d := []) hk []
      rw [hget] at hslot
      rw [← hbytes, SharedJournal.copyPages]
      simp only [hbytes]
      rw [if_neg (Nat.not_le.mpr hk), get_unshare hk, if_neg (by omega)]
      rw [Paged.overwrite, if_neg (List.ne_nil_of_length_pos hpos)]
      simp only [hget]
      generalize hcs : min bytes.length ((s.get [] (offset / pageBytes)).length
        - offset % pageBytes) = cs
      obtain ⟨hkeeps, hview⟩ := replace_spec (d := []) hs hk
        ((s.get [] (offset / pageBytes)).take (offset % pageBytes) ++ bytes.take cs
          ++ (s.get [] (offset / pageBytes)).drop (offset % pageBytes + cs))
      -- each round leaves a dense sequence and fewer bytes
      have hnext : Paged.Dense pageBytes n ((s.replace held [] (offset / pageBytes)
          ((s.get [] (offset / pageBytes)).take (offset % pageBytes) ++ bytes.take cs
            ++ (s.get [] (offset / pageBytes)).drop (offset % pageBytes + cs))).view []) := by
        rw [hview, ← hget]
        exact hdense.splice hpage (by omega) (by rw [hget]; omega)
      obtain ⟨t, ht, hrest, hviews⟩ := ih (offset + cs) (bytes.drop cs) _ hkeeps.sound hnext
        (by rw [List.length_drop]; omega) (by rw [List.length_drop]; omega)
      exact ⟨t, ht, hkeeps.trans hrest, by rw [hviews, hview]⟩

theorem pushAll_spec : ∀ (pages : List Page) (s : Cells Page), s.Sound held →
    Keeps [] held s (pages.foldl Cells.push s)
      ∧ (pages.foldl Cells.push s).view [] = s.view [] ++ pages := by
  intro pages
  induction pages with
  | nil =>
    intro s hs
    exact ⟨.refl hs, (List.append_nil _).symm⟩
  | cons page pages ih =>
    intro s hs
    obtain ⟨hkeeps, hview⟩ := push_spec (d := []) hs page
    obtain ⟨hrest, hviews⟩ := ih _ hkeeps.sound
    refine ⟨hkeeps.trans hrest, hviews.trans ?_⟩
    rw [hview, List.append_assoc]
    rfl

theorem freshPages_spec {journal : SharedJournal} (hs : journal.pages.Sound held)
    (bytes : List Byte) :
    Keeps [] held journal.pages (journal.freshPages bytes)
      ∧ (journal.freshPages bytes).view [] = Paged.chunks pageBytes bytes := by
  have hdropped : Keeps [] held journal.pages { journal.pages with refs := [] } :=
    ⟨⟨fun _ hr => absurd hr List.not_mem_nil, hs.held⟩, fun _ _ => rfl⟩
  obtain ⟨hkeeps, hview⟩ := pushAll_spec (Paged.chunks pageBytes bytes) _ hdropped.sound
  exact ⟨hdropped.trans hkeeps, hview⟩

/-! ## Following the value journal -/

/-- The journal with the pages its references show. -/
abbrev valueOf (journal : SharedJournal) : BufferJournal :=
  { elementStride := journal.elementStride
    writeSequence := journal.writeSequence
    elementCount := journal.elementCount
    capacity := journal.capacity
    previous := journal.previous
    writes := journal.writes
    journalBaseSequence := journal.journalBaseSequence
    byteSize := journal.byteSize
    pages := journal.pages.view [] }

/-- A call follows the value journal's: it does to what is shown what that one does and leaves
every capture alone, or it throws the same and leaves everything. -/
inductive Follows (held : List (List Nat)) (journal : SharedJournal) :
    Except String BufferJournal → Except String Unit × SharedJournal → Prop where
  | ok {value : BufferJournal} {journal' : SharedJournal} : valueOf journal' = value →
      Keeps [] held journal.pages journal'.pages →
      Follows held journal (.ok value) (.ok (), journal')
  | error {what : String} : Follows held journal (.error what) (.error what, journal)

section Calls

variable {journal : SharedJournal}

theorem initializeImage_follows (hs : journal.pages.Sound held) (bytes : List Byte)
    (elementCount capacity : Nat) :
    Follows held journal ((valueOf journal).initializeImage bytes elementCount capacity)
      (journal.initializeImage bytes elementCount capacity) := by
  obtain ⟨hkeeps, hview⟩ := freshPages_spec hs bytes
  unfold BufferJournal.initializeImage SharedJournal.initializeImage
  by_cases hguard : journal.elementStride = 0 ∨ elementCount > capacity
      ∨ bytes.length ≠ elementCount * journal.elementStride
  · rw [if_pos hguard, if_pos hguard]
    exact .error
  · rw [if_neg hguard, if_neg hguard, ← hview]
    exact .ok rfl hkeeps

theorem replaceImage_follows (hs : journal.pages.Sound held) (bytes : List Byte)
    (elementCount capacity : Nat) :
    Follows held journal ((valueOf journal).replaceImage bytes elementCount capacity)
      (journal.replaceImage bytes elementCount capacity) := by
  obtain ⟨hkeeps, hview⟩ := freshPages_spec hs bytes
  unfold BufferJournal.replaceImage SharedJournal.replaceImage
  by_cases hguard : journal.elementStride = 0 ∨ elementCount > capacity
      ∨ bytes.length ≠ elementCount * journal.elementStride
  · rw [if_pos hguard, if_pos hguard]
    exact .error
  · rw [if_neg hguard, if_neg hguard, ← hview]
    exact .ok rfl hkeeps

theorem requestCapacity_follows (hs : journal.pages.Sound held) (capacity : Nat) :
    Keeps [] held journal.pages (journal.requestCapacity capacity).pages
      ∧ valueOf (journal.requestCapacity capacity)
        = (valueOf journal).requestCapacity capacity := by
  unfold BufferJournal.requestCapacity SharedJournal.requestCapacity
  by_cases hguard : capacity ≤ journal.capacity
  · rw [if_pos hguard, if_pos hguard]
    exact ⟨.refl hs, rfl⟩
  · rw [if_neg hguard, if_neg hguard]
    exact ⟨.refl hs, rfl⟩

/-- **An `AppendWrite` call ends**, and does what the value journal's does, when the pages it needs
can be counted. -/
theorem appendWrite_follows (hs : journal.pages.Sound held)
    (hsize : journal.byteSize = journal.elementCount * journal.elementStride)
    (hdense : Paged.Dense pageBytes journal.byteSize (journal.pages.view []))
    (elementOffset : Nat) (bytes : List Byte) (resulting : Nat)
    (hrounds : max journal.elementCount resulting * journal.elementStride + pageBytes - 1 ≤ kMax) :
    ∃ out, journal.appendWrite held elementOffset bytes resulting = some out
      ∧ Follows held journal ((valueOf journal).appendWrite elementOffset bytes resulting) out := by
  unfold BufferJournal.appendWrite SharedJournal.appendWrite
  by_cases haligned : journal.elementStride = 0 ∨ bytes = []
      ∨ bytes.length % journal.elementStride ≠ 0
  · rw [if_pos haligned, if_pos haligned]
    exact ⟨_, rfl, .error⟩
  rw [if_neg haligned, if_neg haligned]
  by_cases hextent : elementOffset > kMax - bytes.length / journal.elementStride
      ∨ elementOffset + bytes.length / journal.elementStride > resulting
  · rw [if_pos hextent, if_pos hextent]
    exact ⟨_, rfl, .error⟩
  rw [if_neg hextent, if_neg hextent]
  by_cases hcapacity : resulting > journal.capacity
  · rw [if_pos hcapacity, if_pos hcapacity]
    exact ⟨_, rfl, .error⟩
  have hmod : (max journal.elementCount resulting * journal.elementStride + pageBytes - 1)
      % (kMax + 1) = max journal.elementCount resulting * journal.elementStride + pageBytes - 1 :=
    Nat.mod_eq_of_lt (Nat.lt_succ_of_le hrounds)
  rw [if_neg hcapacity, if_neg hcapacity]
  simp only [hmod]
  push Not at haligned hextent
  have hgrow : journal.byteSize ≤ max journal.elementCount resulting * journal.elementStride := by
    rw [hsize]
    exact Nat.mul_le_mul_right _ (Nat.le_max_left _ _)
  have hfits := write_fits journal.elementCount haligned.2.2 hextent.2
  generalize hdesired : max journal.elementCount resulting * journal.elementStride = desiredSize
    at hgrow hfits ⊢
  have hP := pageBytes_pos
  have hlength : journal.pages.refs.length = (journal.byteSize + pageBytes - 1) / pageBytes := by
    rw [← length_view (d := [])]
    exact hdense.count
  -- new pages first, then the tails a sparse growth left short, then the write itself
  obtain ⟨hcovers, hcovered⟩ := pushPages_spec desiredSize
    ((desiredSize + pageBytes - 1) / pageBytes - journal.pages.refs.length) journal.pages hs
  generalize SharedJournal.pushPages desiredSize
    ((desiredSize + pageBytes - 1) / pageBytes - journal.pages.refs.length) journal.pages = covered
    at hcovers hcovered ⊢
  have hextend : covered.view [] = Paged.extend pageBytes 0 desiredSize (journal.pages.view []) := by
    rw [hcovered, Paged.extend, length_view]
  have hrequired : covered.refs.length = (desiredSize + pageBytes - 1) / pageBytes := by
    have := Nat.div_le_div_right (c := pageBytes) (show journal.byteSize + pageBytes - 1
      ≤ desiredSize + pageBytes - 1 by omega)
    rw [← length_view (d := []), hcovered, List.length_append, length_view, List.length_map,
      List.length_range']
    omega
  obtain ⟨hgrows, hgrown⟩ := padPages_spec hcovers.sound desiredSize _
    (Nat.le_of_eq hrequired.symm)
  have hpadded : padded desiredSize ((desiredSize + pageBytes - 1) / pageBytes) (covered.view [])
      = Paged.padTails pageBytes 0 desiredSize
        (Paged.extend pageBytes 0 desiredSize (journal.pages.view [])) := by
    rw [← hrequired, ← length_view (d := []), padded_eq_padTails, hextend]
  rw [hpadded] at hgrown
  generalize (List.range ((desiredSize + pageBytes - 1) / pageBytes)).foldl
    (SharedJournal.padPage held desiredSize) covered = grown at hgrows hgrown ⊢
  have hfull : Paged.Dense pageBytes desiredSize (grown.view []) := by
    rw [hgrown]
    exact Paged.grow_dense hdense hP hgrow
  obtain ⟨t, ht, hcopies, hview⟩ := copyPages_spec bytes.length
    (elementOffset * journal.elementStride) bytes grown hgrows.sound hfull (Nat.le_refl _) hfits
  rw [ht, ← hgrown, ← hview]
  exact ⟨_, rfl, .ok rfl (hcovers.trans (hgrows.trans hcopies))⟩

end Calls

/-! ## The reference -/

theorem materializeFrom_length (byteSize : Nat) : ∀ (pages : List Page) (offset : Nat),
    (materializeFrom byteSize offset pages).length = byteSize - offset := by
  intro pages
  induction pages with
  | nil =>
    intro offset
    exact List.length_replicate
  | cons page pages ih =>
    intro offset
    rw [materializeFrom]
    split
    · simp only [List.length_nil]
      omega
    · simp only [List.length_append, List.length_take, ih]
      omega

theorem splice_length {image : List Byte} {write : Nat × List Byte}
    (h : write.1 + write.2.length ≤ image.length) : (splice image write).length = image.length := by
  unfold splice
  simp only [List.length_append, List.length_take, List.length_drop]
  omega

theorem splice_getD {image : List Byte} {write : Nat × List Byte}
    (h : write.1 + write.2.length ≤ image.length) (i : Nat) :
    (splice image write).getD i 0 =
      if write.1 ≤ i ∧ i < write.1 + write.2.length then write.2.getD (i - write.1) 0
      else image.getD i 0 :=
  Paged.getD_splice h

theorem splices_length {since : List (Nat × List Byte)} {image : List Byte}
    (h : ∀ write ∈ since, write.1 + write.2.length ≤ image.length) :
    (since.foldl splice image).length = image.length := by
  induction since generalizing image with
  | nil => rfl
  | cons write since ih =>
    have hlength := splice_length (h write List.mem_cons_self)
    rw [List.foldl_cons, ih fun w hw => ?_, hlength]
    rw [hlength]
    exact h w (List.mem_cons_of_mem _ hw)

/-- What two images agree on, they agree on after the same writes. -/
theorem splices_getD {since : List (Nat × List Byte)} {image image' : List Byte}
    (h : ∀ write ∈ since, write.1 + write.2.length ≤ image.length)
    (hle : image.length ≤ image'.length) (heq : ∀ i, image'.getD i 0 = image.getD i 0) (i : Nat) :
    (since.foldl splice image').getD i 0 = (since.foldl splice image).getD i 0 := by
  induction since generalizing image image' with
  | nil => exact heq i
  | cons write since ih =>
    have hfit := h write List.mem_cons_self
    have hfit' := Nat.le_trans hfit hle
    have hlength := splice_length hfit
    have hlength' := splice_length hfit'
    refine ih (fun w hw => ?_) ?_ fun j => ?_
    · rw [hlength]
      exact h w (List.mem_cons_of_mem _ hw)
    · rw [hlength, hlength']
      exact hle
    · rw [splice_getD hfit, splice_getD hfit', heq]

/-- The journal as a value holds the reference image. -/
structure Imaged (journal : BufferJournal) (reference : Reference) : Prop where
  size : journal.byteSize = journal.elementCount * journal.elementStride
  image : journal.image.WF
  rows : reference.rows = journal.elementCount
  whole : reference.whole.length ≤ journal.byteSize
  since : ∀ write ∈ reference.since, write.1 + write.2.length ≤ journal.byteSize
  bytes : ∀ i, journal.image.byteAt i = (reference.dense journal.elementStride).getD i 0

namespace Imaged

variable {journal journal' : BufferJournal} {reference : Reference}

theorem base_length (h : Imaged journal reference) :
    (reference.whole ++ List.replicate
      (reference.rows * journal.elementStride - reference.whole.length) (0 : Byte)).length
      = journal.byteSize := by
  have hwhole := h.whole
  rw [List.length_append, List.length_replicate, h.rows, ← h.size]
  omega

theorem dense_length (h : Imaged journal reference) :
    (reference.dense journal.elementStride).length = journal.byteSize := by
  unfold Reference.dense
  rw [splices_length, h.base_length]
  rw [h.base_length]
  exact h.since

/-- **The image materializes to the reference image.** -/
theorem materialize_eq (h : Imaged journal reference) :
    journal.image.materialize = reference.dense journal.elementStride := by
  have hlength : journal.image.materialize.length = journal.byteSize :=
    materializeFrom_length _ _ _
  refine List.ext_getElem (hlength.trans h.dense_length.symm) fun i h₁ h₂ => ?_
  rw [← List.getD_eq_getElem _ 0 h₁, ← List.getD_eq_getElem _ 0 h₂,
    materialize_getD h.image (Nat.lt_of_lt_of_eq h₁ hlength), h.bytes i]

/-- A whole image cut into pages. -/
theorem of_whole {bytes : List Byte} {rows : Nat} (hrows : rows = journal.elementCount)
    (hsize : bytes.length = journal.elementCount * journal.elementStride)
    (hbyteSize : journal.byteSize = bytes.length)
    (hpages : journal.pages = Paged.chunks pageBytes bytes) :
    Imaged journal { whole := bytes, rows } := by
  refine ⟨hbyteSize.trans hsize, ?_, hrows, Nat.le_of_eq hbyteSize.symm,
    fun _ hw => absurd hw List.not_mem_nil, fun i => ?_⟩
  · show Paged.Dense pageBytes journal.byteSize journal.pages
    rw [hbyteSize, hpages]
    exact Paged.chunks_dense bytes
  · show Paged.read pageBytes 0 journal.pages i
      = (bytes ++ List.replicate (rows * journal.elementStride - bytes.length) 0).getD i 0
    rw [hpages, Paged.read_chunks pageBytes_pos, Paged.getD_pad]

theorem initializeImage {bytes : List Byte} {elementCount capacity : Nat}
    (h : journal.initializeImage bytes elementCount capacity = .ok journal') :
    Imaged journal' { whole := bytes, rows := elementCount } := by
  unfold BufferJournal.initializeImage at h
  split at h
  · cases h
  rename_i hguard
  push Not at hguard
  cases h
  exact of_whole rfl hguard.2.2 rfl rfl

theorem replaceImage {bytes : List Byte} {elementCount capacity : Nat}
    (h : journal.replaceImage bytes elementCount capacity = .ok journal') :
    Imaged journal' { whole := bytes, rows := elementCount } := by
  unfold BufferJournal.replaceImage at h
  split at h
  · cases h
  rename_i hguard
  push Not at hguard
  cases h
  exact of_whole rfl hguard.2.2 rfl rfl

theorem requestCapacity (h : Imaged journal reference) (capacity : Nat) :
    Imaged (journal.requestCapacity capacity) reference := by
  unfold BufferJournal.requestCapacity
  split
  · exact h
  · exact ⟨h.size, h.image, h.rows, h.whole, h.since, h.bytes⟩

/-- A write into the journal is a write over the reference image, more zeros first. -/
theorem appendWrite (h : Imaged journal reference) {elementOffset : Nat} {bytes : List Byte}
    {resulting : Nat}
    (hwrite : journal.appendWrite elementOffset bytes resulting = .ok journal') :
    Imaged journal' { reference with
      since := reference.since ++ [(elementOffset * journal.elementStride, bytes)]
      rows := max reference.rows resulting } := by
  obtain ⟨pages, hjournal, -, hgrow, hfits, himage, hread⟩ :=
    appendWrite_spec h.size h.image hwrite
  have hbyteSize : journal'.byteSize = max reference.rows resulting * journal.elementStride := by
    rw [hjournal, h.rows]
  have hstride : journal'.elementStride = journal.elementStride := by rw [hjournal]
  have hcount : journal'.elementCount = max reference.rows resulting := by rw [hjournal, h.rows]
  refine ⟨?_, himage, hcount.symm, Nat.le_trans h.whole hgrow, fun write hw => ?_, fun i => ?_⟩
  · rw [hbyteSize, hcount, hstride]
  · rcases List.mem_append.mp hw with hw | hw
    · exact Nat.le_trans (h.since write hw) hgrow
    · rw [List.mem_singleton.mp hw]
      exact hfits
  · show _ = ((reference.since ++ [(elementOffset * journal.elementStride, bytes)]).foldl splice
      (reference.whole ++ List.replicate (max reference.rows resulting * journal'.elementStride
        - reference.whole.length) 0)).getD i 0
    generalize hlonger : reference.whole ++ List.replicate (max reference.rows resulting
      * journal'.elementStride - reference.whole.length) (0 : Byte) = longer
    have hlength : longer.length = journal'.byteSize := by
      have := Nat.le_trans h.whole hgrow
      rw [← hlonger, List.length_append, List.length_replicate, hstride, ← hbyteSize]
      omega
    -- the writes before this one read the same over the longer image
    have hbefore : (reference.since.foldl splice longer).getD i 0
        = (reference.dense journal.elementStride).getD i 0 := by
      refine splices_getD (fun write hw => ?_) ?_ (fun j => ?_) i
      · rw [h.base_length]
        exact h.since write hw
      · rw [h.base_length, hlength]
        exact hgrow
      · rw [← hlonger, Paged.getD_pad, Paged.getD_pad]
    have hover : (reference.since.foldl splice longer).length = journal'.byteSize := by
      rw [splices_length fun write hw => ?_, hlength]
      rw [hlength]
      exact Nat.le_trans (h.since write hw) hgrow
    rw [hread i, List.foldl_append, List.foldl_cons, List.foldl_nil,
      splice_getD (by rw [hover]; exact hfits), hbefore, h.bytes i]

end Imaged

/-! ## Runs -/

namespace SharedRun

open ModuleServices.SharedRun

/-- What holds between calls. -/
structure Inv (r : SharedRun) : Prop where
  sound : r.journal.pages.Sound r.held
  imaged : Imaged (valueOf r.journal) r.reference
  captured : ∀ c ∈ r.captures, (c.1.read r.journal.pages.cells).WF
    ∧ (c.1.read r.journal.pages.cells).materialize = c.2

variable {r : SharedRun} {a : SharedAction}

theorem inv_start (elementStride : Nat) : Inv (start elementStride) where
  sound := ⟨fun _ hr => absurd hr List.not_mem_nil, fun _ hr => absurd hr List.not_mem_nil⟩
  imaged := by
    show Imaged (valueOf { elementStride }) { whole := [], rows := 0 }
    exact .of_whole rfl (Nat.zero_mul _).symm rfl rfl
  captured := fun _ hc => absurd hc List.not_mem_nil

theorem held_of_mem {c : SharedImage × List Byte} (hc : c ∈ r.captures) : c.1.refs ∈ r.held :=
  List.mem_map_of_mem (f := fun c : SharedImage × List Byte => c.1.refs) hc

/-- The captures read what they read. -/
theorem read_eq {pages : Cells Page} (h : Keeps [] r.held r.journal.pages pages) :
    ∀ c ∈ r.captures, c.1.read pages.cells = c.1.read r.journal.pages.cells := by
  intro c hc
  unfold SharedImage.read
  rw [h.shown _ (held_of_mem hc)]

/-- The journal moves on, the captures stay. -/
theorem Inv.moved {journal : SharedJournal} {reference : Reference} (h : Inv r)
    (hkeeps : Keeps [] r.held r.journal.pages journal.pages)
    (himaged : Imaged (valueOf journal) reference) : Inv { r with journal, reference } where
  sound := hkeeps.sound
  imaged := himaged
  captured := fun c hc => by
    have hread := read_eq hkeeps c hc
    show (c.1.read journal.pages.cells).WF ∧ _ = _
    rw [hread]
    exact h.captured c hc

theorem Inv.captureDesired (h : Inv r) :
    Inv { r with captures := r.captures
      ++ [(r.image, r.reference.dense r.journal.elementStride)] } where
  sound := by
    refine ⟨h.sound.own, fun refs hrefs => ?_⟩
    unfold held at hrefs
    rw [List.map_append, List.mem_append] at hrefs
    rcases hrefs with hrefs | hrefs
    · exact h.sound.held refs hrefs
    · rw [List.mem_singleton.mp hrefs]
      exact h.sound.own
  imaged := h.imaged
  captured := fun c hc => by
    rcases List.mem_append.mp hc with hc | hc
    · exact h.captured c hc
    · rw [List.mem_singleton.mp hc]
      exact ⟨h.imaged.image, h.imaged.materialize_eq⟩

theorem Inv.release (h : Inv r) (capture : Nat) :
    Inv { r with captures := r.captures.eraseIdx capture } where
  sound := by
    refine ⟨h.sound.own, fun refs hrefs => ?_⟩
    obtain ⟨c, hc, rfl⟩ := List.mem_map.mp hrefs
    exact h.sound.held _ (held_of_mem (List.mem_of_mem_eraseIdx hc))
  imaged := h.imaged
  captured := fun c hc => h.captured c (List.mem_of_mem_eraseIdx hc)

/-- What a call of the journal does to the run, whichever call it is. -/
theorem settled_spec {value : Except String BufferJournal} {out : Except String Unit × SharedJournal}
    {reference : Reference} (h : Inv r) (hfollows : Follows r.held r.journal value out)
    (himaged : ∀ journal, value = .ok journal → Imaged journal reference) :
    Inv (r.settled out reference).2
      ∧ Keeps [] r.held r.journal.pages (r.settled out reference).2.journal.pages
      ∧ ∀ what, (r.settled out reference).1 = .error what → (r.settled out reference).2 = r := by
  cases hfollows with
  | ok hsame hkeeps =>
    subst hsame
    refine ⟨h.moved hkeeps (himaged _ rfl), hkeeps, fun what herror => ?_⟩
    cases herror
  | error => exact ⟨h, .refl h.sound, fun _ _ => rfl⟩

/-- **What a call does**: it ends, the captures show what they showed, and one that throws leaves
everything as it was. -/
theorem attempt_spec (h : Inv r) (hrounds : r.Rounds a) :
    ∃ out, r.attempt a = some out ∧ Inv out.2
      ∧ Keeps [] r.held r.journal.pages out.2.journal.pages
      ∧ ∀ what, out.1 = .error what → out.2 = r := by
  cases a with
  | initializeImage bytes elementCount capacity =>
    exact ⟨_, rfl, settled_spec h (initializeImage_follows h.sound bytes elementCount capacity)
      fun _ => .initializeImage⟩
  | replaceImage bytes elementCount capacity =>
    exact ⟨_, rfl, settled_spec h (replaceImage_follows h.sound bytes elementCount capacity)
      fun _ => .replaceImage⟩
  | appendWrite elementOffset bytes resulting =>
    obtain ⟨out, hout, hfollows⟩ := appendWrite_follows h.sound h.imaged.size h.imaged.image
      elementOffset bytes resulting hrounds
    refine ⟨_, ?_, settled_spec h hfollows fun _ => h.imaged.appendWrite⟩
    show (r.journal.appendWrite r.held elementOffset bytes resulting).map _ = _
    rw [hout]
    rfl
  | requestCapacity capacity =>
    obtain ⟨hkeeps, hsame⟩ := requestCapacity_follows h.sound capacity
    refine ⟨_, rfl, h.moved hkeeps ?_, hkeeps, fun _ herror => by cases herror⟩
    rw [hsame]
    exact h.imaged.requestCapacity capacity
  | captureDesired =>
    exact ⟨_, rfl, h.captureDesired, .refl h.sound, fun _ herror => by cases herror⟩
  | release capture =>
    exact ⟨_, rfl, h.release capture, .refl h.sound, fun _ herror => by cases herror⟩

theorem inv_step {r' : SharedRun} (h : Inv r) (hrounds : r.Rounds a) (hstep : step r a = some r') :
    Inv r' := by
  obtain ⟨out, hattempt, hinv, -⟩ := attempt_spec h hrounds
  unfold step at hstep
  split at hstep
  · rw [hattempt] at hstep
    cases hstep
    exact hinv
  · cases hstep

end SharedRun

end ModuleServices.Proof

namespace ModuleServices.SharedRun

open Proof BufferImage

/-- Over runs whose page counts fit 64 bits: each capture not yet released materializes to the
reference image it was taken at, in pages that are full but for the last and hold all of it; and a
call ends, leaves the pages of every earlier capture as they are, and changes nothing when it
throws. -/
theorem desired_image {elementStride : Nat} {r : SharedRun}
    (h : Run.Within step Rounds (start elementStride) r) :
    (∀ c ∈ r.captures, (c.1.read r.journal.pages.cells).materialize = c.2
      ∧ (∀ k, k + 1 < (c.1.read r.journal.pages.cells).pages.length →
        ((c.1.read r.journal.pages.cells).pages.getD k []).length = pageBytes)
      ∧ ((c.1.read r.journal.pages.cells).pages.map List.length).sum = c.1.byteSize)
    ∧ ∀ a, r.Fits a → r.Rounds a → ∃ out, r.attempt a = some out
      ∧ (∀ c ∈ r.captures,
        c.1.read out.2.journal.pages.cells = c.1.read r.journal.pages.cells)
      ∧ ∀ what, out.1 = .error what → out.2 = r := by
  have hinv : SharedRun.Inv r := h.invariant (SharedRun.inv_start elementStride)
    fun _ hinv hrounds hstep => SharedRun.inv_step hinv hrounds hstep
  refine ⟨fun c hc => ?_, fun a _ hrounds => ?_⟩
  · obtain ⟨hwf, hbytes⟩ := hinv.captured c hc
    exact ⟨hbytes, fun k hk => hwf.length_full pageBytes_pos hk, hwf.sum_length pageBytes_pos⟩
  · obtain ⟨out, hattempt, -, hkeeps, hthrows⟩ := SharedRun.attempt_spec hinv hrounds
    exact ⟨out, hattempt, SharedRun.read_eq hkeeps, hthrows⟩

/-- Rows of two bytes: initialized, captured, written past the end, refused, replaced, written in
place and captured again. -/
def sharedTrace : List SharedAction :=
  [.initializeImage [1, 2, 3, 4] 2 8, .captureDesired, .appendWrite 3 [5, 6] 4, .captureDesired,
    .appendWrite 1 [7, 8] 9, .appendWrite 0 [9, 9] 4, .captureDesired]

theorem desired_image_written : ∃ r, Run.Within step Rounds (start 2) r
    ∧ r.captures.map (·.2) = [[1, 2, 3, 4], [1, 2, 3, 4, 0, 0, 5, 6], [9, 9, 3, 4, 0, 0, 5, 6]]
    ∧ ∀ c ∈ r.captures, (c.1.read r.journal.pages.cells).materialize = c.2 := by
  have htrace : (Run.exec (Run.checked step fun r a => decide (r.Rounds a)) (start 2)
      sharedTrace).any (fun r => r.captures.map (·.2)
        = [[1, 2, 3, 4], [1, 2, 3, 4, 0, 0, 5, 6], [9, 9, 3, 4, 0, 0, 5, 6]]) = true := by
    decide +kernel
  obtain ⟨r, hr, hcaptures⟩ := (Option.any_eq_true _ _).mp htrace
  have hwithin := Run.exec_checked_within (fun _ _ => of_decide_eq_true) hr
  exact ⟨r, hwithin, of_decide_eq_true hcaptures, fun c hc => ((desired_image hwithin).1 c hc).1⟩

/-- One byte, and a write that makes as many logical rows as 64 bits count. -/
def roundedAway : List SharedAction :=
  [.initializeImage [7] 1 kMax, .appendWrite 0 [9] kMax, .captureDesired]

/-- Extents that fit 64 bits are not enough: rounded up to whole pages one is zero, and no page is
made for it. -/
theorem rounded_away : ¬∀ r, Run.Reachable step (start 1) r → ∀ c ∈ r.captures,
    (c.1.read r.journal.pages.cells).materialize = c.2
    ∧ (∀ k, k + 1 < (c.1.read r.journal.pages.cells).pages.length →
      ((c.1.read r.journal.pages.cells).pages.getD k []).length = pageBytes)
    ∧ ((c.1.read r.journal.pages.cells).pages.map List.length).sum = c.1.byteSize := by
  intro h
  have htrace : (Run.exec step (start 1) roundedAway).any (fun r => ∃ c ∈ r.captures,
      ((c.1.read r.journal.pages.cells).pages.map List.length).sum ≠ c.1.byteSize) = true := by
    decide +kernel
  obtain ⟨r, hr, hcaptures⟩ := (Option.any_eq_true _ _).mp htrace
  obtain ⟨c, hc, hsum⟩ := of_decide_eq_true hcaptures
  exact hsum (h r (Run.exec_reachable hr) c hc).2.2

end ModuleServices.SharedRun
