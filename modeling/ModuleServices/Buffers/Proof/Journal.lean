import ModuleServices.Buffers.CatchUp

/-!
# What a journal operation does to the image

Every operation that moves the sequence records exactly one write, and the bytes that
write does not cover are where they were. `Advances` says so once; the image of a
journal is a dense one throughout, so it materializes to the bytes a page lookup finds.
-/

namespace ModuleServices.Proof

open ModuleServices BufferImage

/-! ## Materializing a dense image -/

/-- From a page boundary on, the copy loop leaves the bytes the page lookups find. -/
theorem materializeFrom_getD {image : BufferImage} (h : image.WF) :
    ∀ (pages : List Page) (k : Nat), image.pages.drop k = pages → ∀ i,
      k * pageBytes ≤ i → i < image.byteSize →
      (materializeFrom image.byteSize (min (k * pageBytes) image.byteSize) pages).getD
        (i - k * pageBytes) 0 = image.byteAt i := by
  intro pages
  induction pages with
  | nil =>
    intro k hk i hki hi
    have hlen : image.pages.length ≤ k := List.drop_eq_nil_iff.mp hk
    have hend := Paged.pages_le_div pageBytes_pos (h.count ▸ hlen)
    omega
  | cons page pages ih =>
    intro k hk i hki hi
    have hkl : k < image.pages.length := by
      by_contra hge
      rw [List.drop_eq_nil_of_le (by omega)] at hk
      cases hk
    have hpage : image.pages.getD k [] = page := by
      rw [List.getD_eq_getElem _ _ hkl]
      have := List.drop_eq_getElem_cons hkl
      rw [hk] at this
      exact (List.cons.inj this).1.symm
    have hrest : image.pages.drop (k + 1) = pages := by
      rw [← List.drop_drop, hk]
      rfl
    have hlen : page.length = min pageBytes (image.byteSize - k * pageBytes) := by
      rw [← hpage]
      exact h.size k hkl
    have hP := pageBytes_pos
    rw [Nat.min_eq_left (by omega), materializeFrom, if_neg (by omega)]
    simp only
    have hsize : min page.length (image.byteSize - k * pageBytes) = page.length := by omega
    rw [hsize, List.take_length]
    rcases Nat.lt_or_ge (i - k * pageBytes) page.length with hin | hout
    · rw [List.getD_append _ _ _ _ hin]
      have hdiv : i / pageBytes = k := Nat.div_eq_of_lt_le hki (by
        rw [Nat.add_mul, Nat.one_mul]
        omega)
      have hmod : i % pageBytes = i - k * pageBytes := by
        rw [Nat.mod_eq_sub_mul_div, hdiv, Nat.mul_comm]
      unfold byteAt Paged.read
      rw [hdiv, hmod, hpage]
    · rw [List.getD_append_right _ _ _ _ hout]
      have hfull : page.length = pageBytes := by omega
      have hnext : (k + 1) * pageBytes = k * pageBytes + pageBytes := by
        rw [Nat.add_mul, Nat.one_mul]
      have := ih (k + 1) hrest i (by omega) hi
      rw [← this, hnext, hfull, Nat.min_eq_left (by omega), Nat.sub_sub]

/-- A dense image materializes to the bytes its pages hold. -/
theorem materialize_getD {image : BufferImage} (h : image.WF) {i : Nat}
    (hi : i < image.byteSize) : image.materialize.getD i 0 = image.byteAt i := by
  have := materializeFrom_getD h image.pages 0 rfl i (by omega) hi
  simpa [materialize] using this

theorem byteAt_ge {image : BufferImage} (h : image.WF) {i : Nat} (hi : image.byteSize ≤ i) :
    image.byteAt i = 0 :=
  Paged.Dense.read_ge h hi

/-! ## The mutators -/

/-- A write covers a byte. -/
def Covers (write : BufferWrite) (i : Nat) : Prop :=
  write.byteOffset ≤ i ∧ i < write.byteOffset + write.byteSize

/-- The journal as the constructor and `Initialize` leave it. -/
structure JournalWF (journal : BufferJournal) : Prop where
  stride : journal.elementStride ≠ 0
  sequence : 0 < journal.writeSequence
  size : journal.byteSize = journal.elementCount * journal.elementStride
  image : journal.image.WF

/-- One recorded write leads from a journal to the next. Either the write covers the whole image,
or the image does not get shorter and every byte off the write is as it was. -/
structure Advances (journal journal' : BufferJournal) (write : BufferWrite) : Prop where
  stride : journal'.elementStride = journal.elementStride
  sequence : journal'.writeSequence = journal.writeSequence + 1
  recorded : write.sequence = journal.writeSequence + 1
  writes : journal'.writes = journal.writes ++ [write]
  base : journal'.journalBaseSequence = journal.journalBaseSequence
  wf : JournalWF journal'
  bytes : (∀ i, i < journal'.byteSize → Covers write i)
    ∨ (journal.byteSize ≤ journal'.byteSize
      ∧ ∀ i, ¬Covers write i → journal'.image.byteAt i = journal.image.byteAt i)

/-- `Initialize` leaves a well-formed journal with nothing recorded. -/
theorem initializeImage_wf {journal journal' : BufferJournal} {bytes : List Byte}
    {elementCount capacity : Nat}
    (h : journal.initializeImage bytes elementCount capacity = .ok journal') :
    JournalWF journal' := by
  unfold BufferJournal.initializeImage at h
  split at h
  · cases h
  · rename_i hguard
    push Not at hguard
    obtain ⟨hstride, _, hlen⟩ := hguard
    cases h
    exact ⟨hstride, Nat.one_pos, hlen, Paged.chunks_dense bytes⟩

/-- An aligned write inside the resulting rows ends inside the resulting extent. -/
theorem write_fits {stride offset length resulting : Nat} (count : Nat) (haligned : length % stride = 0)
    (hextent : offset + length / stride ≤ resulting) :
    offset * stride + length ≤ max count resulting * stride := by
  have hrows : length = length / stride * stride :=
    (Nat.div_mul_cancel (Nat.dvd_of_mod_eq_zero haligned)).symm
  calc offset * stride + length
      = (offset + length / stride) * stride := by rw [Nat.add_mul, ← hrows]
    _ ≤ max count resulting * stride :=
        Nat.mul_le_mul_right _ (Nat.le_trans hextent (Nat.le_max_right _ _))

/-- **What a write does.** The image covers the write and all the rows; the write reads back, and
every other byte is where it was. -/
theorem appendWrite_spec {journal journal' : BufferJournal} {elementOffset : Nat}
    {bytes : List Byte} {resulting : Nat}
    (hsize : journal.byteSize = journal.elementCount * journal.elementStride)
    (himage : journal.image.WF)
    (h : journal.appendWrite elementOffset bytes resulting = .ok journal') :
    ∃ pages, journal' = { journal with
        writeSequence := journal.writeSequence + 1
        pages
        byteSize := max journal.elementCount resulting * journal.elementStride
        writes := journal.writes ++ [{
          sequence := journal.writeSequence + 1
          byteOffset := elementOffset * journal.elementStride
          byteSize := bytes.length }]
        elementCount := max journal.elementCount resulting }
      ∧ journal.elementStride ≠ 0
      ∧ journal.byteSize ≤ journal'.byteSize
      ∧ elementOffset * journal.elementStride + bytes.length ≤ journal'.byteSize
      ∧ journal'.image.WF
      ∧ ∀ i, journal'.image.byteAt i =
          if elementOffset * journal.elementStride ≤ i
            ∧ i < elementOffset * journal.elementStride + bytes.length
          then bytes.getD (i - elementOffset * journal.elementStride) 0
          else journal.image.byteAt i := by
  unfold BufferJournal.appendWrite at h
  split at h
  · cases h
  rename_i haligned
  push Not at haligned
  simp only at h
  split at h
  · cases h
  rename_i hextent
  push Not at hextent
  split at h
  · cases h
  cases h
  have hgrow : journal.byteSize ≤ max journal.elementCount resulting * journal.elementStride := by
    rw [hsize]
    exact Nat.mul_le_mul_right _ (Nat.le_max_left _ _)
  have hfits := write_fits journal.elementCount haligned.2.2 hextent.2
  have hpages : Paged.Dense pageBytes journal.byteSize journal.pages := himage
  have hdense := Paged.grow_dense (d := (0 : Byte)) hpages pageBytes_pos hgrow
  obtain ⟨hd, hread⟩ := Paged.overwrite_spec (d := (0 : Byte)) pageBytes_pos bytes.length
    (elementOffset * journal.elementStride) bytes _ (Nat.le_refl _) hdense hfits
  refine ⟨_, rfl, haligned.1, hgrow, hfits, hd, fun i => ?_⟩
  refine (hread i).trans ?_
  rw [Paged.read_grow i]
  rfl

theorem appendWrite_advances {journal journal' : BufferJournal} {elementOffset : Nat}
    {bytes : List Byte} {resulting : Nat} (hwf : JournalWF journal)
    (h : journal.appendWrite elementOffset bytes resulting = .ok journal') :
    ∃ write, Advances journal journal' write
      ∧ write.byteOffset = elementOffset * journal.elementStride
      ∧ write.byteSize = bytes.length
      ∧ journal'.byteSize = max journal.elementCount resulting * journal.elementStride := by
  obtain ⟨pages, hjournal, -, hgrow, -, himage, hread⟩ :=
    appendWrite_spec hwf.size hwf.image h
  have hbytes : ∀ i, ¬(elementOffset * journal.elementStride ≤ i
      ∧ i < elementOffset * journal.elementStride + bytes.length) →
      journal'.image.byteAt i = journal.image.byteAt i := by
    intro i hi
    rw [hread i, if_neg hi]
  subst hjournal
  exact ⟨_, ⟨rfl, rfl, rfl, rfl, rfl, ⟨hwf.stride, Nat.succ_pos _, rfl, himage⟩,
    .inr ⟨hgrow, hbytes⟩⟩, rfl, rfl, rfl⟩

theorem replaceImage_advances {journal journal' : BufferJournal} {bytes : List Byte}
    {elementCount capacity : Nat} (hwf : JournalWF journal)
    (h : journal.replaceImage bytes elementCount capacity = .ok journal') :
    ∃ write, Advances journal journal' write ∧ ∀ i, i < journal'.byteSize → Covers write i := by
  unfold BufferJournal.replaceImage at h
  split at h
  · cases h
  rename_i hguard
  push Not at hguard
  cases h
  have hwhole : ∀ i, i < bytes.length → Covers
      { sequence := journal.writeSequence + 1, byteOffset := 0, byteSize := bytes.length } i :=
    fun i hi => ⟨Nat.zero_le _, by simpa using hi⟩
  exact ⟨_, ⟨rfl, rfl, rfl, rfl, rfl,
    ⟨hwf.stride, Nat.succ_pos _, hguard.2.2, Paged.chunks_dense bytes⟩, .inl hwhole⟩, hwhole⟩

theorem requestCapacity_advances {journal : BufferJournal} {capacity : Nat}
    (hwf : JournalWF journal) :
    journal.requestCapacity capacity = journal
      ∨ ∃ write, Advances journal (journal.requestCapacity capacity) write
        ∧ (journal.requestCapacity capacity).byteSize = journal.byteSize := by
  unfold BufferJournal.requestCapacity
  split
  · exact .inl rfl
  · exact .inr ⟨_, ⟨rfl, rfl, rfl, rfl, rfl,
      ⟨hwf.stride, Nat.succ_pos _, hwf.size, hwf.image⟩,
      .inr ⟨Nat.le_refl _, fun _ _ => rfl⟩⟩, rfl⟩

end ModuleServices.Proof
