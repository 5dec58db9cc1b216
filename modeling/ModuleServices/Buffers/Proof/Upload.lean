import ModuleServices.Buffers.Proof.Journal

/-!
# What an upload leaves in a backing

A build uploads ranges of its image. Inside the image every byte of a range arrives as
the image has it, and a byte no range covers keeps its value; so a catch-up is right as
soon as its ranges cover every byte in which the backing differs from the image. That
the ranges cover the recorded writes is `catchUpRanges_cover`; that the backing differs
nowhere else is the business of the world's invariant.
-/

namespace ModuleServices.Proof

open ModuleServices BufferImage BufferWorld

/-- A range covers a byte. -/
def InRange (range : DirtyRange) (i : Nat) : Prop :=
  range.offset ≤ i ∧ i < range.offset + range.size

/-! ## Merging keeps the cover -/

theorem mergeFrom_cover {i : Nat} : ∀ (ranges : List DirtyRange) (back : DirtyRange),
    (back :: ranges).Pairwise (fun a b => a.offset ≤ b.offset) →
    (∃ range ∈ back :: ranges, InRange range i) →
    ∃ range ∈ mergeFrom back ranges, InRange range i := by
  intro ranges
  induction ranges with
  | nil => exact fun back _ h => h
  | cons next ranges ih =>
    intro back hsorted hcover
    obtain ⟨hback, hrest⟩ := List.pairwise_cons.mp hsorted
    have hle : back.offset ≤ next.offset := hback next List.mem_cons_self
    rw [mergeFrom]
    split
    · -- the next range is taken into the last one pushed, which still starts first
      apply ih
      · refine List.pairwise_cons.mpr ⟨fun r hr => hback r (List.mem_cons_of_mem _ hr), ?_⟩
        exact (List.pairwise_cons.mp hrest).2
      · obtain ⟨range, hmem, hin⟩ := hcover
        unfold InRange at hin
        rcases List.mem_cons.mp hmem with rfl | hmem
        · refine ⟨_, List.mem_cons_self, ?_⟩
          simp only [InRange]
          omega
        · rcases List.mem_cons.mp hmem with rfl | hmem
          · refine ⟨_, List.mem_cons_self, ?_⟩
            simp only [InRange]
            omega
          · exact ⟨range, List.mem_cons_of_mem _ hmem, hin⟩
    · obtain ⟨range, hmem, hin⟩ := hcover
      rcases List.mem_cons.mp hmem with rfl | hmem
      · exact ⟨_, List.mem_cons_self, hin⟩
      · obtain ⟨r, hr, hri⟩ := ih next hrest ⟨range, hmem, hin⟩
        exact ⟨r, List.mem_cons_of_mem _ hr, hri⟩

/-- The catch-up's ranges cover every byte written after the position held. -/
theorem catchUpRanges_cover {writes : List BufferWrite} {held i : Nat}
    (h : Recorded writes held i) : ∃ range ∈ catchUpRanges writes held, InRange range i := by
  obtain ⟨write, hmem, hseq, hlo, hhi⟩ := h
  unfold catchUpRanges mergeRanges
  generalize hdirty : ((writes.filter fun write =>
      !(decide (write.sequence ≤ held) || write.byteSize == 0)).map
    fun write => ({ offset := write.byteOffset, size := write.byteSize } : DirtyRange)) = dirty
  have hrange : ({ offset := write.byteOffset, size := write.byteSize } : DirtyRange) ∈
      dirty.insertionSort fun a b => a.offset ≤ b.offset := by
    rw [List.mem_insertionSort, ← hdirty]
    refine List.mem_map.mpr ⟨write, List.mem_filter.mpr ⟨hmem, ?_⟩, rfl⟩
    simp
    omega
  have : Std.Total (fun a b : DirtyRange => a.offset ≤ b.offset) :=
    ⟨fun a b => Nat.le_total a.offset b.offset⟩
  have : IsTrans DirtyRange (fun a b => a.offset ≤ b.offset) :=
    ⟨fun _ _ _ => Nat.le_trans⟩
  have hsorted := List.pairwise_insertionSort (fun a b : DirtyRange => a.offset ≤ b.offset) dirty
  cases hs : dirty.insertionSort fun a b => a.offset ≤ b.offset with
  | nil =>
    rw [hs] at hrange
    cases hrange
  | cons range ranges =>
    rw [hs] at hsorted hrange
    simp only [hs]
    exact mergeFrom_cover ranges range hsorted ⟨_, hrange, hlo, hhi⟩

/-! ## Gathering a range out of the image -/

/-- The segments of a range hold the image's bytes, as far as the image goes. -/
theorem gather_spec {image : BufferImage} (h : image.WF) {stray : Nat → Byte} :
    ∀ (fuel remaining offset : Nat) (bytes : List Byte),
      gather image stray fuel remaining offset = some bytes →
      bytes.length = remaining
        ∧ ∀ k, k < remaining → offset + k < image.byteSize →
            bytes.getD k 0 = image.byteAt (offset + k) := by
  intro fuel
  induction fuel with
  | zero =>
    intro remaining offset bytes hg
    cases remaining with
    | zero =>
      cases hg
      exact ⟨rfl, fun k hk => absurd hk (Nat.not_lt_zero k)⟩
    | succ remaining => cases hg
  | succ fuel ih =>
    intro remaining offset bytes hg
    cases remaining with
    | zero =>
      cases hg
      exact ⟨rfl, fun k hk => absurd hk (Nat.not_lt_zero k)⟩
    | succ remaining =>
      simp only [gather] at hg
      split at hg
      · cases hg
      rename_i page hpage
      have hgetD : image.pages.getD (offset / pageBytes) [] = page := by
        rw [List.getD_eq_getElem?_getD, hpage]
        rfl
      split at hg
      · rename_i hin
        split at hg
        · cases hg
        rename_i hsize
        obtain ⟨rest, hrest, rfl⟩ := Option.map_eq_some_iff.mp hg
        generalize hsz : min (remaining + 1) (page.length - offset % pageBytes) = size at *
        obtain ⟨hlen, hbytes⟩ := ih _ _ _ hrest
        have htake : ((page.drop (offset % pageBytes)).take size).length = size := by
          rw [List.length_take, List.length_drop]
          omega
        refine ⟨by rw [List.length_append, htake, hlen]; omega, fun k hk hki => ?_⟩
        rcases Nat.lt_or_ge k size with hks | hks
        · -- still inside this page
          rw [List.getD_append _ _ _ _ (by omega)]
          have hle : page.length ≤ pageBytes := by
            have hl : offset / pageBytes < image.pages.length := by
              by_contra hge
              rw [List.getElem?_eq_none (by omega)] at hpage
              cases hpage
            have hl' := h.size _ hl
            rw [hgetD] at hl'
            omega
          have ho := Nat.div_add_mod offset pageBytes
          have hdiv : (offset + k) / pageBytes = offset / pageBytes := by
            refine Nat.div_eq_of_lt_le ?_ ?_
            · rw [Nat.mul_comm]
              omega
            · rw [Nat.add_mul, Nat.one_mul, Nat.mul_comm]
              omega
          have hmod : (offset + k) % pageBytes = offset % pageBytes + k := by
            rw [Nat.mod_eq_sub_mul_div, hdiv]
            omega
          unfold byteAt Paged.read
          rw [hdiv, hmod, hgetD]
          simp only [List.getD_eq_getElem?_getD]
          rw [List.getElem?_take_of_lt hks, List.getElem?_drop]
        · rw [List.getD_append_right _ _ _ _ (by omega), htake]
          have := hbytes (k - size) (by omega) (by omega)
          rw [this]
          congr 1
          omega
      · -- past its page's end the range is past the image's end too
        rename_i hout
        cases hg
        refine ⟨by simp, fun k hk hki => ?_⟩
        exfalso
        have := (h.slot_lt pageBytes_pos (i := offset) (by omega)).2
        rw [hgetD] at this
        omega

/-- The memory after an upload, byte by byte. -/
theorem applyUpload_spec {contents : Nat → Byte} {offset i : Nat} {bytes : List Byte} :
    applyUpload contents offset bytes i =
      if offset ≤ i ∧ i < offset + bytes.length then bytes.getD (i - offset) 0
      else contents i := rfl

/-- **Uploads bring the image.** Inside the image, a byte of some range has the image's value
afterwards and any other byte has the value it had. -/
theorem uploadAll_spec {image : BufferImage} (h : image.WF) {stray : Nat → Byte} {retired : Bool} :
    ∀ (ranges : List DirtyRange) (contents contents' : Nat → Byte),
      uploadAll image stray retired ranges contents = (contents', none) →
      ∀ i, i < image.byteSize →
        contents' i = image.byteAt i
          ∨ ((∀ range ∈ ranges, ¬InRange range i) ∧ contents' i = contents i) := by
  intro ranges
  induction ranges with
  | nil =>
    intro contents contents' hu i _
    cases hu
    exact .inr ⟨fun range hmem => absurd hmem List.not_mem_nil, rfl⟩
  | cons range ranges ih =>
    intro contents contents' hu i hi
    rw [uploadAll] at hu
    split at hu
    · cases hu
    rename_i bytes hbytes
    split at hu
    · cases hu
    obtain ⟨hlen, hval⟩ := gather_spec h _ _ _ _ hbytes
    rcases ih _ _ hu i hi with heq | ⟨hnot, heq⟩
    · exact .inl heq
    · rw [heq, applyUpload_spec, hlen]
      by_cases hin : InRange range i
      · left
        have hin' := hin
        unfold InRange at hin'
        rw [if_pos hin', hval (i - range.offset) (by omega) (by omega)]
        congr 1
        omega
      · right
        refine ⟨fun r hr => ?_, if_neg hin⟩
        rcases List.mem_cons.mp hr with rfl | hr
        · exact hin
        · exact hnot r hr

/-! ## Filling a leased backing -/

/-- A range over the whole image covers each of its bytes. -/
theorem inRange_whole {size i : Nat} (hi : i < size) : InRange { offset := 0, size } i :=
  ⟨Nat.zero_le _, by simpa using hi⟩

/-- What the ranges of a build leave uncovered, the journal did not record since the backing. -/
theorem uploadRanges_cover {input : VersionedBufferBuildInput} {image : BufferImage}
    {backing : Backing} {allocated : Bool} {i : Nat} (hi : i < image.byteSize)
    (hnot : ∀ range ∈ uploadRanges input image backing allocated, ¬InRange range i) :
    journalCoversBacking input image backing allocated = true
      ∧ ¬Recorded input.writes backing.contentEpoch i := by
  unfold uploadRanges at hnot
  simp only at hnot
  by_cases hcov : journalCoversBacking input image backing allocated = true
  · refine ⟨hcov, fun hrec => ?_⟩
    rw [if_pos hcov] at hnot
    split at hnot
    · exact hnot _ List.mem_cons_self (inRange_whole hi)
    · obtain ⟨range, hmem, hin⟩ := catchUpRanges_cover hrec
      exact hnot range hmem hin
  · exfalso
    rw [if_neg hcov] at hnot
    split at hnot
    · exact hnot _ List.mem_cons_self (inRange_whole hi)
    · exact hnot _ List.mem_cons_self (inRange_whole hi)

/-- A backing a build touched keeps everything but its contents and what they are said to be. -/
structure SameBacking (backing backing' : Backing) : Prop where
  generation : backing'.generation = backing.generation
  leases : backing'.leases = backing.leases

/-- **The fill.** A backing that holds what the journal says it holds is brought to the image; one
that could not be filled holds nothing a successor may rely on. -/
theorem fill_spec {input : VersionedBufferBuildInput} {context : VersionedBufferBuildContext}
    {image : BufferImage} {allocated : Bool} {backing backing' : Backing} {error : Option String}
    (hwf : image.WF) (hgpu : input.gpuWritten = false) (hneeds : needsInitialContent input = true)
    (hheld : journalCoversBacking input image backing allocated = true →
      ∀ i, i < image.byteSize →
        Recorded input.writes backing.contentEpoch i ∨ image.byteAt i = backing.contents i)
    (h : fill input context (some image) allocated backing = (backing', error)) :
    SameBacking backing backing'
      ∧ (error = none → backing'.contentEpoch = input.writeSequence
          ∧ backing'.image = some image
          ∧ ∀ i, i < image.byteSize → backing'.contents i = image.byteAt i)
      ∧ (error ≠ none → backing'.contentEpoch = 0) := by
  unfold fill at h
  simp only [hgpu, hneeds] at h
  split at h
  · split at h
    · cases h
      exact ⟨⟨rfl, rfl⟩, fun he => absurd he (Option.some_ne_none _), fun _ => rfl⟩
    · rename_i contents hup
      cases h
      refine ⟨⟨rfl, rfl⟩, fun _ => ⟨rfl, rfl, fun i hi => ?_⟩, fun he => absurd rfl he⟩
      rcases uploadAll_spec hwf _ _ _ hup i hi with heq | ⟨hnot, heq⟩
      · exact heq
      · obtain ⟨hcov, hrec⟩ := uploadRanges_cover hi hnot
        rcases hheld hcov i hi with hr | hb
        · exact absurd hr hrec
        · exact heq.trans hb.symm
  · rename_i hempty
    cases h
    refine ⟨⟨rfl, rfl⟩, fun _ => ⟨rfl, rfl, fun i hi => ?_⟩, fun he => absurd rfl he⟩
    exact absurd ⟨trivial, Nat.ne_of_gt (Nat.zero_lt_of_lt hi)⟩ hempty

end ModuleServices.Proof
