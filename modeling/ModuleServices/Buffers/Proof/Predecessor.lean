import ModuleServices.Buffers.Predecessor
import ModuleServices.Buffers.Proof.CatchUp
import Mathlib.Data.List.Induction

/-!
# The predecessor path writes the right bytes

Where a byte ends up depends only on which queued entries cover it: the uploads are
each a part of the last delta write there (`resolveDelta_spec`), the copies are what
the backing lacks less the delta (`covers_copyRanges`). Both are stated through the
points covered, so the order the batch runs in never matters.
-/

namespace ModuleServices.Proof

open Intervals

/-! ## A batch applied -/

/-- The upload writes the byte. -/
def Uploads (range : StreamingUploadRange) (i : Nat) : Prop :=
  range.dstOffset ≤ i ∧ i < range.dstOffset + range.data.length

theorem foldl_applyUpload_of_not {uploads : List StreamingUploadRange} {memory : Nat → Byte}
    {i : Nat} (h : ∀ range ∈ uploads, ¬ Uploads range i) :
    uploads.foldl (fun memory range => applyUpload memory range.dstOffset range.data) memory i
      = memory i := by
  induction uploads generalizing memory with
  | nil => rfl
  | cons range uploads ih =>
    rw [List.foldl_cons, ih fun q hq => h q (List.mem_cons_of_mem _ hq), applyUpload_spec]
    exact if_neg (h range List.mem_cons_self)

/-- Uploads that agree on a byte leave it at that, whatever the order. -/
theorem foldl_applyUpload_of {uploads : List StreamingUploadRange} {memory : Nat → Byte} {i : Nat}
    {v : Byte} (hex : ∃ range ∈ uploads, Uploads range i)
    (hv : ∀ range ∈ uploads, Uploads range i → range.data.getD (i - range.dstOffset) 0 = v) :
    uploads.foldl (fun memory range => applyUpload memory range.dstOffset range.data) memory i
      = v := by
  induction uploads generalizing memory with
  | nil =>
    obtain ⟨range, hrange, -⟩ := hex
    cases hrange
  | cons range uploads ih =>
    rw [List.foldl_cons]
    by_cases hlater : ∃ q ∈ uploads, Uploads q i
    · exact ih hlater fun q hq => hv q (List.mem_cons_of_mem _ hq)
    · have hnot : ∀ q ∈ uploads, ¬ Uploads q i := fun q hq hu => hlater ⟨q, hq, hu⟩
      obtain ⟨q, hq, hqi⟩ := hex
      rcases List.mem_cons.mp hq with rfl | hq
      · rw [foldl_applyUpload_of_not hnot, applyUpload_spec]
        exact (if_pos hqi).trans (hv q List.mem_cons_self hqi)
      · exact absurd hqi (hnot q hq)

theorem foldl_applyCopy {copies : List StreamingCopyRange} {previous contents : Nat → Byte}
    {i : Nat} :
    copies.foldl (applyCopy previous) contents i =
      if ∃ range ∈ copies, range.offset ≤ i ∧ i < range.offset + range.size then previous i
      else contents i := by
  induction copies generalizing contents with
  | nil => simp
  | cons range copies ih =>
    rw [List.foldl_cons, ih]
    unfold applyCopy
    by_cases hr : range.offset ≤ i ∧ i < range.offset + range.size
    · simp [hr]
    · simp only [hr, if_false, List.mem_cons, exists_eq_or_imp, false_or]

/-! ## The delta, resolved -/

theorem overlay_of_not {writes : List DeltaWrite} {base : Nat → Byte} {i : Nat}
    (h : ¬ DeltaWrites writes i) : overlay base writes i = base i := by
  induction writes generalizing base with
  | nil => rfl
  | cons write writes ih =>
    have hlater : ¬ DeltaWrites writes i := fun ⟨q, hq, hqi⟩ =>
      h ⟨q, List.mem_cons_of_mem _ hq, hqi⟩
    have hhere : ¬ (write.offset ≤ i ∧ i < write.offset + write.data.length) := fun hw =>
      h ⟨write, List.mem_cons_self, hw⟩
    show overlay (applyUpload base write.offset write.data) writes i = base i
    rw [ih hlater, applyUpload_spec, if_neg hhere]

/-- A byte the delta writes does not depend on what it is laid over. -/
theorem overlay_congr {writes : List DeltaWrite} {base base' : Nat → Byte} {i : Nat}
    (h : DeltaWrites writes i) : overlay base writes i = overlay base' writes i := by
  induction writes generalizing base base' with
  | nil =>
    obtain ⟨write, hwrite, -⟩ := h
    cases hwrite
  | cons write writes ih =>
    show overlay (applyUpload base write.offset write.data) writes i
      = overlay (applyUpload base' write.offset write.data) writes i
    by_cases hlater : DeltaWrites writes i
    · exact ih hlater
    · obtain ⟨q, hq, hqi⟩ := h
      rcases List.mem_cons.mp hq with rfl | hq
      · rw [overlay_of_not hlater, overlay_of_not hlater, applyUpload_spec, applyUpload_spec,
          if_pos hqi, if_pos hqi]
      · exact absurd ⟨q, hq, hqi⟩ hlater

/-- What the sink keeps: the writes with bytes, all of them inside the version. -/
theorem deltaWrites_spec {usedBytes : Nat} {emitted writes : List DeltaWrite}
    (h : deltaWrites usedBytes emitted = some writes) :
    (∀ write ∈ writes, write.offset + write.data.length ≤ usedBytes)
      ∧ (∀ i, DeltaWrites writes i ↔ DeltaWrites emitted i)
      ∧ ∀ base, overlay base writes = overlay base emitted := by
  induction emitted generalizing writes with
  | nil =>
    cases h
    simp
  | cons write emitted ih =>
    unfold deltaWrites at h
    split at h
    · rename_i hempty
      obtain ⟨h₁, h₂, h₃⟩ := ih h
      refine ⟨h₁, fun i => ?_, fun base => ?_⟩
      · rw [h₂ i]
        simp only [DeltaWrites, List.mem_cons, exists_eq_or_imp]
        constructor
        · exact .inr
        · rintro (hw | hw)
          · omega
          · exact hw
      · rw [h₃ base]
        show _ = overlay (applyUpload base write.offset write.data) emitted
        congr 1
        funext i
        rw [applyUpload_spec, if_neg (by omega)]
    · split at h
      · cases h
      · rename_i hrange
        obtain ⟨kept, hkept, rfl⟩ := Option.map_eq_some_iff.mp h
        obtain ⟨h₁, h₂, h₃⟩ := ih hkept
        refine ⟨fun q hq => ?_, fun i => ?_, fun base => ?_⟩
        · rcases List.mem_cons.mp hq with rfl | hq
          · omega
          · exact h₁ q hq
        · have := h₂ i
          simp only [DeltaWrites, List.mem_cons, exists_eq_or_imp] at this ⊢
          rw [this]
        · exact h₃ _

/-- The part of a write in an interval inside it. -/
theorem uploads_part {write : DeltaWrite} {gap : HalfOpen} {i : Nat} (hlo : write.offset ≤ gap.lo)
    (hne : gap.lo < gap.hi) (hhi : gap.hi ≤ write.offset + write.data.length) :
    (write.part gap).dstOffset = gap.lo
      ∧ (write.part gap).dstOffset + (write.part gap).data.length = gap.hi
      ∧ (gap.lo ≤ i → i < gap.hi →
        (write.part gap).data.getD (i - gap.lo) 0 = write.data.getD (i - write.offset) 0) := by
  unfold DeltaWrite.part
  refine ⟨rfl, ?_, fun h₁ h₂ => ?_⟩
  · simp only [List.length_take, List.length_drop]
    omega
  · have hi : i - gap.lo < gap.hi - gap.lo := by omega
    rw [List.getD_eq_getElem?_getD, List.getD_eq_getElem?_getD, List.getElem?_take_of_lt hi,
      List.getElem?_drop]
    congr 2
    omega

/-- The interval an upload writes. -/
def uploadInterval (range : StreamingUploadRange) : HalfOpen :=
  ⟨range.dstOffset, range.dstOffset + range.data.length⟩

/-- The parts of a write: exactly its bytes outside what later writes cover. -/
theorem parts_spec (write : DeltaWrite) {delta : List HalfOpen} (hdelta : Ordered delta) :
    let parts := (gaps delta write.offset (write.offset + write.data.length)).map write.part
    parts.map uploadInterval = gaps delta write.offset (write.offset + write.data.length)
      ∧ ∀ range ∈ parts, ∀ i, Uploads range i →
        range.data.getD (i - range.dstOffset) 0 = write.data.getD (i - write.offset) 0 := by
  intro parts
  have hord := gaps_ordered (b := write.offset) (e := write.offset + write.data.length) hdelta
  -- a gap is not empty, so its first and last points say where it lies
  have hin : ∀ gap ∈ gaps delta write.offset (write.offset + write.data.length),
      write.offset ≤ gap.lo ∧ gap.lo < gap.hi
        ∧ gap.hi ≤ write.offset + write.data.length := by
    intro gap hgap
    have hne := hord.nonempty gap hgap
    have hfirst := (covers_gaps (i := gap.lo) hdelta).mp ⟨gap, hgap, Nat.le_refl _, hne⟩
    have hlast := (covers_gaps (i := gap.hi - 1) hdelta).mp ⟨gap, hgap, by omega, by omega⟩
    exact ⟨hfirst.1, hne, by omega⟩
  constructor
  · rw [List.map_map]
    conv_rhs => rw [← List.map_id (gaps delta write.offset (write.offset + write.data.length))]
    refine List.map_congr_left fun gap hgap => ?_
    obtain ⟨h₁, h₂, h₃⟩ := hin gap hgap
    obtain ⟨hdst, hstop, -⟩ := uploads_part (i := 0) h₁ h₂ h₃
    show (⟨(write.part gap).dstOffset, _⟩ : HalfOpen) = gap
    rw [hstop, hdst]
  · intro range hrange i hi
    obtain ⟨gap, hgap, rfl⟩ := List.mem_map.mp hrange
    obtain ⟨h₁, h₂, h₃⟩ := hin gap hgap
    obtain ⟨hdst, hstop, hbyte⟩ := uploads_part (i := i) h₁ h₂ h₃
    unfold Uploads at hi
    rw [hstop, hdst] at hi
    rw [hdst]
    exact hbyte hi.1 hi.2

/-- **Later writes win.** The resolved delta covers what the writes cover, in disjoint parts, each
byte of a part being the last write's there. -/
theorem resolveDelta_spec (writes : List DeltaWrite) :
    Ordered (resolveDelta writes).1
      ∧ (∀ i, Intervals.Covers (resolveDelta writes).1 i ↔ DeltaWrites writes i)
      ∧ ((resolveDelta writes).2.map uploadInterval).Pairwise Intervals.Disjoint
      ∧ (∀ range ∈ (resolveDelta writes).2.map uploadInterval, range.lo < range.hi)
      ∧ (∀ i, Intervals.Covers ((resolveDelta writes).2.map uploadInterval) i ↔ DeltaWrites writes i)
      ∧ ∀ base, ∀ range ∈ (resolveDelta writes).2, ∀ i, Uploads range i →
        range.data.getD (i - range.dstOffset) 0 = overlay base writes i := by
  induction writes with
  | nil => simp [resolveDelta, Ordered.nil, DeltaWrites]
  | cons write writes ih =>
    obtain ⟨hord, hcov, hpair, hne, hup, hbyte⟩ := ih
    obtain ⟨hmap, hpart⟩ := parts_spec write hord
    have hdelta : ∀ i, DeltaWrites (write :: writes) i
        ↔ (write.offset ≤ i ∧ i < write.offset + write.data.length) ∨ DeltaWrites writes i := by
      simp [DeltaWrites]
    have hgapcov := fun i =>
      covers_gaps (b := write.offset) (e := write.offset + write.data.length) (i := i) hord
    refine ⟨hord.add, fun i => ?_, ?_, fun range hrange => ?_, fun i => ?_,
      fun base range hrange i hi => ?_⟩
    · show Intervals.Covers (add _ _ _) i ↔ _
      rw [covers_add hord, hcov, hdelta]
      exact or_comm
    · show ((resolveDelta writes).2 ++ _ |>.map uploadInterval).Pairwise Intervals.Disjoint
      rw [List.map_append, hmap, List.pairwise_append]
      refine ⟨hpair, (gaps_ordered hord).disjoint, fun p hp q hq i h₁ h₂ h₃ h₄ => ?_⟩
      have hlater := (hup i).mp ⟨p, hp, h₁, h₂⟩
      exact ((hgapcov i).mp ⟨q, hq, h₃, h₄⟩).2.2 ((hcov i).mpr hlater)
    · change range ∈ ((resolveDelta writes).2 ++ _).map uploadInterval at hrange
      rw [List.map_append, hmap] at hrange
      rcases List.mem_append.mp hrange with hrange | hrange
      · exact hne range hrange
      · exact (gaps_ordered hord).nonempty range hrange
    · show Intervals.Covers ((resolveDelta writes).2 ++ _ |>.map uploadInterval) i ↔ _
      rw [List.map_append, hmap, covers_append, hup, hgapcov, hcov, hdelta]
      tauto
    · show _ = overlay (applyUpload base write.offset write.data) writes i
      rcases List.mem_append.mp hrange with hrange | hrange
      · exact hbyte _ range hrange i hi
      · -- a part of this write: no later write reaches it
        have hgap : Intervals.Covers (gaps (resolveDelta writes).1 write.offset
            (write.offset + write.data.length)) i := by
          rw [← hmap]
          exact ⟨uploadInterval range, List.mem_map_of_mem hrange, hi.1, hi.2⟩
        obtain ⟨h₁, h₂, h₃⟩ := (hgapcov i).mp hgap
        rw [hpart range hrange i hi, overlay_of_not (mt (hcov i).mpr h₃), applyUpload_spec,
          if_pos ⟨h₁, h₂⟩]

/-! ## What is copied -/

theorem missingFrom_spec (copyLimit : Nat) (ranges : List BufferByteRange) :
    Ordered (missingFrom copyLimit ranges)
      ∧ ∀ i, Intervals.Covers (missingFrom copyLimit ranges) i
        ↔ i < copyLimit ∧ ∃ range ∈ ranges, range.offset ≤ i ∧ i < range.offset + range.size := by
  -- from the last range back: `missingFrom` adds one range to what the earlier ones left
  induction ranges using List.reverseRecOn with
  | nil => simp [missingFrom, Ordered.nil]
  | append_singleton ranges range ih =>
    obtain ⟨hord, hcov⟩ := ih
    have hstep : missingFrom copyLimit (ranges ++ [range])
        = add (missingFrom copyLimit ranges) (min range.offset copyLimit)
            (min range.offset copyLimit
              + min range.size (copyLimit - min range.offset copyLimit)) := by
      simp [missingFrom]
    rw [hstep]
    refine ⟨hord.add, fun i => ?_⟩
    rw [covers_add hord, hcov]
    simp only [List.mem_append, List.mem_singleton, or_and_right, exists_or, exists_eq_left]
    constructor
    · rintro (⟨h₁, h₂⟩ | ⟨h₁, h₂⟩)
      · exact ⟨h₁, .inl h₂⟩
      · exact ⟨by omega, .inr (by omega)⟩
    · rintro ⟨h₁, h₂ | h₂⟩
      · exact .inl ⟨h₁, h₂⟩
      · exact .inr (by omega)

theorem missingBytes_ordered (input : PredecessorInput) (previous : PublishedBufferVersion)
    (allocated : Bool) (backing : Backing) (usedBytes : Nat) :
    Ordered (missingBytes input previous allocated backing usedBytes)
      ∧ ∀ i, Intervals.Covers (missingBytes input previous allocated backing usedBytes) i →
        i < min previous.usedBytes usedBytes := by
  unfold missingBytes
  dsimp only
  split
  · refine ⟨Ordered.nil.add, fun i hi => ?_⟩
    rw [covers_add Ordered.nil] at hi
    simpa using hi
  · obtain ⟨hord, hcov⟩ := missingFrom_spec (min previous.usedBytes usedBytes) ‹_›
    exact ⟨hord, fun i hi => ((hcov i).mp hi).1⟩

/-- **Nothing stale is left out.** A byte within both used sizes that is not copied is the
predecessor's already. -/
theorem eq_of_not_missing {input : PredecessorInput} {previous : PublishedBufferVersion}
    {allocated : Bool} {backing : Backing} {usedBytes i : Nat} {previousBytes : Nat → Byte}
    (hheld : allocated = false → ChangesCovered input previous previousBytes backing)
    (hi : i < min previous.usedBytes usedBytes)
    (h : ¬ Intervals.Covers (missingBytes input previous allocated backing usedBytes) i) :
    backing.contents i = previousBytes i := by
  unfold missingBytes at h
  dsimp only at h
  split at h
  · rw [covers_add Ordered.nil] at h
    exact absurd (.inr ⟨Nat.zero_le i, hi⟩) h
  · rename_i ranges hranges
    rw [(missingFrom_spec _ ranges).2] at h
    unfold changedRanges at hranges
    dsimp only at hranges
    split at hranges
    · cases hranges
    · rename_i hwhole
      push Not at hwhole
      obtain ⟨hnew, hepoch, hle, -⟩ := hwhole
      by_contra hdiff
      obtain ⟨hne, hcovered⟩ :=
        hheld (by simpa using hnew) hepoch hle i (by omega) hdiff
      rw [if_neg hne] at hranges
      obtain ⟨changedSince, hcall, hanswer⟩ := Option.bind_eq_some_iff.mp hranges
      exact h ⟨hi, hcovered changedSince ranges hcall hanswer⟩

/-- The interval a copy writes. -/
def copyInterval (range : StreamingCopyRange) : HalfOpen :=
  ⟨range.offset, range.offset + range.size⟩

theorem map_copyRanges {missing delta : List HalfOpen} (hdelta : Ordered delta) :
    (copyRanges missing delta).map copyInterval
      = missing.flatMap fun range => gaps delta range.lo range.hi := by
  unfold copyRanges
  rw [List.map_flatMap]
  congr 1
  funext range
  rw [List.map_map]
  conv_rhs => rw [← List.map_id (gaps delta range.lo range.hi)]
  refine List.map_congr_left fun gap hgap => ?_
  have hne := (gaps_ordered hdelta).nonempty gap hgap
  show (⟨gap.lo, gap.lo + (gap.hi - gap.lo)⟩ : HalfOpen) = gap
  rw [Nat.add_sub_cancel' hne.le]

theorem copyRanges_nonempty {missing delta : List HalfOpen} (hdelta : Ordered delta) :
    ∀ range ∈ (copyRanges missing delta).map copyInterval, range.lo < range.hi := by
  rw [map_copyRanges hdelta]
  intro gap hgap
  obtain ⟨range, -, hgap⟩ := List.mem_flatMap.mp hgap
  exact (gaps_ordered hdelta).nonempty gap hgap

theorem covers_copyRanges {missing delta : List HalfOpen} (hdelta : Ordered delta) {i : Nat} :
    Intervals.Covers ((copyRanges missing delta).map copyInterval) i
      ↔ Intervals.Covers missing i ∧ ¬ Intervals.Covers delta i := by
  rw [map_copyRanges hdelta]
  constructor
  · rintro ⟨gap, hgap, h₁, h₂⟩
    obtain ⟨range, hrange, hgap⟩ := List.mem_flatMap.mp hgap
    obtain ⟨h₃, h₄, h₅⟩ := (covers_gaps hdelta).mp ⟨gap, hgap, h₁, h₂⟩
    exact ⟨⟨range, hrange, h₃, h₄⟩, h₅⟩
  · rintro ⟨⟨range, hrange, h₁, h₂⟩, h₃⟩
    obtain ⟨gap, hgap, h⟩ := (covers_gaps hdelta).mpr ⟨h₁, h₂, h₃⟩
    exact ⟨gap, List.mem_flatMap.mpr ⟨range, hrange, hgap⟩, h⟩

theorem copyRanges_disjoint {missing delta : List HalfOpen} (hmissing : Ordered missing)
    (hdelta : Ordered delta) :
    ((copyRanges missing delta).map copyInterval).Pairwise Intervals.Disjoint := by
  rw [map_copyRanges hdelta, List.pairwise_flatMap]
  refine ⟨fun range _ => (gaps_ordered hdelta).disjoint, ?_⟩
  refine hmissing.apart.imp fun {a b} hab p hp q hq i h₁ h₂ h₃ h₄ => ?_
  have := ((covers_gaps hdelta).mp ⟨p, hp, h₁, h₂⟩).2.1
  have := ((covers_gaps hdelta).mp ⟨q, hq, h₃, h₄⟩).1
  omega

/-! ## The batch -/

theorem Queued.ranges_eq (queued : Queued) :
    queued.ranges = queued.copies.map copyInterval ++ queued.uploads.map uploadInterval := rfl

/-- The memory after a batch whose entries are disjoint, at one byte. -/
theorem Queued.apply_spec {queued : Queued} {previous contents : Nat → Byte} {i : Nat} {v : Byte}
    (hv : ∀ range ∈ queued.uploads, Uploads range i →
      range.data.getD (i - range.dstOffset) 0 = v) :
    queued.apply previous contents i =
      if Intervals.Covers (queued.uploads.map uploadInterval) i then v
      else if Intervals.Covers (queued.copies.map copyInterval) i then previous i
      else contents i := by
  have hup : Intervals.Covers (queued.uploads.map uploadInterval) i
      ↔ ∃ range ∈ queued.uploads, Uploads range i := by
    simp [Intervals.Covers, uploadInterval, Uploads]
  have hcopy : Intervals.Covers (queued.copies.map copyInterval) i
      ↔ ∃ range ∈ queued.copies, range.offset ≤ i ∧ i < range.offset + range.size := by
    simp [Intervals.Covers, copyInterval]
  unfold Queued.apply
  by_cases hu : ∃ range ∈ queued.uploads, Uploads range i
  · rw [if_pos (hup.mpr hu)]
    exact foldl_applyUpload_of hu hv
  · rw [if_neg (mt hup.mp hu), foldl_applyUpload_of_not fun range hrange h => hu ⟨range, hrange, h⟩,
      foldl_applyCopy]
    by_cases hc : ∃ range ∈ queued.copies, range.offset ≤ i ∧ i < range.offset + range.size
    · rw [if_pos hc, if_pos (hcopy.mpr hc)]
    · rw [if_neg hc, if_neg (mt hcopy.mp hc)]

/-- What a batch is: disjoint, inside the version, the delta's bytes uploaded and of the rest what
the backing lacks copied. -/
structure BatchOf (input : PredecessorInput) (allocated : Bool) (backing : Backing)
    (usedBytes : Nat) (writes : List DeltaWrite) (queued : Queued) : Prop where
  disjoint : queued.ranges.Pairwise Intervals.Disjoint
  inside : ∀ range ∈ queued.ranges, range.lo < range.hi ∧ range.hi ≤ usedBytes
  uploads : ∀ i, Intervals.Covers (queued.uploads.map uploadInterval) i ↔ DeltaWrites writes i
  bytes : ∀ base, ∀ range ∈ queued.uploads, ∀ i, Uploads range i →
    range.data.getD (i - range.dstOffset) 0 = overlay base writes i
  copies : ∀ previous, input.previous = some previous → ∀ i,
    Intervals.Covers (queued.copies.map copyInterval) i
      ↔ Intervals.Covers (missingBytes input previous allocated backing usedBytes) i
        ∧ ¬ DeltaWrites writes i
  whole : input.previous = none → ∀ i < usedBytes, DeltaWrites writes i

theorem batch_spec {input : PredecessorInput} {allocated : Bool} {backing : Backing}
    {usedBytes : Nat} {writes : List DeltaWrite} {queued : Queued}
    (hin : ∀ write ∈ writes, write.offset + write.data.length ≤ usedBytes)
    (h : batch input allocated backing usedBytes writes = .ok queued) :
    BatchOf input allocated backing usedBytes writes queued := by
  obtain ⟨hord, hcov, hpair, hne, hup, hbyte⟩ := resolveDelta_spec writes
  have hused : ∀ i, DeltaWrites writes i → i < usedBytes := by
    rintro i ⟨write, hwrite, -, hi⟩
    have := hin write hwrite
    omega
  -- the sort only permutes the uploads
  have hperm := List.perm_insertionSort (fun a b : StreamingUploadRange => a.dstOffset ≤ b.dstOffset)
    (resolveDelta writes).2
  have hmap := hperm.map uploadInterval
  have hcov' : ∀ i, Intervals.Covers (((resolveDelta writes).2.insertionSort
      fun a b => a.dstOffset ≤ b.dstOffset).map uploadInterval) i ↔ DeltaWrites writes i := by
    intro i
    rw [← hup]
    simp only [Intervals.Covers, hmap.mem_iff]
  have hpair' := hmap.symm.pairwise hpair fun h => Intervals.Disjoint.symm h
  have hne' : ∀ range ∈ ((resolveDelta writes).2.insertionSort
      fun a b => a.dstOffset ≤ b.dstOffset).map uploadInterval, range.lo < range.hi :=
    fun range hrange => hne range (hmap.mem_iff.mp hrange)
  have hlast : ∀ range : HalfOpen, range.lo < range.hi →
      (∀ i, range.lo ≤ i → i < range.hi → i < usedBytes) → range.hi ≤ usedBytes := by
    intro range hne h
    have := h (range.hi - 1) (by omega) (by omega)
    omega
  unfold batch at h
  dsimp only at h
  split at h
  · rename_i previous hprevious
    cases h
    obtain ⟨hmiss, hlimit⟩ := missingBytes_ordered input previous allocated backing usedBytes
    constructor
    · rw [Queued.ranges_eq, List.pairwise_append]
      refine ⟨copyRanges_disjoint hmiss hord, hpair', fun p hp q hq i h₁ h₂ h₃ h₄ => ?_⟩
      have hc := (covers_copyRanges hord).mp ⟨p, hp, h₁, h₂⟩
      exact hc.2 ((hcov i).mpr ((hcov' i).mp ⟨q, hq, h₃, h₄⟩))
    · intro range hrange
      rcases List.mem_append.mp hrange with hrange | hrange
      · have hne := copyRanges_nonempty hord range hrange
        refine ⟨hne, hlast range hne fun i h₁ h₂ => ?_⟩
        have := hlimit i ((covers_copyRanges hord).mp ⟨range, hrange, h₁, h₂⟩).1
        omega
      · exact ⟨hne' range hrange, hlast range (hne' range hrange) fun i h₁ h₂ =>
          hused i ((hcov' i).mp ⟨range, hrange, h₁, h₂⟩)⟩
    · exact hcov'
    · exact fun base range hrange => hbyte base range (hperm.mem_iff.mp hrange)
    · intro previous' hprevious' i
      obtain rfl : previous = previous' := by simpa [hprevious] using hprevious'
      rw [covers_copyRanges hord, hcov]
    · intro hnone
      rw [hprevious] at hnone
      cases hnone
  · rename_i hnone
    split at h
    · cases h
    · rename_i hwhole
      cases h
      constructor
      · simpa [Queued.ranges_eq] using hpair'
      · intro range hrange
        have hmem : range ∈ ((resolveDelta writes).2.insertionSort
            fun a b => a.dstOffset ≤ b.dstOffset).map uploadInterval := by
          simpa [Queued.ranges_eq] using hrange
        exact ⟨hne' range hmem, hlast range (hne' range hmem) fun i h₁ h₂ =>
          hused i ((hcov' i).mp ⟨range, hmem, h₁, h₂⟩)⟩
      · exact hcov'
      · exact fun base range hrange => hbyte base range (hperm.mem_iff.mp hrange)
      · intro previous hprevious
        rw [hnone] at hprevious
        cases hprevious
      · intro _ i hi
        push Not at hwhole
        rw [← hcov, hwhole (by omega)]
        exact covers_cons.mpr (.inl ⟨Nat.zero_le i, hi⟩)

/-- **A batch gives the right bytes.** Below both used sizes, and wherever the delta writes, the
backing ends at the predecessor's bytes overlaid by the delta. -/
theorem BatchOf.apply {input : PredecessorInput} {allocated : Bool} {backing : Backing}
    {usedBytes i : Nat} {writes : List DeltaWrite} {queued : Queued} {previousBytes : Nat → Byte}
    (h : BatchOf input allocated backing usedBytes writes queued)
    (hheld : ∀ previous, input.previous = some previous → allocated = false →
      ChangesCovered input previous previousBytes backing)
    (hi : (∃ previous, input.previous = some previous ∧ i < min previous.usedBytes usedBytes)
      ∨ DeltaWrites writes i) :
    queued.apply previousBytes backing.contents i = overlay previousBytes writes i := by
  rw [Queued.apply_spec fun range hrange => h.bytes previousBytes range hrange i]
  by_cases hwrites : DeltaWrites writes i
  · rw [if_pos ((h.uploads i).mpr hwrites)]
  · rw [if_neg (mt (h.uploads i).mp hwrites), overlay_of_not hwrites]
    obtain ⟨previous, hprevious, hlt⟩ := hi.resolve_right hwrites
    by_cases hmiss : Intervals.Covers (missingBytes input previous allocated backing usedBytes) i
    · rw [if_pos ((h.copies previous hprevious i).mpr ⟨hmiss, hwrites⟩)]
    · rw [if_neg fun hc => hmiss ((h.copies previous hprevious i).mp hc).1]
      exact eq_of_not_missing (hheld previous hprevious) hlt hmiss

/-! ## The build -/

/-- A build into a leased backing that reports `Ready` queued the batch of what its delta sent, and
touched nothing of the backing's memory. -/
theorem predecessorInto_ready {input : PredecessorInput} {context : PredecessorContext}
    {choice : ClassChoice} {emitDelta : Except String (List DeltaWrite)} {allocated : Bool}
    {leased backing : Backing} {queued : Queued} {outcome : VersionedBufferBuildOutcome}
    (h : predecessorInto input context choice emitDelta allocated leased
      = (backing, queued, outcome))
    (hready : outcome.kind = .ready) :
    ∃ emitted writes, emitDelta = .ok emitted
      ∧ deltaWrites (input.elementCount * input.elementStride) emitted = some writes
      ∧ batch input allocated leased (input.elementCount * input.elementStride) writes = .ok queued
      ∧ backing.contents = leased.contents ∧ backing.generation = leased.generation
      ∧ ∃ version, outcome.version = some version ∧ version.backingEpoch = leased.generation := by
  have hfail : ∀ {error : String}, outcome = .fail error → False := by
    rintro error rfl
    cases hready
  have hcancel : outcome = .cancel → False := by
    rintro rfl
    cases hready
  unfold predecessorInto at h
  dsimp only at h
  -- every exit but the last leaves an outcome that is not `Ready`
  iterate 4
    split at h
    · cases h
      exact (hfail rfl).elim
  cases emitDelta with
  | error error =>
    cases h
    exact (hfail rfl).elim
  | ok emitted =>
    dsimp only at h
    split at h
    · cases h
      exact (hfail rfl).elim
    · rename_i writes hwrites
      split at h
      · cases h
        exact (hcancel rfl).elim
      · split at h
        · cases h
          exact (hfail rfl).elim
        · rename_i built hbatch
          split at h
          · cases h
            exact (hcancel rfl).elim
          · split at h
            · cases h
              exact (hfail rfl).elim
            · split at h
              · cases h
                exact (hfail rfl).elim
              · rename_i sent hsent
                have hqueued : sent = built := by
                  unfold enqueue at hsent
                  split at hsent
                  · cases hsent
                  · split at hsent
                    · cases hsent
                    · cases hsent
                      rfl
                subst hqueued
                cases h
                exact ⟨emitted, writes, rfl, hwrites, hbatch, rfl, rfl, _, rfl, rfl⟩

theorem find?_modify_self {pool : BackingSet} {generation : Nat} {f : Backing → Backing}
    {b : Backing} (hf : ∀ b, b.generation = generation → (f b).generation = generation)
    (h : pool.find? generation = some b) :
    (pool.modify generation f).find? generation = some (f b) := by
  have hg := (find?_mem h).2
  unfold BackingSet.find? BackingSet.modify at *
  dsimp only
  have hsame : ((fun b : Backing => b.generation == generation)
      ∘ fun b => if b.generation = generation then f b else b)
      = fun b => b.generation == generation := by
    funext b
    by_cases hb : b.generation = generation <;> simp [hb, hf]
  rw [List.find?_map, hsame, h]
  simp [hg]

/-- A leased backing is not one the pool lets go. -/
theorem find?_release {pool : BackingSet} {generation : Nat} {released : List Nat} {b : Backing}
    (h : pool.find? generation = some b) (hb : b.leases ≠ 0) :
    (pool.release released).find? generation = some b := by
  unfold BackingSet.find? BackingSet.release at *
  dsimp only
  generalize pool.all = all at h
  induction all with
  | nil => cases h
  | cons a all ih =>
    rw [List.find?_cons] at h
    split at h
    · cases h
      rename_i ha
      simp [hb, ha]
    · rename_i ha
      rw [List.filter_cons]
      split
      · rw [List.find?_cons, ha]
        exact ih h
      · exact ih h

/-- The backing `Acquire` leases anew holds what it held. -/
theorem acquire_reuse {pool pool' : BackingSet} {request : BackingRequest} {choice : AcquireChoice}
    {released : List Nat} {generation : Nat} {leased : Backing}
    (h : pool.acquire request choice released = some (pool', .ok (some (generation, false))))
    (hleased : pool'.find? generation = some leased) :
    choice = .reuse generation ∧ ∃ held, pool.find? generation = some held
      ∧ held.contents = leased.contents ∧ held.contentEpoch = leased.contentEpoch := by
  unfold BackingSet.acquire at h
  cases choice with
  | reuse g =>
    dsimp only at h
    split at h
    · cases h
    · rename_i held hheld
      split at h
      · cases h
        refine ⟨rfl, held, hheld, ?_⟩
        have hmod := find?_modify_self (f := fun b => { b with leases := 1 }) (fun _ h => h) hheld
        rw [find?_release hmod Nat.one_ne_zero] at hleased
        cases hleased
        exact ⟨rfl, rfl⟩
      · cases h
  | allocate buffer fill =>
    dsimp only at h
    split at h <;> cases h
  | exhausted => cases h
  | throws error => cases h

/-- **A predecessor copy gives the right bytes.** A build with `predecessorCopy` that reports
`Ready` queued disjoint copies and uploads inside the version's used bytes; applied, they leave
every byte below both used sizes and every byte of the delta at the predecessor's bytes overlaid
by the delta, the later write winning. Without a predecessor the delta is the whole version. -/
theorem buildFromPredecessor_bytes {input : PredecessorInput} {context : PredecessorContext}
    {pool : BackingSet} {choice : AcquireChoice} {released : List Nat} {built : PredecessorBuilt}
    (h : buildFromPredecessor input context pool choice released = some built)
    (hready : built.outcome.kind = .ready) :
    ∃ emitted version backing, input.emitDelta = some (.ok emitted)
      ∧ built.outcome.version = some version
      ∧ built.pool.find? version.backingEpoch = some backing
      ∧ built.queued.ranges.Pairwise Intervals.Disjoint
      ∧ (∀ range ∈ built.queued.ranges,
        range.lo < range.hi ∧ range.hi ≤ input.elementCount * input.elementStride)
      ∧ (input.previous = none →
        ∀ i < input.elementCount * input.elementStride, DeltaWrites emitted i)
      ∧ ∀ previousBytes,
        (∀ previous generation held, input.previous = some previous →
          choice = .reuse generation → pool.find? generation = some held →
          ChangesCovered input previous previousBytes held) →
        ∀ i, (∃ previous, input.previous = some previous
            ∧ i < min previous.usedBytes (input.elementCount * input.elementStride))
            ∨ DeltaWrites emitted i →
          built.queued.apply previousBytes backing.contents i = overlay previousBytes emitted i := by
  unfold buildFromPredecessor at h
  split at h
  · cases h
    cases hready
  · cases h
  · rename_i emitDelta hrefusal hemit
    split at h
    · cases h
      cases hready
    · split at h
      · cases h
        cases hready
      · rename_i cls hcls
        dsimp only at h
        split at h
        · cases h
        · cases h
          cases hready
        · split at h <;> (cases h; cases hready)
        · rename_i pool' generation allocated hacquire
          split at h
          · cases h
          · rename_i leased hleased
            cases h
            rcases hinto : predecessorInto input context cls emitDelta allocated leased with
              ⟨backing, queued, outcome⟩
            rw [hinto] at hready
            dsimp only at hready ⊢
            obtain ⟨emitted, writes, rfl, hwrites, hbatch, hcontents, hgen, version, hversion,
              hepoch⟩ := predecessorInto_ready hinto hready
            obtain ⟨hin, hsame, hoverlay⟩ := deltaWrites_spec hwrites
            have hof := batch_spec hin hbatch
            have hg : leased.generation = generation := by
              simpa [BackingSet.find?] using List.find?_some hleased
            have hfind : (pool'.modify generation fun _ =>
                if outcome.kind = .ready then backing
                else { backing with leases := backing.leases - 1 }).find? version.backingEpoch
                = some backing := by
              rw [hepoch, hg, if_pos hready]
              exact find?_modify_self (fun _ _ => by rw [hgen, hg]) hleased
            refine ⟨emitted, version, backing, hemit, hversion, hfind, hof.disjoint, hof.inside,
              fun hnone i hi => (hsame i).mp (hof.whole hnone i hi), ?_⟩
            intro previousBytes hheld i hi
            rw [hcontents, ← hoverlay previousBytes]
            refine hof.apply (fun previous hprevious hnew => ?_) (hi.imp_right (hsame i).mpr)
            subst hnew
            obtain ⟨hchoice, held, hfound, hbytes, heldEpoch⟩ := acquire_reuse hacquire hleased
            have := hheld previous generation held hprevious hchoice hfound
            unfold ChangesCovered at this ⊢
            rw [← hbytes, ← heldEpoch]
            exact this

/-- A predecessor of four bytes whose second byte changed since the held backing's contents. -/
def patchInput : PredecessorInput :=
  { predecessorCopy := true
    writeSequence := 3
    elementStride := 1
    elementCount := 4
    capacity := 4
    previous := some { revision := 1, writeSequence := 2, elementCount := 4, capacity := 4,
                       elementStride := 1, backingEpoch := 1, resource := true }
    emitDelta := some (.ok [⟨[5, 6], false, 2⟩, ⟨[7], false, 3⟩])
    changedSince := some fun _ => some [⟨1, 1⟩] }

def patchPrevious (i : Nat) : Byte := if i = 1 then 8 else 0

def patchHeld : Backing :=
  { generation := 2, capacityClass := 4, byteCapacity := 4, stride := 1, contentEpoch := 1
    contents := fun _ => 0 }

theorem buildFromPredecessor_bytes_patch :
    ∃ (built : PredecessorBuilt) (emitted : List DeltaWrite) (version : PublishedBufferVersion)
      (backing : Backing),
      buildFromPredecessor patchInput { revision := 2 } { all := [patchHeld], nextGeneration := 3 }
        (.reuse 2) [] = some built
      ∧ patchInput.emitDelta = some (.ok emitted)
      ∧ built.pool.find? version.backingEpoch = some backing
      ∧ ∀ i < 4, built.queued.apply patchPrevious backing.contents i
        = overlay patchPrevious emitted i := by
  obtain ⟨built, hbuilt, hready⟩ : ∃ built, buildFromPredecessor patchInput { revision := 2 }
      { all := [patchHeld], nextGeneration := 3 } (.reuse 2) [] = some built
      ∧ built.outcome.kind = .ready := ⟨_, rfl, rfl⟩
  obtain ⟨emitted, version, backing, hemit, -, hfind, -, -, -, hbytes⟩ :=
    buildFromPredecessor_bytes hbuilt hready
  refine ⟨built, emitted, version, backing, hbuilt, hemit, hfind, fun i hi => ?_⟩
  refine hbytes patchPrevious ?_ i (.inl ⟨_, rfl, hi⟩)
  rintro previous generation held hprevious hchoice hheld - - j - hdiff
  cases hprevious
  cases hchoice
  obtain rfl : patchHeld = held := by
    simpa [BackingSet.find?, patchHeld] using hheld
  refine ⟨by decide, fun changedSince ranges hcall hanswer => ?_⟩
  cases hcall
  cases hanswer
  -- the two contents differ in byte 1 only
  have hj : j = 1 := by
    by_contra hne
    exact hdiff (by simp [patchHeld, patchPrevious, hne])
  exact ⟨⟨1, 1⟩, by simp, by simp [hj], by simp [hj]⟩

end ModuleServices.Proof
