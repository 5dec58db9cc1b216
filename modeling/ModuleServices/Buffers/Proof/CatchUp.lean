import ModuleServices.Buffers.Proof.Upload

/-!
# Catch-up content

A catch-up from a backing at position `a` to a capture at position `b` is right when every
byte in which the two images differ was recorded in between. `Caught` is that statement
for one old image against the journal's current one, and it survives every operation but
one: an append that lengthens the image past bytes it does not write. Such bytes read
zero, are recorded nowhere, and an older capture of at least that length may still show
something else there — a replacement made the image short in the meantime. The condition
`GrowthRecorded` is that no append does this.

Growing past the older image is harmless: the lengths then differ, and a catch-up wants
equal lengths. To come back to the old length the image has to be replaced, and a
replacement records every byte.
-/

namespace ModuleServices.Proof

open ModuleServices BufferImage BufferWorld

/-! ## The journal against its captures -/

/-- Every byte of an older image is recorded since, or still there, or out of a catch-up's
reach because the image is longer now. -/
def Caught (writes : List BufferWrite) (sequence : Nat) (now old : BufferImage) : Prop :=
  ∀ i, i < old.byteSize → Recorded writes sequence i
    ∨ (i < now.byteSize → old.byteSize < now.byteSize ∨ now.byteAt i = old.byteAt i)

/-- What a journal keeps about the captures taken from it. -/
structure CapturesInv (journal : BufferJournal) (captures : List BufferJournal.Capture) :
    Prop where
  wf : JournalWF journal
  image : ∀ c ∈ captures, c.image.WF
  sequence : ∀ c ∈ captures, 0 < c.writeSequence ∧ c.writeSequence ≤ journal.writeSequence
  current : ∀ c ∈ captures, c.writeSequence = journal.writeSequence → c.image = journal.image
  reach : ∀ c ∈ captures, journal.journalBaseSequence ≤ c.writeSequence →
    Caught journal.writes c.writeSequence journal.image c.image
  between : ∀ c ∈ captures, ∀ d ∈ captures, d.journalBaseSequence ≤ c.writeSequence →
    c.writeSequence ≤ d.writeSequence → c.image.byteSize = d.image.byteSize →
    ∀ i, i < d.image.byteSize →
      Recorded d.writes c.writeSequence i ∨ d.image.byteAt i = c.image.byteAt i

theorem recorded_append {writes : List BufferWrite} {write : BufferWrite} {sequence i : Nat}
    (h : Recorded writes sequence i) : Recorded (writes ++ [write]) sequence i := by
  obtain ⟨w, hmem, hw⟩ := h
  exact ⟨w, List.mem_append_left _ hmem, hw⟩

theorem recorded_last {writes : List BufferWrite} {write : BufferWrite} {sequence i : Nat}
    (hseq : sequence < write.sequence) (h : Covers write i) :
    Recorded (writes ++ [write]) sequence i :=
  ⟨write, List.mem_append_right _ List.mem_cons_self, hseq, h⟩

/-- The bytes an append brings in and does not cover are accounted for. -/
def GapRecorded (journal journal' : BufferJournal) (write : BufferWrite)
    (captures : List BufferJournal.Capture) : Prop :=
  ∀ c ∈ captures, journal.journalBaseSequence ≤ c.writeSequence →
    journal'.byteSize ≤ c.image.byteSize →
    ∀ i, journal.byteSize ≤ i → i < journal'.byteSize → ¬Covers write i →
      c.image.byteAt i = 0 ∨ Recorded journal.writes c.writeSequence i

/-- One recorded write keeps what the journal owes its captures. -/
theorem capturesInv_advance {journal journal' : BufferJournal} {write : BufferWrite}
    {captures : List BufferJournal.Capture} (h : CapturesInv journal captures)
    (hadv : Advances journal journal' write)
    (hgap : GapRecorded journal journal' write captures) : CapturesInv journal' captures := by
  refine ⟨hadv.wf, h.image, fun c hc => ?_, fun c hc heq => ?_, fun c hc hbase => ?_, h.between⟩
  · have := h.sequence c hc
    rw [hadv.sequence]
    omega
  · have := h.sequence c hc
    rw [hadv.sequence] at heq
    omega
  · intro i hi
    have hseq : c.writeSequence < write.sequence := by
      have := h.sequence c hc
      rw [hadv.recorded]
      omega
    rw [hadv.writes]
    by_cases hcov : Covers write i
    · exact .inl (recorded_last hseq hcov)
    rcases hadv.bytes with hwhole | ⟨hgrow, hsame⟩
    · exact .inr fun hi' => absurd (hwhole i hi') hcov
    · rw [hadv.base] at hbase
      rcases h.reach c hc hbase i hi with hrec | hold
      · exact .inl (recorded_append hrec)
      rcases Nat.lt_or_ge i journal.byteSize with hin | hout
      · -- the byte was in the image already
        right
        intro hi'
        rcases hold hin with hlong | heq
        · exact .inl (Nat.lt_of_lt_of_le hlong hgrow)
        · exact .inr ((hsame i hcov).trans heq)
      · -- the byte comes in with this write, and reads zero
        rcases Nat.lt_or_ge i journal'.byteSize with hin' | hout'
        · rcases Nat.lt_or_ge c.image.byteSize journal'.byteSize with hlong | hshort
          · exact .inr fun _ => .inl hlong
          · rcases hgap c hc hbase hshort i hout hin' hcov with hzero | hrec
            · right
              intro _
              right
              rw [hsame i hcov, byteAt_ge h.wf.image hout, hzero]
            · exact .inl (recorded_append hrec)
        · exact .inr fun hi' => absurd hi' (Nat.not_lt.mpr hout')

/-- A write that covers what it brings in has no gap to account for. -/
theorem gapRecorded_of_covers {journal journal' : BufferJournal} {write : BufferWrite}
    {captures : List BufferJournal.Capture}
    (h : ∀ i, journal.byteSize ≤ i → i < journal'.byteSize → Covers write i) :
    GapRecorded journal journal' write captures :=
  fun _ _ _ _ i hlo hhi hnot => absurd (h i hlo hhi) hnot

/-- Taking a capture. -/
theorem capturesInv_capture {journal : BufferJournal} {captures : List BufferJournal.Capture}
    (h : CapturesInv journal captures) :
    CapturesInv journal (captures ++ [journal.captureDesired]) := by
  have hsplit : ∀ c, c ∈ captures ++ [journal.captureDesired] →
      c ∈ captures ∨ c = journal.captureDesired := by
    intro c hc
    rcases List.mem_append.mp hc with hc | hc
    · exact .inl hc
    · exact .inr (List.mem_singleton.mp hc)
  refine ⟨h.wf, fun c hc => ?_, fun c hc => ?_, fun c hc heq => ?_, fun c hc hbase => ?_,
    fun c hc d hd hbase hle hsize i hi => ?_⟩
  · rcases hsplit c hc with hc | rfl
    · exact h.image c hc
    · exact h.wf.image
  · rcases hsplit c hc with hc | rfl
    · exact h.sequence c hc
    · exact ⟨h.wf.sequence, Nat.le_refl _⟩
  · rcases hsplit c hc with hc | rfl
    · exact h.current c hc heq
    · rfl
  · rcases hsplit c hc with hc | rfl
    · exact h.reach c hc hbase
    · exact fun i _ => .inr fun _ => .inr rfl
  · rcases hsplit d hd with hd | rfl
    · rcases hsplit c hc with hc | rfl
      · exact h.between c hc d hd hbase hle hsize i hi
      · -- the older capture was taken at this very position
        have hseq : d.writeSequence = journal.writeSequence :=
          Nat.le_antisymm (h.sequence d hd).2 hle
        right
        rw [h.current d hd hseq]
        rfl
    · rcases hsplit c hc with hc | rfl
      · have hsz : c.image.byteSize = journal.image.byteSize := hsize
        rcases h.reach c hc hbase i (by rw [hsz]; exact hi) with hrec | hnow
        · exact .inl hrec
        · rcases hnow hi with hlong | heq
          · rw [hsz] at hlong
            exact absurd hlong (Nat.lt_irrefl _)
          · exact .inr heq
      · exact .inr rfl

/-- `Acknowledge` raises the base and drops only the writes at or below it. -/
theorem capturesInv_acknowledge {journal : BufferJournal}
    {captures : List BufferJournal.Capture} (h : CapturesInv journal captures)
    (version : Option PublishedBufferVersion) (floor : Option Nat) :
    CapturesInv (journal.acknowledge version floor) captures := by
  unfold BufferJournal.acknowledge
  split
  · exact h
  · split
    · exact h
    · refine ⟨⟨h.wf.stride, h.wf.sequence, h.wf.size, h.wf.image⟩, h.image, h.sequence,
        h.current, fun c hc hbase i hi => ?_, h.between⟩
      simp only at hbase ⊢
      rcases h.reach c hc (by omega) i hi with ⟨write, hmem, hseq, hcov⟩ | hnow
      · refine .inl ⟨write, List.mem_filter.mpr ⟨hmem, ?_⟩, hseq, hcov⟩
        rw [decide_eq_false (by omega)]
        rfl
      · exact .inr hnow

/-! ## The pool against the captures -/

/-- A backing's memory shows an image. -/
def Holds (backing : Backing) (image : BufferImage) : Prop :=
  ∀ i, i < image.byteSize → backing.contents i = image.byteAt i

/-- A backing that claims a position holds the image of a capture at that position. -/
def Honest (captures : List BufferJournal.Capture) (backing : Backing) : Prop :=
  backing.contentEpoch ≠ 0 → ∃ c ∈ captures, c.writeSequence = backing.contentEpoch
    ∧ backing.image = some c.image ∧ Holds backing c.image

structure PoolInv (captures : List BufferJournal.Capture) (pool : BackingSet) : Prop where
  distinct : pool.all.Pairwise fun a b => a.generation ≠ b.generation
  fresh : ∀ b ∈ pool.all, b.generation < pool.nextGeneration
  honest : ∀ b ∈ pool.all, Honest captures b

/-- Every version still held leases a backing of its own that shows its capture's image. -/
structure VersionsInv (captures : List BufferJournal.Capture) (pool : BackingSet)
    (versions : List (PublishedBufferVersion × BufferJournal.Capture)) : Prop where
  apart : (versions.map fun v => v.1.backingEpoch).Nodup
  leased : ∀ v ∈ versions, v.2 ∈ captures ∧ ∃ b ∈ pool.all, b.generation = v.1.backingEpoch
    ∧ 0 < b.leases ∧ Holds b v.2.image

theorem honest_mono {captures captures' : List BufferJournal.Capture} {b : Backing}
    (hsub : ∀ c ∈ captures, c ∈ captures') (h : Honest captures b) : Honest captures' b := by
  intro hne
  obtain ⟨c, hc, hrest⟩ := h hne
  exact ⟨c, hsub c hc, hrest⟩

theorem find?_eq_some {captures : List BufferJournal.Capture} {pool : BackingSet}
    (h : PoolInv captures pool) {generation : Nat} {b : Backing} (hb : b ∈ pool.all)
    (hg : b.generation = generation) : pool.find? generation = some b := by
  unfold BackingSet.find?
  have hdistinct := h.distinct
  revert hb hdistinct
  generalize pool.all = all
  intro hb hdistinct
  induction all with
  | nil => cases hb
  | cons a all ih =>
    obtain ⟨ha, hall⟩ := List.pairwise_cons.mp hdistinct
    rw [List.find?_cons]
    rcases List.mem_cons.mp hb with rfl | hb
    · simp [hg]
    · have hne : (a.generation == generation) = false := by
        rw [beq_eq_false_iff_ne, ← hg]
        exact ha b hb
      rw [hne]
      exact ih hb hall

theorem find?_mem {pool : BackingSet} {generation : Nat} {b : Backing}
    (h : pool.find? generation = some b) : b ∈ pool.all ∧ b.generation = generation :=
  ⟨List.mem_of_find?_eq_some h, by simpa using List.find?_some h⟩

theorem mem_modify {pool : BackingSet} {generation : Nat} {f : Backing → Backing} {b : Backing} :
    b ∈ (pool.modify generation f).all ↔
      ∃ a ∈ pool.all, b = if a.generation = generation then f a else a := by
  simp only [BackingSet.modify, List.mem_map, eq_comm]

/-- Changing one backing in place. -/
theorem poolInv_modify {captures : List BufferJournal.Capture} {pool : BackingSet}
    (h : PoolInv captures pool) {generation : Nat} {f : Backing → Backing}
    (hgen : ∀ b ∈ pool.all, b.generation = generation → (f b).generation = generation)
    (hhonest : ∀ b ∈ pool.all, b.generation = generation → Honest captures (f b)) :
    PoolInv captures (pool.modify generation f) := by
  have hkeep : ∀ a ∈ pool.all,
      (if a.generation = generation then f a else a).generation = a.generation := by
    intro a ha
    split
    · rename_i hg
      rw [hgen a ha hg, hg]
    · rfl
  refine ⟨?_, fun b hb => ?_, fun b hb => ?_⟩
  · refine List.pairwise_map.mpr (h.distinct.imp_of_mem fun ha hb hne => ?_)
    rw [hkeep _ ha, hkeep _ hb]
    exact hne
  · obtain ⟨a, ha, rfl⟩ := mem_modify.mp hb
    rw [hkeep a ha]
    exact h.fresh a ha
  · obtain ⟨a, ha, rfl⟩ := mem_modify.mp hb
    split
    · exact hhonest a ha (by assumption)
    · exact h.honest a ha

theorem poolInv_release {captures : List BufferJournal.Capture} {pool : BackingSet}
    (h : PoolInv captures pool) (released : List Nat) :
    PoolInv captures (pool.release released) :=
  ⟨h.distinct.sublist List.filter_sublist,
    fun b hb => h.fresh b (List.mem_of_mem_filter hb),
    fun b hb => h.honest b (List.mem_of_mem_filter hb)⟩

/-- A leased backing stays through a release. -/
theorem mem_release {pool : BackingSet} {released : List Nat} {b : Backing}
    (hb : b ∈ pool.all) (hl : 0 < b.leases) : b ∈ (pool.release released).all := by
  refine List.mem_filter.mpr ⟨hb, ?_⟩
  have : (b.leases == 0) = false := by
    rw [beq_eq_false_iff_ne]
    omega
  rw [this]
  rfl

/-! ## Acquire -/

/-- What `Acquire` hands out: a backing nobody leased, holding what it claims, and the leased
backings of everyone else. -/
structure Acquired (pool pool' : BackingSet) (generation : Nat) (allocated : Bool)
    (captures : List BufferJournal.Capture) : Prop where
  inv : PoolInv captures pool'
  others : ∀ b ∈ pool.all, 0 < b.leases → b ∈ pool'.all ∧ b.generation ≠ generation
  free : allocated = true → ∀ b ∈ pool'.all, b.generation = generation → b.contentEpoch = 0
  leased : ∀ b ∈ pool'.all, b.generation = generation → b.leases = 1

theorem acquire_spec {captures : List BufferJournal.Capture} {pool pool' : BackingSet}
    {request : BackingRequest} {choice : AcquireChoice} {released : List Nat}
    {result : Except String (Option (Nat × Bool))} (h : PoolInv captures pool)
    (hacq : pool.acquire request choice released = some (pool', result)) :
    (∃ generation allocated, result = .ok (some (generation, allocated))
      ∧ Acquired pool pool' generation allocated captures)
      ∨ ((∀ leased, result ≠ .ok (some leased)) ∧ pool' = pool.release released) := by
  cases choice with
  | reuse generation =>
    simp only [BackingSet.acquire] at hacq
    split at hacq
    · cases hacq
    rename_i b hfind
    split at hacq
    · rename_i hreuse
      cases hacq
      obtain ⟨hb, hbg⟩ := find?_mem hfind
      have hfree : b.leases = 0 := by
        simp only [BackingSet.reusable, Bool.and_eq_true, beq_iff_eq] at hreuse
        exact hreuse.1.1.1.1
      have hunique : ∀ a ∈ pool.all, a.generation = generation → a = b := by
        intro a ha hag
        have := find?_eq_some h ha hag
        rw [hfind] at this
        exact (Option.some.inj this).symm
      refine .inl ⟨generation, false, rfl, ⟨?_, fun a ha hl => ?_, fun he => ?_, fun a ha hag => ?_⟩⟩
      · refine poolInv_release (poolInv_modify h ?_ ?_) _
        · exact fun _ _ hg => hg
        · exact fun a ha _ => h.honest a ha
      · have hne : a.generation ≠ generation := by
          intro hag
          rw [hunique a ha hag] at hl
          omega
        exact ⟨mem_release (mem_modify.mpr ⟨a, ha, (if_neg hne).symm⟩) hl, hne⟩
      · cases he
      · obtain ⟨a', ha', rfl⟩ := mem_modify.mp (List.mem_of_mem_filter ha)
        split
        · rfl
        · rename_i hne
          rw [if_neg hne] at hag
          exact absurd hag hne
    · cases hacq
  | allocate buffer fill =>
    simp only [BackingSet.acquire] at hacq
    split at hacq
    · cases hacq
    cases hacq
    have hrel := poolInv_release h released
    refine .inl ⟨_, true, rfl, ⟨⟨?_, fun b hb => ?_, fun b hb => ?_⟩, fun b hb hl => ?_,
      fun _ b hb hg => ?_, fun b hb hg => ?_⟩⟩
    · refine List.pairwise_append.mpr ⟨hrel.distinct, List.pairwise_singleton _ _, ?_⟩
      intro a ha b hb
      rw [List.mem_singleton.mp hb]
      exact Nat.ne_of_lt (hrel.fresh a ha)
    · rcases List.mem_append.mp hb with hb | hb
      · exact Nat.lt_succ_of_lt (hrel.fresh b hb)
      · rw [List.mem_singleton.mp hb]
        exact Nat.lt_succ_self _
    · rcases List.mem_append.mp hb with hb | hb
      · exact hrel.honest b hb
      · rw [List.mem_singleton.mp hb]
        exact fun hne => absurd rfl hne
    · exact ⟨List.mem_append_left _ (mem_release hb hl), Nat.ne_of_lt (h.fresh b hb)⟩
    · rcases List.mem_append.mp hb with hb | hb
      · exact absurd hg (Nat.ne_of_lt (hrel.fresh b hb))
      · rw [List.mem_singleton.mp hb]
    · rcases List.mem_append.mp hb with hb | hb
      · exact absurd hg (Nat.ne_of_lt (hrel.fresh b hb))
      · rw [List.mem_singleton.mp hb]
  | exhausted =>
    cases hacq
    exact .inr ⟨fun _ he => (by cases he), rfl⟩
  | throws error =>
    cases hacq
    exact .inr ⟨fun _ he => (by cases he), rfl⟩

/-! ## Building a capture -/

/-- The input of a build of a capture: the capture's image and writes, on the plain path. -/
structure PlainInput (input : VersionedBufferBuildInput) (capture : BufferJournal.Capture) :
    Prop where
  image : input.image = some capture.image
  writes : input.writes = capture.writes
  sequence : input.writeSequence = capture.writeSequence
  base : input.journalBaseSequence = capture.journalBaseSequence
  gpuWritten : input.gpuWritten = false
  flags : (input.flags.unorderedAccess && input.flags.indirectArguments) = false

theorem PlainInput.needs {input : VersionedBufferBuildInput} {capture : BufferJournal.Capture}
    (h : PlainInput input capture) : needsInitialContent input = true := by
  unfold needsInitialContent
  rw [h.gpuWritten, h.flags]
  rfl

/-- The build published the capture's image in its backing. -/
structure Publishes (capture : BufferJournal.Capture) (backing backing' : Backing)
    (outcome : VersionedBufferBuildOutcome) : Prop where
  ready : outcome.kind = .ready
  version : ∃ v, outcome.version = some v ∧ v.backingEpoch = backing.generation
  epoch : backing'.contentEpoch = capture.writeSequence
  image : backing'.image = some capture.image
  holds : Holds backing' capture.image

/-- The build published nothing, and its backing holds what it held or nothing. -/
structure Abandons (backing backing' : Backing) (outcome : VersionedBufferBuildOutcome) :
    Prop where
  notReady : outcome.kind ≠ .ready
  version : outcome.version = none
  left : backing' = backing ∨ backing'.contentEpoch = 0

theorem buildInto_spec {input : VersionedBufferBuildInput} {capture : BufferJournal.Capture}
    {context : VersionedBufferBuildContext} {choice : ClassChoice} {allocated : Bool}
    {backing backing' : Backing} {outcome : VersionedBufferBuildOutcome}
    (hin : PlainInput input capture) (hwf : capture.image.WF)
    (hheld : journalCoversBacking input capture.image backing allocated = true →
      ∀ i, i < capture.image.byteSize → Recorded input.writes backing.contentEpoch i
        ∨ capture.image.byteAt i = backing.contents i)
    (h : buildInto input context choice allocated backing = (backing', outcome)) :
    SameBacking backing backing'
      ∧ (Publishes capture backing backing' outcome ∨ Abandons backing backing' outcome) := by
  have himage : buildImage input = .ok (some capture.image) := by
    unfold buildImage
    rw [hin.image]
  unfold buildInto at h
  rw [himage] at h
  simp only at h
  have hkeep : ∀ o : VersionedBufferBuildOutcome, o.kind ≠ .ready → o.version = none →
      (backing, o) = (backing', outcome) → SameBacking backing backing'
        ∧ (Publishes capture backing backing' outcome ∨ Abandons backing backing' outcome) := by
    intro o hk hv he
    cases he
    exact ⟨⟨rfl, rfl⟩, .inr ⟨hk, hv, .inl rfl⟩⟩
  split at h
  · exact hkeep _ (fun hk => by cases hk) rfl h
  split at h
  · exact hkeep _ (fun hk => by cases hk) rfl h
  split at h
  · exact hkeep _ (fun hk => by cases hk) rfl h
  split at h
  · rename_i filled error hfill
    obtain ⟨hsame, _, hfailed⟩ := fill_spec hwf hin.gpuWritten hin.needs hheld hfill
    cases h
    exact ⟨hsame, .inr ⟨fun hk => (by cases hk), rfl, .inr (hfailed (Option.some_ne_none _))⟩⟩
  · rename_i filled hfill
    obtain ⟨hsame, hready, _⟩ := fill_spec hwf hin.gpuWritten hin.needs hheld hfill
    cases h
    obtain ⟨hepoch, hfilled, hbytes⟩ := hready rfl
    exact ⟨hsame, .inl ⟨rfl, ⟨_, rfl, hsame.generation⟩, hepoch.trans hin.sequence, hfilled,
      hbytes⟩⟩

/-- A backing that claims a position the journal reaches back to differs from a capture only in
recorded bytes. -/
theorem held_of_between {journal : BufferJournal} {captures : List BufferJournal.Capture}
    {input : VersionedBufferBuildInput} {capture : BufferJournal.Capture} {backing : Backing}
    {allocated : Bool} (hcap : CapturesInv journal captures) (hmem : capture ∈ captures)
    (hin : PlainInput input capture) (hhonest : Honest captures backing)
    (hcov : journalCoversBacking input capture.image backing allocated = true) :
    ∀ i, i < capture.image.byteSize → Recorded input.writes backing.contentEpoch i
      ∨ capture.image.byteAt i = backing.contents i := by
  unfold journalCoversBacking at hcov
  simp only [Bool.and_eq_true, bne_iff_ne, ne_eq, decide_eq_true_eq] at hcov
  obtain ⟨⟨⟨⟨_, hne⟩, hbase⟩, hle⟩, himage⟩ := hcov
  obtain ⟨c, hc, hseq, hci, hholds⟩ := hhonest hne
  rw [hci] at himage
  have hsize : c.image.byteSize = capture.image.byteSize := by simpa using himage
  intro i hi
  rw [hin.base, ← hseq] at hbase
  rw [hin.sequence, ← hseq] at hle
  rcases hcap.between c hc capture hmem hbase hle hsize i hi with hrec | heq
  · left
    rw [hin.writes, ← hseq]
    exact hrec
  · exact .inr (heq.trans (hholds i (by rw [hsize]; exact hi)).symm)

/-- The versions survive a change of the pool that keeps their leased backings. -/
theorem versionsInv_mono {captures captures' : List BufferJournal.Capture}
    {pool pool' : BackingSet} {versions : List (PublishedBufferVersion × BufferJournal.Capture)}
    (h : VersionsInv captures pool versions) (hsub : ∀ c ∈ captures, c ∈ captures')
    (hkeep : ∀ b ∈ pool.all, 0 < b.leases → b ∈ pool'.all) :
    VersionsInv captures' pool' versions := by
  refine ⟨h.apart, fun v hv => ?_⟩
  obtain ⟨hc, b, hb, hg, hl, hh⟩ := h.leased v hv
  exact ⟨hsub _ hc, b, hkeep b hb hl, hg, hl, hh⟩

/-- **A build keeps the pool honest**, and a version it reports ready shows its capture. -/
theorem buildVersionedBuffer_spec {journal : BufferJournal}
    {captures : List BufferJournal.Capture} {input : VersionedBufferBuildInput}
    {capture : BufferJournal.Capture} {context : VersionedBufferBuildContext}
    {pool pool' : BackingSet} {choice : AcquireChoice} {released : List Nat}
    {outcome : VersionedBufferBuildOutcome}
    {versions : List (PublishedBufferVersion × BufferJournal.Capture)}
    (hcap : CapturesInv journal captures) (hmem : capture ∈ captures)
    (hin : PlainInput input capture) (hpool : PoolInv captures pool)
    (hver : VersionsInv captures pool versions)
    (h : buildVersionedBuffer input context pool choice released = some (pool', outcome)) :
    PoolInv captures pool' ∧ VersionsInv captures pool'
      (versions ++ outcome.version.toList.map fun version => (version, capture)) := by
  have hnone : ∀ p, PoolInv captures p → (∀ b ∈ pool.all, 0 < b.leases → b ∈ p.all) →
      ∀ o : VersionedBufferBuildOutcome, o.version = none → PoolInv captures p
        ∧ VersionsInv captures p (versions ++ o.version.toList.map fun v => (v, capture)) := by
    intro p hp hkeep o ho
    rw [ho]
    simp only [Option.toList_none, List.map_nil, List.append_nil]
    exact ⟨hp, versionsInv_mono hver (fun _ hc => hc) hkeep⟩
  unfold buildVersionedBuffer at h
  split at h
  · cases h
    exact hnone _ hpool (fun _ hb _ => hb) _ rfl
  split at h
  · cases h
    exact hnone _ hpool (fun _ hb _ => hb) _ rfl
  split at h
  · cases h
    exact hnone _ hpool (fun _ hb _ => hb) _ rfl
  split at h
  · cases h
    exact hnone _ hpool (fun _ hb _ => hb) _ rfl
  rename_i cls _
  simp only at h
  split at h
  · cases h
  · rename_i p error hacq
    cases h
    rcases acquire_spec hpool hacq with ⟨_, _, he, _⟩ | ⟨_, rfl⟩
    · cases he
    · exact hnone _ (poolInv_release hpool _) (fun _ hb hl => mem_release hb hl) _ rfl
  · rename_i p hacq
    rcases acquire_spec hpool hacq with ⟨_, _, he, _⟩ | ⟨_, rfl⟩
    · cases he
    · split at h
      · cases h
        exact hnone _ (poolInv_release hpool _) (fun _ hb hl => mem_release hb hl) _ rfl
      · cases h
        exact hnone _ (poolInv_release hpool _) (fun _ hb hl => mem_release hb hl) _ rfl
  · rename_i p generation allocated hacq
    rcases acquire_spec hpool hacq with ⟨_, _, he, hacq⟩ | ⟨hno, _⟩
    swap
    · exact absurd rfl (hno _)
    cases he
    split at h
    · cases h
    rename_i leased hfind
    obtain ⟨hleased, hgen⟩ := find?_mem hfind
    rcases hbuilt : buildInto input context cls allocated leased with ⟨backing, result⟩
    rw [hbuilt] at h
    obtain ⟨hsame, hcases⟩ := buildInto_spec hin (hcap.image _ hmem)
      (fun hcov => held_of_between hcap hmem hin (hacq.inv.honest _ hleased) hcov) hbuilt
    cases h
    have hone : leased.leases = 1 := hacq.leased _ hleased hgen
    have hunique : ∀ b ∈ p.all, b.generation = generation → b = leased := by
      intro b hb hbg
      have := find?_eq_some hacq.inv hb hbg
      rw [hfind] at this
      exact (Option.some.inj this).symm
    rcases hcases with ⟨hkind, ⟨v, hv, hvg⟩, hepoch, himage, hholds⟩ | ⟨hkind, hv, hback⟩
    · simp only [hkind, hv, if_true]
      have hinv : PoolInv captures (p.modify generation fun _ => backing) := by
        refine poolInv_modify hacq.inv (fun _ _ _ => hsame.generation.trans hgen) fun _ _ _ _ => ?_
        exact ⟨capture, hmem, hepoch.symm, himage, hholds⟩
      have hothers : ∀ b ∈ pool.all, 0 < b.leases →
          b ∈ (p.modify generation fun _ => backing).all ∧ b.generation ≠ generation := by
        intro b hb hl
        obtain ⟨hb', hne⟩ := hacq.others b hb hl
        exact ⟨mem_modify.mpr ⟨b, hb', (if_neg hne).symm⟩, hne⟩
      have hold := versionsInv_mono hver (fun _ hc => hc) fun b hb hl => (hothers b hb hl).1
      refine ⟨hinv, ⟨?_, fun u hu => ?_⟩⟩
      · simp only [Option.toList_some, List.map_cons, List.map_nil, List.map_append]
        refine List.nodup_append.mpr ⟨hver.apart, List.nodup_singleton _, ?_⟩
        intro g hg g' hg' heq
        obtain ⟨u, hu, rfl⟩ := List.mem_map.mp hg
        obtain ⟨_, b, hb, hbg, hl, _⟩ := hver.leased u hu
        rw [List.mem_singleton.mp hg', hvg, hgen, ← hbg] at heq
        exact (hothers b hb hl).2 heq
      · rcases List.mem_append.mp hu with hu | hu
        · exact hold.leased u hu
        · simp only [Option.toList_some, List.map_cons, List.map_nil, List.mem_singleton] at hu
          subst hu
          refine ⟨hmem, backing, mem_modify.mpr ⟨leased, hleased, (if_pos hgen).symm⟩,
            hsame.generation.trans hvg.symm, ?_, hholds⟩
          rw [hsame.leases, hone]
          exact Nat.one_pos
    · simp only [hkind, if_false]
      refine hnone _ (poolInv_modify hacq.inv ?_ ?_) ?_ _ hv
      · exact fun _ _ _ => hsame.generation.trans hgen
      · intro _ _ _ hne
        rcases hback with heq | hzero
        · rw [heq] at hne ⊢
          exact hacq.inv.honest leased hleased hne
        · exact absurd hzero hne
      · intro b hb hl
        obtain ⟨hb', hne⟩ := hacq.others b hb hl
        exact mem_modify.mpr ⟨b, hb', (if_neg hne).symm⟩

/-! ## The world -/

/-- What every call keeps, as long as no append leaves a gap unrecorded. -/
structure WorldInv (w : BufferWorld) : Prop where
  captures : CapturesInv w.journal w.captures
  pool : PoolInv w.captures w.pool
  versions : VersionsInv w.captures w.pool w.versions

/-- Versions lease distinct backings, so what is left after dropping one leases others. -/
theorem epoch_ne_of_mem_eraseIdx
    {versions : List (PublishedBufferVersion × BufferJournal.Capture)}
    (h : (versions.map fun v => v.1.backingEpoch).Nodup) :
    ∀ {index : Nat} {held v : PublishedBufferVersion × BufferJournal.Capture},
      versions[index]? = some held → v ∈ versions.eraseIdx index →
      v.1.backingEpoch ≠ held.1.backingEpoch := by
  induction versions with
  | nil =>
    intro index held v hheld _
    simp at hheld
  | cons u versions ih =>
    obtain ⟨hu, hrest⟩ := List.nodup_cons.mp h
    intro index held v hheld hv
    cases index with
    | zero =>
      cases hheld
      intro heq
      exact hu (List.mem_map.mpr ⟨v, hv, heq⟩)
    | succ index =>
      rw [List.getElem?_cons_succ] at hheld
      rw [List.eraseIdx_cons_succ] at hv
      rcases List.mem_cons.mp hv with rfl | hv
      · intro heq
        exact hu (List.mem_map.mpr ⟨held, List.mem_of_getElem? hheld, heq.symm⟩)
      · exact ih hrest hheld hv

theorem worldInv_start {journal : BufferJournal} (h : JournalWF journal) :
    WorldInv (start journal) := by
  refine ⟨⟨h, ?_, ?_, ?_, ?_, ?_⟩, ⟨List.Pairwise.nil, ?_, ?_⟩, ⟨List.nodup_nil, ?_⟩⟩ <;>
    exact fun _ hmem => absurd hmem List.not_mem_nil

/-- A journal operation that advances, or throws and changes nothing. -/
theorem worldInv_advance {w : BufferWorld} (h : WorldInv w)
    {result : Except String BufferJournal}
    (hadv : ∀ journal', result = .ok journal' →
      ∃ write, Advances w.journal journal' write
        ∧ GapRecorded w.journal journal' write w.captures) :
    WorldInv { w with journal := journalAfter w.journal result } := by
  cases result with
  | error _ => exact ⟨h.captures, h.pool, h.versions⟩
  | ok journal' =>
    obtain ⟨write, ha, hg⟩ := hadv journal' rfl
    exact ⟨capturesInv_advance h.captures ha hg, h.pool, h.versions⟩

theorem worldInv_appendWrite {w : BufferWorld} (h : WorldInv w) {elementOffset : Nat}
    {bytes : List Byte} {resulting : Nat}
    (hgap : GrowthRecorded w (.appendWrite elementOffset bytes resulting)) :
    WorldInv { w with
      journal := journalAfter w.journal (w.journal.appendWrite elementOffset bytes resulting) } := by
  refine worldInv_advance h fun journal' hj => ?_
  obtain ⟨write, hadv, hoff, hsize, hdesired⟩ := appendWrite_advances h.captures.wf hj
  refine ⟨write, hadv, fun c hc hbase hshort i hlo hhi hcov => ?_⟩
  rw [hdesired] at hshort hhi
  unfold Covers at hcov
  rw [hoff, hsize] at hcov
  have := hgap c hc hbase hshort i hlo hhi hcov
  rwa [materialize_getD (h.captures.image c hc) (by omega)] at this

/-- A replacement covers the image it makes; a capacity request brings no byte in. -/
theorem worldInv_replaceImage {w : BufferWorld} (h : WorldInv w) {bytes : List Byte}
    {elementCount capacity : Nat} :
    WorldInv { w with
      journal := journalAfter w.journal (w.journal.replaceImage bytes elementCount capacity) } := by
  refine worldInv_advance h fun journal' hj => ?_
  obtain ⟨write, hadv, hwhole⟩ := replaceImage_advances h.captures.wf hj
  exact ⟨write, hadv, gapRecorded_of_covers fun i _ hi => hwhole i hi⟩

theorem worldInv_requestCapacity {w : BufferWorld} (h : WorldInv w) (capacity : Nat) :
    WorldInv { w with journal := w.journal.requestCapacity capacity } := by
  rcases requestCapacity_advances h.captures.wf with heq | ⟨write, hadv, hsize⟩
  · rw [heq]
    exact ⟨h.captures, h.pool, h.versions⟩
  · refine ⟨capturesInv_advance h.captures hadv (gapRecorded_of_covers fun i hlo hhi => ?_),
      h.pool, h.versions⟩
    rw [hsize] at hhi
    exact absurd hlo (Nat.not_le.mpr hhi)

theorem worldInv_capture {w : BufferWorld} (h : WorldInv w) :
    WorldInv { w with captures := w.captures ++ [w.journal.captureDesired] } := by
  have hsub : ∀ c ∈ w.captures, c ∈ w.captures ++ [w.journal.captureDesired] :=
    fun c hc => List.mem_append_left _ hc
  exact ⟨capturesInv_capture h.captures,
    ⟨h.pool.distinct, h.pool.fresh, fun b hb => honest_mono hsub (h.pool.honest b hb)⟩,
    versionsInv_mono h.versions hsub fun _ hb _ => hb⟩

/-- Dropping a version gives its lease back; the other versions lease other backings. -/
theorem worldInv_drop {w : BufferWorld} (h : WorldInv w) {index : Nat}
    {held : PublishedBufferVersion × BufferJournal.Capture}
    (hheld : w.versions[index]? = some held) :
    WorldInv { w with
      versions := w.versions.eraseIdx index
      pool := w.pool.modify held.1.backingEpoch fun backing =>
        { backing with leases := backing.leases - 1 } } := by
  refine ⟨h.captures, poolInv_modify h.pool ?_ ?_, ⟨?_, fun v hv => ?_⟩⟩
  · exact fun _ _ hg => hg
  · exact fun b hb _ => h.pool.honest b hb
  · exact h.versions.apart.sublist ((List.eraseIdx_sublist _ _).map _)
  · have hmem := List.mem_of_mem_eraseIdx hv
    obtain ⟨hc, b, hb, hg, hl, hh⟩ := h.versions.leased v hmem
    have hne : b.generation ≠ held.1.backingEpoch := by
      rw [hg]
      exact epoch_ne_of_mem_eraseIdx h.versions.apart hheld hv
    exact ⟨hc, b, mem_modify.mpr ⟨b, hb, (if_neg hne).symm⟩, hg, hl, hh⟩

theorem worldInv_step {w w' : BufferWorld} {action : BufferAction} (h : WorldInv w)
    (hgap : GrowthRecorded w action) (hstep : step w action = some w') : WorldInv w' := by
  cases action with
  | appendWrite elementOffset bytes resulting =>
    simp only [step] at hstep
    split at hstep
    · cases hstep
    · cases hstep
      exact worldInv_appendWrite h hgap
  | replaceImage bytes elementCount capacity =>
    simp only [step] at hstep
    split at hstep
    · cases hstep
    · cases hstep
      exact worldInv_replaceImage h
  | requestCapacity capacity =>
    cases hstep
    exact worldInv_requestCapacity h capacity
  | setBackingPool alive =>
    cases hstep
    exact ⟨⟨⟨h.captures.wf.stride, h.captures.wf.sequence, h.captures.wf.size,
      h.captures.wf.image⟩, h.captures.image, h.captures.sequence, h.captures.current,
      h.captures.reach, h.captures.between⟩, h.pool, h.versions⟩
  | captureDesired =>
    cases hstep
    exact worldInv_capture h
  | acknowledge version =>
    cases hstep
    exact ⟨capturesInv_acknowledge h.captures _ _, h.pool, h.versions⟩
  | build index flags shrink context choice released =>
    simp only [step] at hstep
    split at hstep
    · cases hstep
    rename_i hflags
    split at hstep
    · cases hstep
    rename_i capture hcapture
    split at hstep
    · cases hstep
    rename_i pool outcome hbuild
    cases hstep
    have hmem := List.mem_of_getElem? hcapture
    have hin : PlainInput (w.buildInput capture flags shrink) capture :=
      ⟨rfl, rfl, rfl, rfl, rfl, Bool.eq_false_iff.mpr hflags⟩
    obtain ⟨hpool, hver⟩ :=
      buildVersionedBuffer_spec h.captures hmem hin h.pool h.versions hbuild
    exact ⟨h.captures, hpool, hver⟩
  | drop index =>
    simp only [step] at hstep
    split at hstep
    · cases hstep
    · rename_i held _ hheld
      cases hstep
      exact worldInv_drop h hheld

theorem worldInv_within {journal : BufferJournal} {w : BufferWorld} (h : JournalWF journal)
    (hrun : Run.Within step GrowthRecorded (start journal) w) : WorldInv w :=
  hrun.invariant (worldInv_start h) fun _ hinv hgap hstep => worldInv_step hinv hgap hstep

/-- A version's backing is found under its generation and shows what the capture materializes to. -/
theorem versionsHold_of_inv {w : BufferWorld} (h : WorldInv w) : VersionsHold w := by
  intro version capture hmem
  obtain ⟨hc, b, hb, hg, _, hh⟩ := h.versions.leased _ hmem
  refine ⟨b, find?_eq_some h.pool hb hg, fun i hi => ?_⟩
  rw [materialize_getD (h.captures.image _ hc) hi]
  exact hh i hi

/--
**Catch-up content.**

After `Initialize`, in every run whose appends leave no byte behind unrecorded, each version still
held shows the image of its capture, however old the backing it was caught up from.
-/
theorem catchUp_content {journal journal' : BufferJournal} {bytes : List Byte}
    {elementCount capacity : Nat} {w : BufferWorld}
    (hinit : journal.initializeImage bytes elementCount capacity = .ok journal')
    (hrun : Run.Within step GrowthRecorded (start journal') w) : VersionsHold w :=
  versionsHold_of_inv (worldInv_within (initializeImage_wf hinit) hrun)

/-! ## Two runs -/

/-- Four one-byte rows of ones. -/
def onesJournal : BufferJournal :=
  { elementStride := 1, writeSequence := 1, elementCount := 4, capacity := 4, byteSize := 4
    pages := [[1, 1, 1, 1]] }

def buildOf (capture : Nat) (choice : AcquireChoice) : BufferAction :=
  .build capture {} {} { revision := 1 } choice []

/-- Built from the ones, one row rewritten, and caught up in the same backing. -/
def rewriteRow : List BufferAction :=
  [.captureDesired, buildOf 0 (.allocate true fun _ => 0), .appendWrite 1 [7] 4, .captureDesired,
    .drop 0, buildOf 1 (.reuse 1)]

theorem catchUp_content_rewriteRow :
    ∃ w, Run.exec step (start onesJournal) rewriteRow = some w ∧ w.versions.length = 1
      ∧ VersionsHold w := by
  have hrun : (Run.exec step (start onesJournal) rewriteRow).any
      (fun w => decide (w.versions.length = 1)) = true := by decide
  obtain ⟨w, hw, hlen⟩ := (Option.any_eq_true _ _).mp hrun
  have hinit : ({ elementStride := 1 } : BufferJournal).initializeImage [1, 1, 1, 1] 4 4
      = .ok onesJournal := rfl
  refine ⟨w, hw, of_decide_eq_true hlen, catchUp_content hinit (Run.exec_within hw ?_)⟩
  -- only the append has something to meet, and it brings no byte in
  refine ⟨trivial, fun s₁ h₁ => ⟨trivial, fun s₂ h₂ => ⟨?_, fun s₃ _ => ⟨trivial, fun s₄ _ =>
    ⟨trivial, fun s₅ _ => ⟨trivial, fun _ _ => trivial⟩⟩⟩⟩⟩⟩
  cases h₁
  cases h₂
  intro _ _ _ _ i hlo hhi
  exact absurd hlo (Nat.not_le.mpr hhi)

/-- Built from the ones, emptied, and grown back to four rows by a write to the last one only. -/
def sparseGrowth : List BufferAction :=
  [.captureDesired, buildOf 0 (.allocate true fun _ => 0), .drop 0, .replaceImage [] 0 4,
    .appendWrite 3 [5] 4, .captureDesired, buildOf 1 (.reuse 1)]

/-- Some version's backing differs from its capture's image. -/
def showsStale (w : BufferWorld) : Bool :=
  w.versions.any fun v => (w.pool.find? v.1.backingEpoch).any fun backing =>
    (List.range v.2.image.byteSize).any fun i =>
      backing.contents i != v.2.image.materialize.getD i 0

theorem not_versionsHold_of_showsStale {w : BufferWorld} (h : showsStale w = true) :
    ¬VersionsHold w := by
  intro hhold
  obtain ⟨⟨version, capture⟩, hmem, hv⟩ := List.any_eq_true.mp h
  obtain ⟨backing, hfind, hb⟩ := (Option.any_eq_true _ _).mp hv
  obtain ⟨i, hi, hne⟩ := List.any_eq_true.mp hb
  obtain ⟨backing', hfind', hbytes⟩ := hhold version capture hmem
  rw [hfind] at hfind'
  cases hfind'
  rw [hbytes i (List.mem_range.mp hi)] at hne
  simp at hne

/-- **The caught-up backing still shows the ones** that the sparse growth had turned to zeros. -/
theorem sparseGrowth_stale :
    ({ elementStride := 1 } : BufferJournal).initializeImage [1, 1, 1, 1] 4 4 = .ok onesJournal
      ∧ ∃ w, Run.exec step (start onesJournal) sparseGrowth = some w ∧ ¬VersionsHold w := by
  refine ⟨rfl, ?_⟩
  have hstale : (Run.exec step (start onesJournal) sparseGrowth).any showsStale = true := by decide
  obtain ⟨w, hw, hs⟩ := (Option.any_eq_true _ _).mp hstale
  exact ⟨w, hw, not_versionsHold_of_showsStale hs⟩

end ModuleServices.Proof
