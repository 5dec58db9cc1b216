import ModuleServices.Buffers.JournalRun

/-!
# Which captures replay

What a journal records is closed and in order through every operation (`Recorded`), so
`ReplayVersionedBuffer` can only turn a capture down for a write that reaches past the
image: one recorded before `ReplaceImage` made the image shorter, and kept for the pool's
floor or for want of an acknowledgement.
-/

namespace ModuleServices.JournalRun.Proof

open ModuleServices BufferJournal

variable {r r' : JournalRun} {journal : BufferJournal} {elementStride : Nat}

/-! ## The validation loop -/

/-- What passes the loop ends inside the image. -/
theorem validateWrites_ends {input : VersionedBufferBuildInput} {requiredBytes : Nat} :
    ∀ {writes : List BufferWrite} {validated last : Nat},
      validateWrites input requiredBytes validated writes = some last →
      ∀ w ∈ writes, w.byteOffset + w.byteSize ≤ requiredBytes := by
  intro writes
  induction writes with
  | nil => exact fun _ w hw => absurd hw List.not_mem_nil
  | cons write writes ih =>
    intro validated last h w hw
    unfold validateWrites at h
    split at h
    · cases h
    · rename_i hcheck
      rcases List.mem_cons.mp hw with rfl | hw
      · omega
      · exact ih h w hw

/-- Writes in order, above the start, aligned and inside the image pass, and the loop ends at the
last of them. -/
theorem validateWrites_passes (input : VersionedBufferBuildInput) {requiredBytes : Nat} :
    ∀ {writes : List BufferWrite} (validated : Nat),
      writes.Pairwise (fun w w' => w.sequence < w'.sequence) →
      (∀ w ∈ writes, validated < w.sequence ∧ w.sequence ≤ input.writeSequence) →
      (∀ w ∈ writes, w.byteOffset % input.elementStride = 0
        ∧ w.byteSize % input.elementStride = 0) →
      (∀ w ∈ writes, w.byteOffset + w.byteSize ≤ requiredBytes) →
      ∃ last, validateWrites input requiredBytes validated writes = some last
        ∧ (writes ≠ [] → ∃ w ∈ writes, w.sequence = last
          ∧ ∀ w' ∈ writes, w'.sequence ≤ last) := by
  intro writes
  induction writes with
  | nil => exact fun _ _ _ _ _ => ⟨_, rfl, fun hne => absurd rfl hne⟩
  | cons write writes ih =>
    intro validated hordered hwindow haligned hends
    obtain ⟨hfirst, hrest⟩ := List.pairwise_cons.mp hordered
    have hwrite : write ∈ write :: writes := List.mem_cons_self
    have hmem : ∀ w ∈ writes, w ∈ write :: writes := fun w hw => List.mem_cons_of_mem _ hw
    obtain ⟨habove, hupper⟩ := hwindow write hwrite
    obtain ⟨hoffset, hsize⟩ := haligned write hwrite
    have hend := hends write hwrite
    obtain ⟨last, hlast, hclose⟩ := ih write.sequence hrest
      (fun w hw => ⟨hfirst w hw, (hwindow w (hmem w hw)).2⟩)
      (fun w hw => haligned w (hmem w hw)) (fun w hw => hends w (hmem w hw))
    refine ⟨last, ?_, fun _ => ?_⟩
    · unfold validateWrites
      rw [if_neg (by omega)]
      exact hlast
    · by_cases hempty : writes = []
      · subst hempty
        simp only [validateWrites, Option.some.injEq] at hlast
        subst hlast
        refine ⟨write, hwrite, rfl, fun w' hw' => ?_⟩
        rw [List.mem_singleton.mp hw']
      · obtain ⟨w, hw, heq, hle⟩ := hclose hempty
        refine ⟨w, hmem w hw, heq, fun w' hw' => ?_⟩
        rcases List.mem_cons.mp hw' with rfl | hw'
        · have := hfirst w hw
          omega
        · exact hle w' hw'

/-! ## What a journal has recorded -/

/-- The operations of the run after `Initialize`, none of which throws out of an allocation. -/
def Ordinary (_ : JournalRun) : JournalAction → Prop
  | .appendWrite .. => True
  | .replaceImage _ _ capacity => capacity ≤ kMax32
  | .requestCapacity capacity => capacity ≤ kMax32
  | .captureDesired => True
  | .acknowledge .. => True
  | _ => False

structure Recorded (elementStride : Nat) (journal : BufferJournal) : Prop where
  stride : journal.elementStride = elementStride
  positive : elementStride ≠ 0
  narrow : elementStride ≤ kMax32
  capacity : journal.capacity ≤ kMax32
  rows : journal.elementCount ≤ journal.capacity
  size : journal.byteSize = journal.elementCount * elementStride
  base : journal.journalBaseSequence ≤ journal.writeSequence
  ordered : journal.writes.Pairwise fun w w' => w.sequence < w'.sequence
  window : ∀ w ∈ journal.writes,
    journal.journalBaseSequence < w.sequence ∧ w.sequence ≤ journal.writeSequence
  closed : journal.writes ≠ [] → ∃ w ∈ journal.writes, w.sequence = journal.writeSequence
  aligned : ∀ w ∈ journal.writes, w.byteOffset % elementStride = 0 ∧ w.byteSize % elementStride = 0

/-- No recorded write reaches past the image. -/
def Ends (journal : BufferJournal) : Prop :=
  ∀ w ∈ journal.writes, w.byteOffset + w.byteSize ≤ journal.byteSize

theorem rows_fit {rows : Nat} (hrows : rows ≤ kMax32) (hstride : elementStride ≤ kMax32) :
    rows * elementStride ≤ kMax :=
  calc rows * elementStride ≤ kMax32 * kMax32 := Nat.mul_le_mul hrows hstride
    _ ≤ kMax := by decide

theorem Recorded.extent (h : Recorded elementStride journal) {rows : Nat} (hrows : rows ≤ kMax32) :
    journal.extent rows = rows * elementStride := by
  rw [extent_eq (by rw [h.stride]; exact rows_fit hrows h.narrow), h.stride]

/-- One write recorded at the next sequence. -/
theorem Recorded.record {next : BufferJournal} (h : Recorded elementStride journal)
    (hstride : next.elementStride = elementStride) (hcapacity : next.capacity ≤ kMax32)
    (hrows : next.elementCount ≤ next.capacity)
    (hsize : next.byteSize = next.elementCount * elementStride)
    (hbase : next.journalBaseSequence = journal.journalBaseSequence)
    (hsequence : next.writeSequence = journal.writeSequence + 1) {write : BufferWrite}
    (hwrites : next.writes = journal.writes ++ [write])
    (hrecorded : write.sequence = journal.writeSequence + 1)
    (haligned : write.byteOffset % elementStride = 0 ∧ write.byteSize % elementStride = 0) :
    Recorded elementStride next where
  stride := hstride
  positive := h.positive
  narrow := h.narrow
  capacity := hcapacity
  rows := hrows
  size := hsize
  base := by
    rw [hbase, hsequence]
    exact Nat.le_succ_of_le h.base
  ordered := by
    rw [hwrites]
    refine List.pairwise_append.mpr ⟨h.ordered, List.pairwise_singleton _ _, fun w hw w' hw' => ?_⟩
    rw [List.mem_singleton.mp hw', hrecorded]
    exact Nat.lt_succ_of_le (h.window w hw).2
  window w hw := by
    have hle := h.base
    rw [hbase, hsequence]
    rw [hwrites] at hw
    rcases List.mem_append.mp hw with hw | hw
    · have := h.window w hw
      omega
    · rw [List.mem_singleton.mp hw, hrecorded]
      omega
  closed _ := ⟨write, by simp [hwrites], by rw [hrecorded, hsequence]⟩
  aligned w hw := by
    rw [hwrites] at hw
    rcases List.mem_append.mp hw with hw | hw
    · exact h.aligned w hw
    · rw [List.mem_singleton.mp hw]
      exact haligned

theorem recorded_initialize {bytes : List Byte} {elementCount capacity : Nat}
    (hstride : journal.elementStride ≤ kMax32) (hcapacity : capacity ≤ kMax32)
    {next : BufferJournal} (hs : journal.initialize64 bytes elementCount capacity = .ok next) :
    Recorded journal.elementStride next ∧ Ends next := by
  unfold initialize64 at hs
  split at hs
  · rename_i hfits
    obtain ⟨hpositive, hrows, hlength⟩ := hfits
    cases hs
    rw [extent_eq (rows_fit (Nat.le_trans hrows hcapacity) hstride)] at hlength
    refine ⟨⟨rfl, hpositive, hstride, hcapacity, hrows, hlength, Nat.zero_le _, List.Pairwise.nil,
      fun w hw => absurd hw List.not_mem_nil, fun hne => absurd rfl hne,
      fun w hw => absurd hw List.not_mem_nil⟩, fun w hw => absurd hw List.not_mem_nil⟩
  · cases hs

theorem recorded_appendWrite (h : Recorded elementStride journal) {elementOffset resulting : Nat}
    {bytes : List Byte} (hlands : journal.Lands elementOffset bytes resulting)
    {next : BufferJournal} (hs : journal.appendWrite64 elementOffset bytes resulting = .ok next) :
    Recorded elementStride next ∧ (Ends journal → Ends next) := by
  unfold appendWrite64 at hs
  split at hs
  · cases hs
  rename_i hpasses
  cases hs
  -- the checks: whole rows, inside the resulting extent, inside the capacity
  have hchecks : bytes.length % journal.elementStride = 0 ∧ elementOffset ≤ resulting
      ∧ resulting ≤ journal.capacity := by
    unfold refusesWrite at hpasses
    split at hpasses
    · cases hpasses
    split at hpasses
    · cases hpasses
    split at hpasses
    · cases hpasses
    have := Nat.le_add_right elementOffset (bytes.length / journal.elementStride)
    omega
  obtain ⟨hwhole, hoffset, hresulting⟩ := hchecks
  have hcapacity := h.capacity
  have hmax : max journal.elementCount resulting ≤ journal.capacity := max_le h.rows hresulting
  have hsize : journal.extent (max journal.elementCount resulting)
      = max journal.elementCount resulting * elementStride :=
    h.extent (Nat.le_trans hmax hcapacity)
  refine ⟨h.record h.stride hcapacity hmax hsize rfl rfl rfl rfl ⟨?_, ?_⟩, fun hends w hw => ?_⟩
  · show journal.extent elementOffset % elementStride = 0
    rw [h.extent (by omega)]
    exact Nat.mul_mod_left _ _
  · rw [← h.stride]
    exact hwhole
  · show w.byteOffset + w.byteSize ≤ journal.extent (max journal.elementCount resulting)
    rcases List.mem_append.mp hw with hw | hw
    · calc w.byteOffset + w.byteSize ≤ journal.elementCount * elementStride := h.size ▸ hends w hw
        _ ≤ max journal.elementCount resulting * elementStride :=
          Nat.mul_le_mul_right _ (Nat.le_max_left _ _)
        _ = journal.extent (max journal.elementCount resulting) := hsize.symm
    · rw [List.mem_singleton.mp hw]
      exact hlands

theorem recorded_replaceImage (h : Recorded elementStride journal) {bytes : List Byte}
    {elementCount capacity : Nat} (hcapacity : capacity ≤ kMax32) {next : BufferJournal}
    (hs : journal.replaceImage64 bytes elementCount capacity = .ok next) :
    Recorded elementStride next
      ∧ ((∀ w ∈ journal.writes, w.byteOffset + w.byteSize ≤ bytes.length) → Ends next) := by
  unfold replaceImage64 at hs
  split at hs
  · rename_i hfits
    obtain ⟨-, hrows, hlength⟩ := hfits
    cases hs
    have hlength : bytes.length = elementCount * elementStride := by
      rw [hlength]
      exact h.extent (Nat.le_trans hrows hcapacity)
    refine ⟨h.record h.stride (max_le h.capacity hcapacity) (Nat.le_trans hrows (Nat.le_max_right _ _))
      hlength rfl rfl rfl rfl ⟨Nat.zero_mod _, ?_⟩, fun hkept w hw => ?_⟩
    · show bytes.length % elementStride = 0
      rw [hlength]
      exact Nat.mul_mod_left _ _
    · rcases List.mem_append.mp hw with hw | hw
      · exact hkept w hw
      · rw [List.mem_singleton.mp hw]
        exact Nat.le_of_eq (Nat.zero_add _)
  · cases hs

theorem recorded_requestCapacity (h : Recorded elementStride journal) {capacity : Nat}
    (hcapacity : capacity ≤ kMax32) :
    Recorded elementStride (journal.requestCapacity64 capacity)
      ∧ (Ends journal → Ends (journal.requestCapacity64 capacity)) := by
  unfold requestCapacity64
  split
  · exact ⟨h, fun hends => hends⟩
  · rename_i hlarger
    have hrows := h.rows
    have hoffset : journal.extent journal.elementCount = journal.elementCount * elementStride :=
      h.extent (Nat.le_trans hrows h.capacity)
    refine ⟨h.record h.stride hcapacity (by simp only; omega) h.size rfl rfl rfl rfl
      ⟨?_, Nat.zero_mod _⟩, fun hends w hw => ?_⟩
    · show journal.extent journal.elementCount % elementStride = 0
      rw [hoffset]
      exact Nat.mul_mod_left _ _
    · rcases List.mem_append.mp hw with hw | hw
      · exact hends w hw
      · rw [List.mem_singleton.mp hw]
        show journal.extent journal.elementCount + 0 ≤ journal.byteSize
        rw [hoffset, h.size]
        exact Nat.le_refl _

/-- An acknowledgement does nothing, or raises the base and drops the writes up to it. -/
theorem acknowledge_cases (version : Option PublishedBufferVersion) (floor : Option Nat) :
    journal.acknowledge version floor = journal
    ∨ ∃ base, base ≤ journal.writeSequence ∧ journal.acknowledge version floor = { journal with
      previous := version
      journalBaseSequence := max journal.journalBaseSequence base
      writes := journal.writes.filter fun write =>
        !decide (write.sequence ≤ max journal.journalBaseSequence base) } := by
  unfold acknowledge
  split
  · exact .inl rfl
  rename_i version
  split
  · exact .inl rfl
  rename_i hcurrent
  cases floor with
  | none => exact .inr ⟨version.writeSequence, by omega, rfl⟩
  | some floor =>
    have := Nat.min_le_left version.writeSequence floor
    exact .inr ⟨min version.writeSequence floor, by omega, rfl⟩

/-- The last write is dropped only if none stays. -/
theorem recorded_acknowledge (h : Recorded elementStride journal)
    (version : Option PublishedBufferVersion) (floor : Option Nat) :
    Recorded elementStride (journal.acknowledge version floor)
      ∧ (Ends journal → Ends (journal.acknowledge version floor))
      ∧ journal.journalBaseSequence ≤ (journal.acknowledge version floor).journalBaseSequence := by
  rcases acknowledge_cases version floor with heq | ⟨base, hle, heq⟩ <;> rw [heq]
  · exact ⟨h, fun hends => hends, Nat.le_refl _⟩
  have hkept : ∀ w, w ∈ journal.writes.filter
      (fun write => !decide (write.sequence ≤ max journal.journalBaseSequence base))
      ↔ w ∈ journal.writes ∧ max journal.journalBaseSequence base < w.sequence := by
    intro w
    rw [List.mem_filter, Bool.not_eq_true', decide_eq_false_iff_not, Nat.not_le]
  refine ⟨⟨h.stride, h.positive, h.narrow, h.capacity, h.rows, h.size, max_le h.base hle,
    h.ordered.filter _, fun w hw => ?_, fun hne => ?_, fun w hw => ?_⟩, fun hends w hw => ?_,
    Nat.le_max_left _ _⟩
  · obtain ⟨hmem, hlt⟩ := (hkept w).mp hw
    exact ⟨hlt, (h.window w hmem).2⟩
  · obtain ⟨w, hw⟩ := List.exists_mem_of_ne_nil _ hne
    obtain ⟨hmem, hlt⟩ := (hkept w).mp hw
    obtain ⟨last, hlast, heq⟩ := h.closed (List.ne_nil_of_mem hmem)
    refine ⟨last, (hkept last).mpr ⟨hlast, ?_⟩, heq⟩
    have := (h.window w hmem).2
    omega
  · exact h.aligned w ((hkept w).mp hw).1
  · exact hends w ((hkept w).mp hw).1

/-- The replay of a capture comes down to the validation loop, from no later than the base. -/
theorem Recorded.replay_eq (h : Recorded elementStride journal) (flags : BackingFlags) :
    ∃ first, first ≤ journal.journalBaseSequence
      ∧ replayVersionedBuffer (journal.captureDesired.input elementStride flags)
        = match validateWrites (journal.captureDesired.input elementStride flags) journal.byteSize
            first journal.writes with
          | none => .error replaySequenceError
          | some last =>
            if journal.writes ≠ [] ∧ last ≠ journal.writeSequence then .error replayNotClosed
            else .ok journal.image.materialize := by
  have hcount : journal.elementCount ≤ kMax / elementStride :=
    (Nat.le_div_iff_mul_le (Nat.pos_of_ne_zero h.positive)).mpr
      (rows_fit (Nat.le_trans h.rows h.capacity) h.narrow)
  have hnarrow : ¬(elementStride = 0 ∨ journal.elementCount > journal.capacity
      ∨ journal.capacity > kMax32) := by
    have := h.positive
    have := h.rows
    have := h.capacity
    omega
  have hsize : ¬(journal.byteSize ≠ journal.byteSize) := not_not.mpr rfl
  unfold replayVersionedBuffer
  simp only [Capture.input, captureDesired, if_neg hnarrow, if_neg (Nat.not_lt.mpr hcount),
    ← h.size, BufferJournal.image, BufferImage.fromPages, if_neg hsize]
  cases journal.previous with
  | none => exact ⟨0, Nat.zero_le _, rfl⟩
  | some previous => exact ⟨_, Nat.min_le_right _ _, rfl⟩

/-- What the replay makes of the capture of a journal: nothing but a write past the image stops it. -/
theorem Recorded.replays_iff (h : Recorded elementStride journal) (flags : BackingFlags) :
    replayVersionedBuffer (journal.captureDesired.input elementStride flags)
      = .ok journal.captureDesired.image.materialize ↔ Ends journal := by
  obtain ⟨first, hfirst, heq⟩ := h.replay_eq flags
  rw [heq]
  constructor
  · intro hok
    split at hok
    · cases hok
    · exact validateWrites_ends ‹_›
  · intro hends
    obtain ⟨last, hlast, hclose⟩ := validateWrites_passes
      (journal.captureDesired.input elementStride flags) first h.ordered
      (fun w hw => ⟨Nat.lt_of_le_of_lt hfirst (h.window w hw).1, (h.window w hw).2⟩)
      h.aligned hends
    have hclosed : ¬(journal.writes ≠ [] ∧ last ≠ journal.writeSequence) := by
      rintro ⟨hne, hlt⟩
      obtain ⟨w, hw, hwl, hmax⟩ := hclose hne
      obtain ⟨w', hw', heq⟩ := h.closed hne
      have := hmax w' hw'
      have := (h.window w hw).2
      omega
    rw [hlast]
    exact if_neg hclosed

/-! ## Runs -/

/-- An image that replaces another is as long as every write the journal still keeps reaches. -/
def KeptFit (r : JournalRun) : JournalAction → Prop
  | .replaceImage bytes elementCount capacity => r.journal.Fits bytes elementCount capacity →
    ∀ w ∈ r.journal.writes, w.byteOffset + w.byteSize ≤ bytes.length
  | _ => True

theorem recorded_settle (h : Recorded elementStride r.journal)
    {result : Except String BufferJournal}
    (hk : ∀ journal, result = .ok journal → Recorded elementStride journal
      ∧ journal.journalBaseSequence = r.journal.journalBaseSequence) :
    Recorded elementStride (r.settle result).journal
      ∧ r.journal.journalBaseSequence ≤ (r.settle result).journal.journalBaseSequence := by
  cases result with
  | error error => exact ⟨h, Nat.le_refl _⟩
  | ok journal => exact ⟨(hk journal rfl).1, Nat.le_of_eq (hk journal rfl).2.symm⟩

theorem ends_settle (h : Ends r.journal) {result : Except String BufferJournal}
    (hk : ∀ journal, result = .ok journal → Ends journal) : Ends (r.settle result).journal := by
  cases result with
  | error error => exact h
  | ok journal => exact hk journal rfl

theorem base_appendWrite {elementOffset resulting : Nat} {bytes : List Byte} {next : BufferJournal}
    (hs : journal.appendWrite64 elementOffset bytes resulting = .ok next) :
    next.journalBaseSequence = journal.journalBaseSequence := by
  unfold appendWrite64 at hs
  split at hs <;> cases hs
  rfl

theorem base_replaceImage {bytes : List Byte} {elementCount capacity : Nat} {next : BufferJournal}
    (hs : journal.replaceImage64 bytes elementCount capacity = .ok next) :
    next.journalBaseSequence = journal.journalBaseSequence := by
  unfold replaceImage64 at hs
  split at hs <;> cases hs
  rfl

/-- **Step lemma.** -/
theorem recorded_step {a : JournalAction} (h : Recorded elementStride r.journal)
    (ha : Ordinary r a) (hs : step r a = some r') :
    Recorded elementStride r'.journal
      ∧ r.journal.journalBaseSequence ≤ r'.journal.journalBaseSequence
      ∧ (KeptFit r a → Ends r.journal → Ends r'.journal) := by
  cases a with
  | appendWrite elementOffset bytes resulting =>
    simp only [step] at hs
    split at hs
    · cases hs
    rename_i hdefined
    cases hs
    have hlands : ∀ journal, r.journal.appendWrite64 elementOffset bytes resulting = .ok journal →
        r.journal.Lands elementOffset bytes resulting := by
      intro journal hj
      by_contra hnot
      unfold appendWrite64 at hj
      split at hj
      · cases hj
      · exact hdefined ⟨‹_›, hnot⟩
    have hrecorded := fun journal hj => recorded_appendWrite h (hlands journal hj) hj
    obtain ⟨hnext, hbase⟩ := recorded_settle h
      fun journal hj => ⟨(hrecorded journal hj).1, base_appendWrite hj⟩
    exact ⟨hnext, hbase, fun _ hends => ends_settle hends fun journal hj =>
      (hrecorded journal hj).2 hends⟩
  | replaceImage bytes elementCount capacity =>
    cases hs
    have hrecorded : ∀ journal, r.journal.replaceImage64 bytes elementCount capacity = .ok journal →
        _ := fun journal hj => recorded_replaceImage h ha hj
    obtain ⟨hnext, hbase⟩ := recorded_settle h
      fun journal hj => ⟨(hrecorded journal hj).1, base_replaceImage hj⟩
    refine ⟨hnext, hbase, fun hkept hends => ends_settle hends fun journal hj => ?_⟩
    refine (hrecorded journal hj).2 (hkept ?_)
    unfold replaceImage64 at hj
    split at hj
    · assumption
    · cases hj
  | requestCapacity capacity =>
    cases hs
    obtain ⟨hnext, hends⟩ := recorded_requestCapacity h ha
    refine ⟨hnext, ?_, fun _ => hends⟩
    show r.journal.journalBaseSequence
      ≤ (r.journal.requestCapacity64 capacity).journalBaseSequence
    unfold requestCapacity64
    split <;> exact Nat.le_refl _
  | captureDesired =>
    cases hs
    exact ⟨h, Nat.le_refl _, fun _ hends => hends⟩
  | acknowledge version floor =>
    cases hs
    obtain ⟨hnext, hends, hbase⟩ := recorded_acknowledge h version floor
    exact ⟨hnext, hbase, fun _ => hends⟩
  | _ => exact ha.elim

theorem recorded_within (h : Recorded elementStride r.journal)
    (hr : Run.Within step Ordinary r r') :
    Recorded elementStride r'.journal
      ∧ r.journal.journalBaseSequence ≤ r'.journal.journalBaseSequence := by
  refine hr.invariant (I := fun u => Recorded elementStride u.journal
    ∧ r.journal.journalBaseSequence ≤ u.journal.journalBaseSequence) ⟨h, Nat.le_refl _⟩
    fun _ hi ha hs => ?_
  obtain ⟨hnext, hbase, -⟩ := recorded_step hi.1 ha hs
  exact ⟨hnext, Nat.le_trans hi.2 hbase⟩

theorem ends_within (h : Recorded elementStride r.journal) (hends : Ends r.journal)
    (hr : Run.Within step (fun r a => Ordinary r a ∧ KeptFit r a) r r') : Ends r'.journal := by
  have hi := hr.invariant (I := fun u => Recorded elementStride u.journal ∧ Ends u.journal)
    ⟨h, hends⟩ fun _ hi ha hs => by
      obtain ⟨hnext, -, hkeeps⟩ := recorded_step hi.1 ha.1 hs
      exact ⟨hnext, hkeeps ha.2 hi.2⟩
  exact hi.2

end ModuleServices.JournalRun.Proof

namespace ModuleServices.JournalRun

open Proof

/-- After one `Initialize` and any ordinary operations: what a capture records is in order, above its
base and closed, the base only rises, and the capture replays to its image exactly where no
recorded write reaches past that image. Where every replacing image is as long as the kept writes
reach, none does. -/
theorem captures_replay {elementStride elementCount capacity : Nat} {bytes : List Byte}
    {journal : BufferJournal} {r : JournalRun} (hstride : elementStride ≤ kMax32)
    (hcapacity : capacity ≤ kMax32)
    (hstart : (start elementStride).journal.initialize64 bytes elementCount capacity = .ok journal)
    (hr : Run.Within step Ordinary { journal } r) :
    let capture := r.journal.captureDesired
    let input := capture.input elementStride
    capture.writes.Pairwise (fun w w' => w.sequence < w'.sequence)
    ∧ (∀ w ∈ capture.writes, capture.journalBaseSequence < w.sequence
      ∧ w.sequence ≤ capture.writeSequence)
    ∧ (capture.writes ≠ [] → ∃ w ∈ capture.writes, w.sequence = capture.writeSequence)
    ∧ (∀ r', Run.Within step Ordinary r r' →
      r.journal.journalBaseSequence ≤ r'.journal.journalBaseSequence)
    ∧ (∀ flags, replayVersionedBuffer (input flags) = .ok capture.image.materialize
      ↔ ∀ w ∈ capture.writes, w.byteOffset + w.byteSize ≤ capture.image.byteSize)
    ∧ (Run.Within step (fun r a => Ordinary r a ∧ KeptFit r a) { journal } r →
      ∀ flags, replayVersionedBuffer (input flags) = .ok capture.image.materialize) := by
  obtain ⟨hrecorded, hends⟩ := recorded_initialize hstride hcapacity hstart
  obtain ⟨hnow, -⟩ := recorded_within (r := { journal }) hrecorded hr
  refine ⟨hnow.ordered, hnow.window, hnow.closed, fun r' hr' => (recorded_within hnow hr').2,
    hnow.replays_iff, fun hkept flags => ?_⟩
  exact (hnow.replays_iff flags).mpr (ends_within (r := { journal }) hrecorded hends hkept)

/-- A journal of three rows: a write at the end, then an image of `rows` rows in place of it. -/
def replaced (rows : Nat) : List JournalAction :=
  [.appendWrite 2 [9] 3, .replaceImage (List.replicate rows 5) rows 4]

/-- Every step is ordinary, and every replacing image is long enough. -/
def keptFitCheck (r : JournalRun) : JournalAction → Bool
  | .appendWrite .. => true
  | .replaceImage bytes _ capacity => capacity ≤ kMax32
    && r.journal.writes.all fun w => w.byteOffset + w.byteSize ≤ bytes.length
  | _ => false

theorem keptFit_of_check {r : JournalRun} {a : JournalAction} (h : keptFitCheck r a = true) :
    Ordinary r a ∧ KeptFit r a := by
  cases a with
  | appendWrite elementOffset bytes resulting => exact ⟨trivial, trivial⟩
  | replaceImage bytes elementCount capacity =>
    simp only [keptFitCheck, Bool.and_eq_true, decide_eq_true_eq, List.all_eq_true] at h
    exact ⟨h.1, fun _ => h.2⟩
  | _ => cases h

def ordinaryCheck (_ : JournalRun) : JournalAction → Bool
  | .appendWrite .. => true
  | .replaceImage _ _ capacity => capacity ≤ kMax32
  | _ => false

theorem ordinary_of_check {r : JournalRun} {a : JournalAction} (h : ordinaryCheck r a = true) :
    Ordinary r a := by
  cases a with
  | appendWrite elementOffset bytes resulting => exact trivial
  | replaceImage bytes elementCount capacity => exact of_decide_eq_true (p := capacity ≤ kMax32) h
  | _ => cases h

/-- The journal the two runs below start from. -/
def threeRows : Except String BufferJournal := (start 1).journal.initialize64 [1, 2, 3] 3 4

theorem captures_replay_replaced : ∃ journal r, threeRows = .ok journal
    ∧ Run.Within step Ordinary { journal } r ∧ r.journal.writes.map (·.sequence) = [2, 3]
    ∧ ∀ flags, replayVersionedBuffer (r.journal.captureDesired.input 1 flags)
      = .ok r.journal.captureDesired.image.materialize := by
  obtain ⟨journal, hstart⟩ : ∃ journal, threeRows = .ok journal := ⟨_, rfl⟩
  have htrace : (threeRows.toOption.bind fun journal =>
      Run.exec (Run.checked step keptFitCheck) { journal } (replaced 3)).any
      (fun r => r.journal.writes.map (·.sequence) = [2, 3]) = true := by
    decide +kernel
  rw [hstart] at htrace
  obtain ⟨r, hr, hwrites⟩ := (Option.any_eq_true _ _).mp htrace
  have hkept := Run.exec_checked_within (fun _ _ => keptFit_of_check) hr
  have hwithin := hkept.mono (D := Ordinary) fun _ _ h => h.1
  exact ⟨journal, r, hstart, hwithin, of_decide_eq_true hwrites,
    (captures_replay (by decide) (by decide) hstart hwithin).2.2.2.2.2 hkept⟩

/-- The write at row 2 is still recorded when the image has one row left, and the capture does not
replay. -/
theorem shrunk_capture_unreplayable : ¬∀ journal r, threeRows = .ok journal →
    Run.Within step Ordinary { journal } r →
    ∀ flags, replayVersionedBuffer (r.journal.captureDesired.input 1 flags)
      = .ok r.journal.captureDesired.image.materialize := by
  intro h
  obtain ⟨journal, hstart⟩ : ∃ journal, threeRows = .ok journal := ⟨_, rfl⟩
  have htrace : (threeRows.toOption.bind fun journal =>
      Run.exec (Run.checked step ordinaryCheck) { journal } (replaced 1)).any
      (fun r => replayVersionedBuffer (r.journal.captureDesired.input 1 {})
        ≠ .ok r.journal.captureDesired.image.materialize) = true := by
    decide +kernel
  rw [hstart] at htrace
  obtain ⟨r, hr, hfails⟩ := (Option.any_eq_true _ _).mp htrace
  exact of_decide_eq_true hfails (h journal r hstart
    (Run.exec_checked_within (fun _ _ => ordinary_of_check) hr) {})

end ModuleServices.JournalRun
