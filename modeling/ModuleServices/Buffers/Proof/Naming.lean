import ModuleServices.Buffers.JournalRun

/-!
# A journal sequence names one desired state

Every operation that stores a new image, count or capacity moves the sequence before it can
throw, with one exception: `Initialize` stores the sequence last, and always stores 1.
`Keeps` is what a journal may become under the captures already taken; every other
operation meets it from the invariant alone.
-/

namespace ModuleServices.JournalRun.Proof

open ModuleServices BufferJournal

variable {r r' : JournalRun} {journal : BufferJournal}

/-- What a journal sequence is to name. -/
structure Desired where
  image : BufferImage
  elementCount : Nat
  capacity : Nat
  deriving DecidableEq

def desired (journal : BufferJournal) : Desired :=
  ⟨journal.image, journal.elementCount, journal.capacity⟩

def captured (capture : Capture) : Desired :=
  ⟨capture.image, capture.elementCount, capture.capacity⟩

/-- The captures of one sequence, and the journal while it is still at it, show one state. -/
structure Inv (r : JournalRun) : Prop where
  below : ∀ c ∈ r.captures, c.writeSequence ≤ r.journal.writeSequence
  ordered : r.captures.Pairwise fun c c' => c.writeSequence ≤ c'.writeSequence
  current : ∀ c ∈ r.captures, c.writeSequence = r.journal.writeSequence →
    captured c = desired r.journal
  one : ∀ c ∈ r.captures, ∀ c' ∈ r.captures, c.writeSequence = c'.writeSequence →
    captured c = captured c'

/-- The sequence does not go back, and no capture of the sequence arrived at shows something else. -/
structure Keeps (r : JournalRun) (journal : BufferJournal) : Prop where
  forward : r.journal.writeSequence ≤ journal.writeSequence
  named : ∀ c ∈ r.captures, c.writeSequence = journal.writeSequence → captured c = desired journal

theorem inv_start (elementStride : Nat) : Inv (start elementStride) where
  below c hc := absurd hc List.not_mem_nil
  ordered := List.Pairwise.nil
  current c hc := absurd hc List.not_mem_nil
  one c hc := absurd hc List.not_mem_nil

theorem Inv.moved (h : Inv r) (hk : Keeps r journal) : Inv { r with journal } where
  below c hc := Nat.le_trans (h.below c hc) hk.forward
  ordered := h.ordered
  current := hk.named
  one := h.one

theorem Inv.capture (h : Inv r) :
    Inv { r with captures := r.captures ++ [r.journal.captureDesired] } where
  below c hc := by
    rcases List.mem_append.mp hc with hc | hc
    · exact h.below c hc
    · rw [List.mem_singleton.mp hc]
      exact Nat.le_refl _
  ordered := by
    refine List.pairwise_append.mpr ⟨h.ordered, List.pairwise_singleton _ _, ?_⟩
    intro c hc c' hc'
    rw [List.mem_singleton.mp hc']
    exact h.below c hc
  current c hc hsequence := by
    rcases List.mem_append.mp hc with hc | hc
    · exact h.current c hc hsequence
    · rw [List.mem_singleton.mp hc]
      rfl
  one c hc c' hc' hsequence := by
    rcases List.mem_append.mp hc with hc | hc <;> rcases List.mem_append.mp hc' with hc' | hc'
    · exact h.one c hc c' hc' hsequence
    · rw [List.mem_singleton.mp hc'] at hsequence ⊢
      exact h.current c hc hsequence
    · rw [List.mem_singleton.mp hc] at hsequence ⊢
      exact (h.current c' hc' hsequence.symm).symm
    · rw [List.mem_singleton.mp hc, List.mem_singleton.mp hc']

/-! ## The operations -/

/-- A sequence no capture has reached yet names nothing so far. -/
theorem Inv.keeps_moved (h : Inv r) (hlt : r.journal.writeSequence < journal.writeSequence) :
    Keeps r journal where
  forward := Nat.le_of_lt hlt
  named c hc hsequence := by
    have := h.below c hc
    omega

theorem Inv.keeps_same (h : Inv r) (hsequence : journal.writeSequence = r.journal.writeSequence)
    (hdesired : desired journal = desired r.journal) : Keeps r journal where
  forward := Nat.le_of_eq hsequence.symm
  named c hc heq := by
    rw [hdesired]
    exact h.current c hc (heq.trans hsequence)

theorem keeps_acknowledge (h : Inv r) (version : Option PublishedBufferVersion)
    (floor : Option Nat) : Keeps r (r.journal.acknowledge version floor) := by
  unfold acknowledge
  split
  · exact h.keeps_same rfl rfl
  · split
    · exact h.keeps_same rfl rfl
    · exact h.keeps_same rfl rfl

theorem keeps_requestCapacity (h : Inv r) (capacity : Nat) :
    Keeps r (r.journal.requestCapacity64 capacity) := by
  unfold requestCapacity64
  split
  · exact h.keeps_same rfl rfl
  · exact h.keeps_moved (Nat.lt_succ_self _)

theorem keeps_requestCapacityThrown (h : Inv r) (capacity : Nat) :
    Keeps r (r.journal.requestCapacityThrown capacity) := by
  unfold requestCapacityThrown
  split
  · exact h.keeps_same rfl rfl
  · exact h.keeps_moved (Nat.lt_succ_self _)

theorem keeps_appendWrite (h : Inv r) {elementOffset resulting : Nat} {bytes : List Byte}
    (hs : r.journal.appendWrite64 elementOffset bytes resulting = .ok journal) :
    Keeps r journal := by
  unfold appendWrite64 at hs
  split at hs
  · cases hs
  · cases hs
    exact h.keeps_moved (Nat.lt_succ_self _)

theorem keeps_replaceImage (h : Inv r) {bytes : List Byte} {elementCount capacity : Nat}
    (hs : r.journal.replaceImage64 bytes elementCount capacity = .ok journal) :
    Keeps r journal := by
  unfold replaceImage64 at hs
  split at hs
  · cases hs
    exact h.keeps_moved (Nat.lt_succ_self _)
  · cases hs

/-- `Initialize` is given a journal at sequence 0 or 1, and what it stores is what the captures of
sequence 1 show. Where it throws out of an allocation, no capture has the present sequence. -/
def NamesOnce (r : JournalRun) : JournalAction → Prop
  | .initializeImage bytes elementCount capacity =>
    r.journal.Fits bytes elementCount capacity → r.journal.writeSequence ≤ 1
      ∧ ∀ c ∈ r.captures, c.writeSequence = 1 → c.image = .fromBytes bytes
        ∧ c.elementCount = elementCount ∧ c.capacity = capacity
  | .initializeThrows .. => ∀ c ∈ r.captures, c.writeSequence ≠ r.journal.writeSequence
  | _ => True

theorem keeps_initialize {bytes : List Byte} {elementCount capacity : Nat}
    (hc : NamesOnce r (.initializeImage bytes elementCount capacity))
    (hs : r.journal.initialize64 bytes elementCount capacity = .ok journal) :
    Keeps r journal := by
  unfold initialize64 at hs
  split at hs
  · rename_i hfits
    obtain ⟨hsequence, hnamed⟩ := hc hfits
    cases hs
    refine ⟨hsequence, fun c hmem heq => ?_⟩
    obtain ⟨himage, hcount, hcapacity⟩ := hnamed c hmem heq
    unfold captured desired
    rw [himage, hcount, hcapacity]
    rfl
  · cases hs

theorem keeps_initializeThrown {bytes : List Byte} {made : Nat}
    (hc : ∀ c ∈ r.captures, c.writeSequence ≠ r.journal.writeSequence) :
    Keeps r (r.journal.initializeThrown bytes made) where
  forward := Nat.le_refl _
  named c hmem heq := absurd heq (hc c hmem)

/-- A step that moves the journal takes no capture. -/
def Moves (r r' : JournalRun) : Prop :=
  ∃ journal, Keeps r journal ∧ r' = { r with journal }

theorem Inv.settled (h : Inv r) {result : Except String BufferJournal}
    (hk : ∀ journal, result = .ok journal → Keeps r journal) : Moves r (r.settle result) := by
  cases result with
  | error error => exact ⟨r.journal, h.keeps_same rfl rfl, rfl⟩
  | ok journal => exact ⟨journal, hk journal rfl, rfl⟩

theorem step_cases {a : JournalAction} (h : Inv r) (hc : NamesOnce r a) (hs : step r a = some r') :
    Moves r r' ∨ r' = { r with captures := r.captures ++ [r.journal.captureDesired] } := by
  cases a with
  | initializeImage bytes elementCount capacity =>
    cases hs
    exact .inl (h.settled fun _ hj => keeps_initialize hc hj)
  | appendWrite elementOffset bytes resulting =>
    simp only [step] at hs
    split at hs
    · cases hs
    · cases hs
      exact .inl (h.settled fun _ hj => keeps_appendWrite h hj)
  | replaceImage bytes elementCount capacity =>
    cases hs
    exact .inl (h.settled fun _ hj => keeps_replaceImage h hj)
  | requestCapacity capacity =>
    cases hs
    exact .inl ⟨_, keeps_requestCapacity h capacity, rfl⟩
  | captureDesired =>
    cases hs
    exact .inr rfl
  | acknowledge version floor =>
    cases hs
    exact .inl ⟨_, keeps_acknowledge h version floor, rfl⟩
  | initializeThrows bytes elementCount capacity made =>
    simp only [step] at hs
    split at hs
    · cases hs
      exact .inl ⟨_, keeps_initializeThrown hc, rfl⟩
    · cases hs
  | appendWriteThrows elementOffset bytes resulting pages byteSize =>
    simp only [step] at hs
    split at hs
    · cases hs
      exact .inl ⟨_, h.keeps_moved (Nat.lt_succ_self _), rfl⟩
    · cases hs
  | replaceImageThrows bytes elementCount capacity made =>
    simp only [step] at hs
    split at hs
    · cases hs
      exact .inl ⟨_, h.keeps_moved (Nat.lt_succ_self _), rfl⟩
    · cases hs
  | requestCapacityThrows capacity =>
    cases hs
    exact .inl ⟨_, keeps_requestCapacityThrown h capacity, rfl⟩

/-- **Step lemma.** -/
theorem inv_step {a : JournalAction} (h : Inv r) (hc : NamesOnce r a) (hs : step r a = some r') :
    Inv r' ∧ r.journal.writeSequence ≤ r'.journal.writeSequence := by
  rcases step_cases h hc hs with ⟨journal, hk, rfl⟩ | rfl
  · exact ⟨h.moved hk, hk.forward⟩
  · exact ⟨h.capture, Nat.le_refl _⟩

/-- From a state with the invariant on, it holds and the sequence does not go back. -/
theorem inv_within (h : Inv r) (hr : Run.Within step NamesOnce r r') :
    Inv r' ∧ r.journal.writeSequence ≤ r'.journal.writeSequence := by
  refine hr.invariant (I := fun u => Inv u ∧ r.journal.writeSequence ≤ u.journal.writeSequence)
    ⟨h, Nat.le_refl _⟩ fun _ hi hc hs => ?_
  obtain ⟨hinv, hle⟩ := inv_step hi.1 hc hs
  exact ⟨hinv, Nat.le_trans hi.2 hle⟩

end ModuleServices.JournalRun.Proof

namespace ModuleServices.JournalRun

open Proof

/-- In a run that initializes the journal once, a sequence names one image, count and capacity, and
the sequence only grows: over the captures taken, and from any state of the run to a later one. -/
theorem sequence_names_state {elementStride : Nat} {r : JournalRun}
    (h : Run.Within step NamesOnce (start elementStride) r) :
    (∀ c ∈ r.captures, ∀ c' ∈ r.captures, c.writeSequence = c'.writeSequence →
      c.image = c'.image ∧ c.elementCount = c'.elementCount ∧ c.capacity = c'.capacity)
    ∧ r.captures.Pairwise (fun c c' => c.writeSequence ≤ c'.writeSequence)
    ∧ ∀ r', Run.Within step NamesOnce r r' →
      r.journal.writeSequence ≤ r'.journal.writeSequence := by
  obtain ⟨hinv, -⟩ := inv_within (inv_start elementStride) h
  refine ⟨fun c hc c' hc' heq => ?_, hinv.ordered, fun r' hr' => (inv_within hinv hr').2⟩
  have hone := hinv.one c hc c' hc' heq
  unfold captured at hone
  injection hone with himage hcount hcapacity
  exact ⟨himage, hcount, hcapacity⟩

/-- One journal's life: initialized, written, replaced, its capacity raised, and captured after
each. -/
def namingTrace : List JournalAction :=
  [.initializeImage [1, 2] 2 4, .captureDesired, .appendWrite 2 [3] 3, .captureDesired,
    .appendWrite 9 [3] 9, .captureDesired, .requestCapacity 8, .captureDesired]

def namesOnceCheck (r : JournalRun) : JournalAction → Bool
  | .initializeImage .. => r.journal.writeSequence ≤ 1 && r.captures.isEmpty
  | .initializeThrows .. => false
  | _ => true

theorem namesOnce_of_check {r : JournalRun} {a : JournalAction} (h : namesOnceCheck r a = true) :
    NamesOnce r a := by
  cases a with
  | initializeImage bytes elementCount capacity =>
    simp only [namesOnceCheck, Bool.and_eq_true, decide_eq_true_eq, List.isEmpty_iff] at h
    intro _
    refine ⟨h.1, fun c hc => ?_⟩
    rw [h.2] at hc
    exact absurd hc List.not_mem_nil
  | initializeThrows bytes elementCount capacity made => cases h
  | _ => trivial

theorem sequence_names_state_replaced : ∃ r, Run.Within step NamesOnce (start 1) r
    ∧ r.captures.map (·.writeSequence) = [1, 2, 2, 3]
    ∧ (∀ c ∈ r.captures, ∀ c' ∈ r.captures, c.writeSequence = c'.writeSequence →
      c.image = c'.image ∧ c.elementCount = c'.elementCount ∧ c.capacity = c'.capacity) := by
  have htrace : (Run.exec (Run.checked step namesOnceCheck) (start 1) namingTrace).any
      (fun r => r.captures.map (·.writeSequence) = [1, 2, 2, 3]) = true := by
    decide +kernel
  obtain ⟨r, hr, hcaptures⟩ := (Option.any_eq_true _ _).mp htrace
  have hwithin := Run.exec_checked_within (fun _ _ => namesOnce_of_check) hr
  exact ⟨r, hwithin, of_decide_eq_true hcaptures, (sequence_names_state hwithin).1⟩

/-- A journal initialized twice, and captured after each. -/
def initializedTwice : List JournalAction :=
  [.initializeImage [1] 1 1, .captureDesired, .appendWrite 0 [2] 1, .initializeImage [3] 1 1,
    .captureDesired]

/-- Two captures of sequence 1 show different images, and the sequence has gone back. -/
theorem sequence_renamed : ¬∀ r, Run.Reachable step (start 1) r →
    (∀ c ∈ r.captures, ∀ c' ∈ r.captures, c.writeSequence = c'.writeSequence →
      c.image = c'.image ∧ c.elementCount = c'.elementCount ∧ c.capacity = c'.capacity)
    ∧ r.captures.Pairwise (fun c c' => c.writeSequence ≤ c'.writeSequence)
    ∧ ∀ r', Run.Reachable step r r' → r.journal.writeSequence ≤ r'.journal.writeSequence := by
  intro h
  have htrace : (Run.exec step (start 1) initializedTwice).any (fun r =>
      ∃ c ∈ r.captures, ∃ c' ∈ r.captures, c.writeSequence = c'.writeSequence
        ∧ c.image ≠ c'.image) = true := by
    decide +kernel
  obtain ⟨r, hr, hcaptures⟩ := (Option.any_eq_true _ _).mp htrace
  obtain ⟨c, hc, c', hc', hsequence, himage⟩ := of_decide_eq_true hcaptures
  exact himage ((h r (Run.exec_reachable hr)).1 c hc c' hc' hsequence).1

end ModuleServices.JournalRun
