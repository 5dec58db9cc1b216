import ModuleServices.Buffers.Build
import ModuleServices.Lib.Run

/-!
# Runs of one `BufferJournal`

Any sequence of its operations, the captures taken on the way kept in the order they were
taken. The products of a row count and the stride are the code's 64-bit ones here, so the
operations are stated again over `extent`; where the extents fit they are the operations
of `Journal`.

An operation can also throw out of an allocation, half done. What it had stored by then
stays: the mutex is released on the way out, and nothing is undone.
-/

namespace ModuleServices

namespace BufferJournal

/-- `rows * m_elementStride`, a 64-bit product. -/
def extent (journal : BufferJournal) (rows : Nat) : Nat :=
  rows * journal.elementStride % (kMax + 1)

/-- The check `Initialize` and `ReplaceImage` make of a whole image. -/
def Fits (journal : BufferJournal) (bytes : List Byte) (elementCount capacity : Nat) : Prop :=
  journal.elementStride ≠ 0 ∧ elementCount ≤ capacity ∧ bytes.length = journal.extent elementCount

instance (journal : BufferJournal) (bytes : List Byte) (elementCount capacity : Nat) :
    Decidable (journal.Fits bytes elementCount capacity) := by
  unfold Fits
  infer_instance

/-- `Initialize`, over `extent`. -/
def initialize64 (journal : BufferJournal) (bytes : List Byte) (elementCount capacity : Nat) :
    Except String BufferJournal :=
  if journal.Fits bytes elementCount capacity then
    .ok { journal with
      previous := none
      writes := []
      journalBaseSequence := 0
      byteSize := bytes.length
      pages := Paged.chunks BufferImage.pageBytes bytes
      elementCount
      capacity
      writeSequence := 1 }
  else .error "invalid buffer journal initial image"

/-- `Initialize` when the allocation of page `made` throws: the count, the capacity and the sequence
are still the old ones. -/
def initializeThrown (journal : BufferJournal) (bytes : List Byte) (made : Nat) : BufferJournal :=
  { journal with
    previous := none
    writes := []
    journalBaseSequence := 0
    byteSize := bytes.length
    pages := (Paged.chunks BufferImage.pageBytes bytes).take made }

/-- The checks of `AppendWrite`: the text of the one that throws. -/
def refusesWrite (journal : BufferJournal) (elementOffset : Nat) (bytes : List Byte)
    (resultingElementCount : Nat) : Option String :=
  if journal.elementStride = 0 ∨ bytes = [] ∨ bytes.length % journal.elementStride ≠ 0 then
    some "buffer journal write is not row aligned"
  else if elementOffset > kMax - bytes.length / journal.elementStride
      ∨ elementOffset + bytes.length / journal.elementStride > resultingElementCount then
    some "buffer journal write exceeds logical extent"
  else if resultingElementCount > journal.capacity then
    some "buffer journal write exceeds desired capacity"
  else none

/-- The write of `AppendWrite` stays inside the image it has grown. A wrapped product can put it
outside, where the code has no defined behaviour. -/
def Lands (journal : BufferJournal) (elementOffset : Nat) (bytes : List Byte)
    (resultingElementCount : Nat) : Prop :=
  journal.extent elementOffset + bytes.length
    ≤ journal.extent (max journal.elementCount resultingElementCount)

instance (journal : BufferJournal) (elementOffset : Nat) (bytes : List Byte) (resulting : Nat) :
    Decidable (journal.Lands elementOffset bytes resulting) := by
  unfold Lands
  infer_instance

/-- `AppendWrite`, over `extent`. -/
def appendWrite64 (journal : BufferJournal) (elementOffset : Nat) (bytes : List Byte)
    (resultingElementCount : Nat) : Except String BufferJournal :=
  match journal.refusesWrite elementOffset bytes resultingElementCount with
  | some error => .error error
  | none =>
    let sequence := journal.writeSequence + 1
    let logicalElementCount := max journal.elementCount resultingElementCount
    let desiredSize := journal.extent logicalElementCount
    let byteOffset := journal.extent elementOffset
    let covered := Paged.extend BufferImage.pageBytes 0 desiredSize journal.pages
    let grown := Paged.padTails BufferImage.pageBytes 0 desiredSize covered
    .ok { journal with
      writeSequence := sequence
      pages := Paged.overwrite BufferImage.pageBytes bytes.length byteOffset bytes grown
      byteSize := desiredSize
      writes := journal.writes ++ [{ sequence, byteOffset, byteSize := bytes.length }]
      elementCount := logicalElementCount }

/-- `AppendWrite` when an allocation throws. The sequence has moved; how far the page loops came is
left open, and the size is stored just before the write is recorded. -/
def appendWriteThrown (journal : BufferJournal) (pages : List Page) (byteSize : Nat) :
    BufferJournal :=
  { journal with writeSequence := journal.writeSequence + 1, pages, byteSize }

/-- `ReplaceImage`, over `extent`. -/
def replaceImage64 (journal : BufferJournal) (bytes : List Byte) (elementCount capacity : Nat) :
    Except String BufferJournal :=
  if journal.Fits bytes elementCount capacity then
    let sequence := journal.writeSequence + 1
    .ok { journal with
      capacity := max journal.capacity capacity
      elementCount
      writeSequence := sequence
      byteSize := bytes.length
      pages := Paged.chunks BufferImage.pageBytes bytes
      writes := journal.writes ++ [{ sequence, byteOffset := 0, byteSize := bytes.length }] }
  else .error "invalid buffer journal replacement image"

/-- `ReplaceImage` when an allocation throws, with `made` pages in place. -/
def replaceImageThrown (journal : BufferJournal) (bytes : List Byte)
    (elementCount capacity made : Nat) : BufferJournal :=
  { journal with
    capacity := max journal.capacity capacity
    elementCount
    writeSequence := journal.writeSequence + 1
    byteSize := bytes.length
    pages := (Paged.chunks BufferImage.pageBytes bytes).take made }

/-- `RequestCapacity`, over `extent`. -/
def requestCapacity64 (journal : BufferJournal) (capacity : Nat) : BufferJournal :=
  if capacity ≤ journal.capacity then journal
  else
    let sequence := journal.writeSequence + 1
    { journal with
      capacity
      writeSequence := sequence
      writes := journal.writes ++ [{
        sequence, byteOffset := journal.extent journal.elementCount, byteSize := 0 }] }

/-- `RequestCapacity` when recording the checkpoint throws. -/
def requestCapacityThrown (journal : BufferJournal) (capacity : Nat) : BufferJournal :=
  if capacity ≤ journal.capacity then journal
  else { journal with capacity, writeSequence := journal.writeSequence + 1 }

/-! ## Where the extents fit -/

theorem extent_eq {journal : BufferJournal} {rows : Nat}
    (h : rows * journal.elementStride ≤ kMax) :
    journal.extent rows = rows * journal.elementStride :=
  Nat.mod_eq_of_lt (Nat.lt_succ_of_le h)

theorem fits_iff {journal : BufferJournal} {bytes : List Byte} {elementCount capacity : Nat}
    (h : elementCount * journal.elementStride ≤ kMax) :
    journal.Fits bytes elementCount capacity ↔ ¬(journal.elementStride = 0
      ∨ elementCount > capacity ∨ bytes.length ≠ elementCount * journal.elementStride) := by
  unfold Fits
  rw [extent_eq h]
  omega

theorem initialize64_eq {journal : BufferJournal} {bytes : List Byte} {elementCount capacity : Nat}
    (h : elementCount * journal.elementStride ≤ kMax) :
    journal.initialize64 bytes elementCount capacity
      = journal.initializeImage bytes elementCount capacity := by
  unfold initialize64 initializeImage
  simp only [fits_iff h, ite_not]

theorem replaceImage64_eq {journal : BufferJournal} {bytes : List Byte}
    {elementCount capacity : Nat} (h : elementCount * journal.elementStride ≤ kMax) :
    journal.replaceImage64 bytes elementCount capacity
      = journal.replaceImage bytes elementCount capacity := by
  unfold replaceImage64 replaceImage
  simp only [fits_iff h, ite_not]

theorem appendWrite64_eq {journal : BufferJournal} {elementOffset resulting : Nat}
    {bytes : List Byte} (hoffset : elementOffset * journal.elementStride ≤ kMax)
    (hrows : max journal.elementCount resulting * journal.elementStride ≤ kMax) :
    journal.appendWrite64 elementOffset bytes resulting
      = journal.appendWrite elementOffset bytes resulting := by
  unfold appendWrite64 appendWrite refusesWrite
  simp only [extent_eq hoffset, extent_eq hrows]
  by_cases haligned : journal.elementStride = 0 ∨ bytes = []
      ∨ bytes.length % journal.elementStride ≠ 0
  · rw [if_pos haligned, if_pos haligned]
  rw [if_neg haligned, if_neg haligned]
  by_cases hextent : elementOffset > kMax - bytes.length / journal.elementStride
      ∨ elementOffset + bytes.length / journal.elementStride > resulting
  · rw [if_pos hextent]
    exact (if_pos hextent).symm
  rw [if_neg hextent]
  simp only [if_neg hextent]
  by_cases hcapacity : resulting > journal.capacity
  · simp only [if_pos hcapacity]
  · simp only [if_neg hcapacity]

theorem requestCapacity64_eq {journal : BufferJournal} {capacity : Nat}
    (h : journal.elementCount * journal.elementStride ≤ kMax) :
    journal.requestCapacity64 capacity = journal.requestCapacity capacity := by
  unfold requestCapacity64 requestCapacity
  rw [extent_eq h]

end BufferJournal

/-! ## Runs -/

inductive JournalAction where
  | initializeImage (bytes : List Byte) (elementCount capacity : Nat)
  | appendWrite (elementOffset : Nat) (bytes : List Byte) (resultingElementCount : Nat)
  | replaceImage (bytes : List Byte) (elementCount capacity : Nat)
  | requestCapacity (capacity : Nat)
  | captureDesired
  /-- With the trim floor the backing pool gave. -/
  | acknowledge (version : Option PublishedBufferVersion) (floor : Option Nat)
  /-- The operations that throw out of an allocation. -/
  | initializeThrows (bytes : List Byte) (elementCount capacity made : Nat)
  | appendWriteThrows (elementOffset : Nat) (bytes : List Byte) (resultingElementCount : Nat)
      (pages : List Page) (byteSize : Nat)
  | replaceImageThrows (bytes : List Byte) (elementCount capacity made : Nat)
  | requestCapacityThrows (capacity : Nat)
  deriving DecidableEq, Repr

structure JournalRun where
  journal : BufferJournal
  /-- Every capture taken, oldest first. -/
  captures : List BufferJournal.Capture := []
  deriving DecidableEq, Repr

namespace JournalRun

/-- A journal as its constructor leaves it. -/
def start (elementStride : Nat) : JournalRun := { journal := { elementStride } }

/-- What an operation leaves: one that throws an argument error has stored nothing. -/
def settle (r : JournalRun) : Except String BufferJournal → JournalRun
  | .ok journal => { r with journal }
  | .error _ => r

def step (r : JournalRun) : JournalAction → Option JournalRun
  | .initializeImage bytes elementCount capacity =>
    some (r.settle (r.journal.initialize64 bytes elementCount capacity))
  | .appendWrite elementOffset bytes resulting =>
    if r.journal.refusesWrite elementOffset bytes resulting = none
        ∧ ¬r.journal.Lands elementOffset bytes resulting then none
    else some (r.settle (r.journal.appendWrite64 elementOffset bytes resulting))
  | .replaceImage bytes elementCount capacity =>
    some (r.settle (r.journal.replaceImage64 bytes elementCount capacity))
  | .requestCapacity capacity => some { r with journal := r.journal.requestCapacity64 capacity }
  | .captureDesired => some { r with captures := r.captures ++ [r.journal.captureDesired] }
  | .acknowledge version floor => some { r with journal := r.journal.acknowledge version floor }
  | .initializeThrows bytes elementCount capacity made =>
    if r.journal.Fits bytes elementCount capacity then
      some { r with journal := r.journal.initializeThrown bytes made }
    else none
  | .appendWriteThrows elementOffset bytes resulting pages byteSize =>
    if r.journal.refusesWrite elementOffset bytes resulting = none then
      some { r with journal := r.journal.appendWriteThrown pages byteSize }
    else none
  | .replaceImageThrows bytes elementCount capacity made =>
    if r.journal.Fits bytes elementCount capacity then
      some { r with journal := r.journal.replaceImageThrown bytes elementCount capacity made }
    else none
  | .requestCapacityThrows capacity =>
    some { r with journal := r.journal.requestCapacityThrown capacity }

end JournalRun

end ModuleServices
