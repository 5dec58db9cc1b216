import ModuleServices.Buffers.Version

/-!
# `BufferJournal`

A mutable desired image plus the writes since the last acknowledged version.

A page a capture still shares is cloned before a write lands in it, so pages are
values here and a capture keeps the pages it took. Byte extents fit 64 bits: products
of a row count and the stride are exact.
-/

namespace ModuleServices

structure BufferJournal where
  elementStride : Nat
  writeSequence : Nat := 0
  elementCount : Nat := 0
  capacity : Nat := 0
  previous : Option PublishedBufferVersion := none
  writes : List BufferWrite := []
  /-- Every write after it is in `writes`. -/
  journalBaseSequence : Nat := 0
  /-- Whether the weak reference to the backing pool is set and alive. -/
  backingPool : Bool := false
  byteSize : Nat := 0
  pages : List Page := []
  deriving DecidableEq, Repr

namespace BufferJournal

structure Capture where
  writeSequence : Nat
  elementCount : Nat
  capacity : Nat
  previous : Option PublishedBufferVersion
  writes : List BufferWrite
  image : BufferImage
  journalBaseSequence : Nat
  deriving DecidableEq, Repr

/-- The image the journal holds now. -/
def image (journal : BufferJournal) : BufferImage :=
  BufferImage.fromPages journal.pages journal.byteSize

/-- `BufferJournal::Initialize`. -/
def initializeImage (journal : BufferJournal) (bytes : List Byte) (elementCount capacity : Nat) :
    Except String BufferJournal :=
  if journal.elementStride = 0 ∨ elementCount > capacity
      ∨ bytes.length ≠ elementCount * journal.elementStride then
    .error "invalid buffer journal initial image"
  else
    .ok { journal with
      previous := none
      writes := []
      journalBaseSequence := 0
      byteSize := bytes.length
      pages := Paged.chunks BufferImage.pageBytes bytes
      elementCount
      capacity
      writeSequence := 1 }

/-- `BufferJournal::AppendWrite`. -/
def appendWrite (journal : BufferJournal) (elementOffset : Nat) (bytes : List Byte)
    (resultingElementCount : Nat) : Except String BufferJournal :=
  if journal.elementStride = 0 ∨ bytes = [] ∨ bytes.length % journal.elementStride ≠ 0 then
    .error "buffer journal write is not row aligned"
  else
    let writeElements := bytes.length / journal.elementStride
    if elementOffset > kMax - writeElements
        ∨ elementOffset + writeElements > resultingElementCount then
      .error "buffer journal write exceeds logical extent"
    else if resultingElementCount > journal.capacity then
      .error "buffer journal write exceeds desired capacity"
    else
      let sequence := journal.writeSequence + 1
      let logicalElementCount := max journal.elementCount resultingElementCount
      let desiredSize := logicalElementCount * journal.elementStride
      let byteOffset := elementOffset * journal.elementStride
      -- new pages first, then the tails a sparse growth left short, then the write itself
      let covered := Paged.extend BufferImage.pageBytes 0 desiredSize journal.pages
      let grown := Paged.padTails BufferImage.pageBytes 0 desiredSize covered
      .ok { journal with
        writeSequence := sequence
        pages := Paged.overwrite BufferImage.pageBytes bytes.length byteOffset bytes grown
        byteSize := desiredSize
        writes := journal.writes ++ [{ sequence, byteOffset, byteSize := bytes.length }]
        elementCount := logicalElementCount }

/-- `BufferJournal::ReplaceImage`. -/
def replaceImage (journal : BufferJournal) (bytes : List Byte) (elementCount capacity : Nat) :
    Except String BufferJournal :=
  if journal.elementStride = 0 ∨ elementCount > capacity
      ∨ bytes.length ≠ elementCount * journal.elementStride then
    .error "invalid buffer journal replacement image"
  else
    let sequence := journal.writeSequence + 1
    .ok { journal with
      capacity := max journal.capacity capacity
      elementCount
      writeSequence := sequence
      byteSize := bytes.length
      pages := Paged.chunks BufferImage.pageBytes bytes
      writes := journal.writes ++ [{ sequence, byteOffset := 0, byteSize := bytes.length }] }

/-- `BufferJournal::RequestCapacity`: a zero-length checkpoint closes the sequence. -/
def requestCapacity (journal : BufferJournal) (capacity : Nat) : BufferJournal :=
  if capacity ≤ journal.capacity then journal
  else
    let sequence := journal.writeSequence + 1
    { journal with
      capacity
      writeSequence := sequence
      writes := journal.writes ++ [{
        sequence, byteOffset := journal.elementCount * journal.elementStride, byteSize := 0 }] }

/-- `BufferJournal::CaptureDesired`. -/
def captureDesired (journal : BufferJournal) : Capture :=
  { writeSequence := journal.writeSequence
    elementCount := journal.elementCount
    capacity := journal.capacity
    previous := journal.previous
    writes := journal.writes
    image := journal.image
    journalBaseSequence := journal.journalBaseSequence }

/-- `BufferJournal::Acknowledge`, with the trim floor the backing pool gave (`none`: no floor). -/
def acknowledge (journal : BufferJournal) (version : Option PublishedBufferVersion)
    (floor : Option Nat) : BufferJournal :=
  match version with
  | none => journal
  | some version =>
    if version.writeSequence > journal.writeSequence
        ∨ journal.previous.any (fun p => decide (version.writeSequence ≤ p.writeSequence)) then
      journal
    else
      let base := match floor with
        | some floor => min version.writeSequence floor
        | none => version.writeSequence
      let journalBaseSequence := max journal.journalBaseSequence base
      { journal with
        previous := some version
        journalBaseSequence
        writes := journal.writes.filter fun write => !decide (write.sequence ≤ journalBaseSequence) }

end BufferJournal

/-- The build input `MakeCaptureIntent` makes of a capture, for a family's stride and flags. -/
def BufferJournal.Capture.input (capture : BufferJournal.Capture) (elementStride : Nat)
    (flags : BackingFlags) : VersionedBufferBuildInput :=
  { elementStride
    flags
    gpuWritten := false
    writeSequence := capture.writeSequence
    elementCount := capture.elementCount
    capacity := capture.capacity
    previous := capture.previous
    writes := capture.writes
    image := some capture.image
    journalBaseSequence := capture.journalBaseSequence }

end ModuleServices
