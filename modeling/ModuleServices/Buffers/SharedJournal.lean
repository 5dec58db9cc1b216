import ModuleServices.Buffers.Journal
import ModuleServices.Lib.Shared
import ModuleServices.Lib.Run

/-!
# `BufferJournal`, its pages shared

The journal with references to its pages where `Journal` has the pages themselves. A
capture takes the references, so a page is used by the journal and by every capture of it
that still lives, and a write clones a page it does not have alone. Every operation checks
its arguments first; it gives what it returns or throws together with the state it leaves.

The page copy loop of `AppendWrite` goes on until the bytes are used up, by as many as the
page it is at has room for; it is given the number of bytes as fuel. The page count is
rounded up in 64 bits. A span lies in memory, so what is cut from one needs no rounding.
-/

namespace ModuleServices

open Shared (Cells)

structure SharedJournal where
  elementStride : Nat
  writeSequence : Nat := 0
  elementCount : Nat := 0
  capacity : Nat := 0
  previous : Option PublishedBufferVersion := none
  writes : List BufferWrite := []
  journalBaseSequence : Nat := 0
  byteSize : Nat := 0
  /-- Every page ever allocated, and the references of `m_pages`. -/
  pages : Cells Page := {}

namespace SharedJournal

variable (held : List (List Nat))

/-- `m_pages.push_back` of a fresh zeroed page, as often as pages are missing. -/
def pushPages (desiredSize : Nat) : Nat → Cells Page → Cells Page
  | 0, pages => pages
  | missing + 1, pages =>
    let pageOffset := pages.refs.length * BufferImage.pageBytes
    pushPages desiredSize missing
      (pages.push (List.replicate (min BufferImage.pageBytes (desiredSize - pageOffset)) 0))

/-- The loop body over the pages a sparse growth left short. -/
def padPage (desiredSize : Nat) (pages : Cells Page) (pageIndex : Nat) : Cells Page :=
  let requiredPageSize :=
    min BufferImage.pageBytes (desiredSize - pageIndex * BufferImage.pageBytes)
  let page := pages.get [] pageIndex
  if page.length ≥ requiredPageSize then pages
  else
    let pages := pages.unshare held [] pageIndex
    pages.store pageIndex
      (pages.get [] pageIndex ++ List.replicate (requiredPageSize - page.length) 0)

/-- The page copy loop, from `absoluteOffset` on. `none` when the fuel does not do, and when it
gets outside the pages. -/
def copyPages : Nat → Nat → List Byte → Cells Page → Option (Cells Page)
  | _, _, [], pages => some pages
  | 0, _, _ :: _, _ => none
  | fuel + 1, absoluteOffset, byte :: rest, pages =>
    let bytes := byte :: rest
    let pageIndex := absoluteOffset / BufferImage.pageBytes
    let pageOffset := absoluteOffset % BufferImage.pageBytes
    if pages.refs.length ≤ pageIndex then none
    else
      let pages := pages.unshare held [] pageIndex
      let page := pages.get [] pageIndex
      if page.length < pageOffset then none
      else
        let copySize := min bytes.length (page.length - pageOffset)
        copyPages fuel (absoluteOffset + copySize) (bytes.drop copySize)
          (pages.store pageIndex
            (page.take pageOffset ++ bytes.take copySize ++ page.drop (pageOffset + copySize)))

/-- The references dropped, and pages cut from `bytes`. -/
def freshPages (journal : SharedJournal) (bytes : List Byte) : Cells Page :=
  (Paged.chunks BufferImage.pageBytes bytes).foldl Cells.push { journal.pages with refs := [] }

/-- `Initialize`. -/
def initializeImage (journal : SharedJournal) (bytes : List Byte) (elementCount capacity : Nat) :
    Except String Unit × SharedJournal :=
  if journal.elementStride = 0 ∨ elementCount > capacity
      ∨ bytes.length ≠ elementCount * journal.elementStride then
    (.error "invalid buffer journal initial image", journal)
  else
    (.ok (), { journal with
      previous := none
      writes := []
      journalBaseSequence := 0
      byteSize := bytes.length
      pages := journal.freshPages bytes
      elementCount
      capacity
      writeSequence := 1 })

/-- `AppendWrite`; `none` when its copy loop is. -/
def appendWrite (journal : SharedJournal) (elementOffset : Nat) (bytes : List Byte)
    (resultingElementCount : Nat) : Option (Except String Unit × SharedJournal) :=
  if journal.elementStride = 0 ∨ bytes = [] ∨ bytes.length % journal.elementStride ≠ 0 then
    some (.error "buffer journal write is not row aligned", journal)
  else
    let writeElements := bytes.length / journal.elementStride
    if elementOffset > kMax - writeElements
        ∨ elementOffset + writeElements > resultingElementCount then
      some (.error "buffer journal write exceeds logical extent", journal)
    else if resultingElementCount > journal.capacity then
      some (.error "buffer journal write exceeds desired capacity", journal)
    else
      let sequence := journal.writeSequence + 1
      let logicalElementCount := max journal.elementCount resultingElementCount
      let desiredSize := logicalElementCount * journal.elementStride
      let byteOffset := elementOffset * journal.elementStride
      let requiredPages :=
        (desiredSize + BufferImage.pageBytes - 1) % (kMax + 1) / BufferImage.pageBytes
      let covered :=
        pushPages desiredSize (requiredPages - journal.pages.refs.length) journal.pages
      let grown := (List.range requiredPages).foldl (padPage held desiredSize) covered
      (copyPages held bytes.length byteOffset bytes grown).map fun pages =>
        (.ok (), { journal with
          writeSequence := sequence
          pages
          byteSize := desiredSize
          writes := journal.writes ++ [{ sequence, byteOffset, byteSize := bytes.length }]
          elementCount := logicalElementCount })

/-- `ReplaceImage`. -/
def replaceImage (journal : SharedJournal) (bytes : List Byte) (elementCount capacity : Nat) :
    Except String Unit × SharedJournal :=
  if journal.elementStride = 0 ∨ elementCount > capacity
      ∨ bytes.length ≠ elementCount * journal.elementStride then
    (.error "invalid buffer journal replacement image", journal)
  else
    let sequence := journal.writeSequence + 1
    (.ok (), { journal with
      capacity := max journal.capacity capacity
      elementCount
      writeSequence := sequence
      byteSize := bytes.length
      pages := journal.freshPages bytes
      writes := journal.writes ++ [{ sequence, byteOffset := 0, byteSize := bytes.length }] })

/-- `RequestCapacity`. -/
def requestCapacity (journal : SharedJournal) (capacity : Nat) : SharedJournal :=
  if capacity ≤ journal.capacity then journal
  else
    let sequence := journal.writeSequence + 1
    { journal with
      capacity
      writeSequence := sequence
      writes := journal.writes ++ [{
        sequence, byteOffset := journal.elementCount * journal.elementStride, byteSize := 0 }] }

end SharedJournal

/-! ## Runs -/

/-- An image a capture holds: references, not pages. -/
structure SharedImage where
  byteSize : Nat
  refs : List Nat
  deriving DecidableEq, Repr

/-- The image the references amount to. -/
def SharedImage.read (image : SharedImage) (cells : List Page) : BufferImage :=
  BufferImage.fromPages (Shared.deref [] cells image.refs) image.byteSize

/-- What is written over a run of bytes. -/
def splice (image : List Byte) (write : Nat × List Byte) : List Byte :=
  image.take write.1 ++ write.2 ++ image.drop (write.1 + write.2.length)

/-- The reference: the last whole image, the writes since in order, and the logical row count. -/
structure Reference where
  whole : List Byte := []
  since : List (Nat × List Byte) := []
  rows : Nat := 0
  deriving DecidableEq, Repr

/-- The last whole image, extended with zeros to the logical row count, and the writes applied. -/
def Reference.dense (reference : Reference) (elementStride : Nat) : List Byte :=
  reference.since.foldl splice (reference.whole
    ++ List.replicate (reference.rows * elementStride - reference.whole.length) 0)

structure SharedRun where
  journal : SharedJournal
  /-- The images captured and not released, with the reference when they were captured. -/
  captures : List (SharedImage × List Byte) := []
  reference : Reference := {}

inductive SharedAction where
  | initializeImage (bytes : List Byte) (elementCount capacity : Nat)
  | appendWrite (elementOffset : Nat) (bytes : List Byte) (resultingElementCount : Nat)
  | replaceImage (bytes : List Byte) (elementCount capacity : Nat)
  | requestCapacity (capacity : Nat)
  | captureDesired
  /-- The last reference to a captured image is dropped. -/
  | release (capture : Nat)
  deriving DecidableEq, Repr

namespace SharedRun

/-- A journal as its constructor leaves it. -/
def start (elementStride : Nat) : SharedRun := { journal := { elementStride } }

/-- The references the captures hold. -/
def held (r : SharedRun) : List (List Nat) := r.captures.map fun c => c.1.refs

/-- What the journal's own references amount to. -/
def image (r : SharedRun) : SharedImage :=
  { byteSize := r.journal.byteSize, refs := r.journal.pages.refs }

/-- The run after a call of the journal: the reference follows when the call does not throw. -/
def settled (r : SharedRun) (out : Except String Unit × SharedJournal) (reference : Reference) :
    Except String Unit × SharedRun :=
  (out.1, { r with
    journal := out.2
    reference := if out.1.isOk then reference else r.reference })

/-- The call: what it returns or throws, and the state it leaves; `none` when it does not end
or gets outside the pages. -/
def attempt (r : SharedRun) : SharedAction → Option (Except String Unit × SharedRun)
  | .initializeImage bytes elementCount capacity =>
    some (r.settled (r.journal.initializeImage bytes elementCount capacity)
      { whole := bytes, rows := elementCount })
  | .appendWrite elementOffset bytes resulting =>
    (r.journal.appendWrite r.held elementOffset bytes resulting).map fun out =>
      r.settled out { r.reference with
        since := r.reference.since ++ [(elementOffset * r.journal.elementStride, bytes)]
        rows := max r.reference.rows resulting }
  | .replaceImage bytes elementCount capacity =>
    some (r.settled (r.journal.replaceImage bytes elementCount capacity)
      { whole := bytes, rows := elementCount })
  | .requestCapacity capacity =>
    some (.ok (), { r with journal := r.journal.requestCapacity capacity })
  | .captureDesired =>
    some (.ok (), { r with
      captures := r.captures ++ [(r.image, r.reference.dense r.journal.elementStride)] })
  | .release capture => some (.ok (), { r with captures := r.captures.eraseIdx capture })

/-- The byte extents of a call fit 64 bits. -/
def Fits (r : SharedRun) : SharedAction → Prop
  | .initializeImage _ elementCount _ => elementCount * r.journal.elementStride ≤ kMax
  | .replaceImage _ elementCount _ => elementCount * r.journal.elementStride ≤ kMax
  | .appendWrite _ _ resulting =>
    max r.journal.elementCount resulting * r.journal.elementStride ≤ kMax
  | _ => True

instance (r : SharedRun) (a : SharedAction) : Decidable (r.Fits a) := by
  cases a <;> unfold Fits <;> infer_instance

/-- The extent a write makes the journal cover fits 64 bits rounded up to whole pages as well. -/
def Rounds (r : SharedRun) : SharedAction → Prop
  | .appendWrite _ _ resulting =>
    max r.journal.elementCount resulting * r.journal.elementStride + BufferImage.pageBytes - 1
      ≤ kMax
  | _ => True

instance (r : SharedRun) (a : SharedAction) : Decidable (r.Rounds a) := by
  cases a <;> unfold Rounds <;> infer_instance

def step (r : SharedRun) (a : SharedAction) : Option SharedRun :=
  if r.Fits a then (r.attempt a).map (·.2) else none

end SharedRun

end ModuleServices
