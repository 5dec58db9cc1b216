import ModuleServices.Lib.Paged

/-!
# Paged CPU images

`BufferImage`: a dense byte image in 64 KB pages. Pages are immutable once an image
holds them (a journal clones a shared page before it writes to it), so a page is its
contents.
-/

namespace ModuleServices

abbrev Byte := UInt8

abbrev Page := List Byte

namespace BufferImage

def pageBytes : Nat := 64 * 1024

theorem pageBytes_pos : 0 < pageBytes := by decide

end BufferImage

structure BufferImage where
  byteSize : Nat
  pages : List Page
  deriving DecidableEq, Repr

namespace BufferImage

/-- `BufferImage::FromBytes`. -/
def fromBytes (bytes : List Byte) : BufferImage :=
  { byteSize := bytes.length, pages := Paged.chunks pageBytes bytes }

/-- `BufferImage::FromPages`. -/
def fromPages (pages : List Page) (byteSize : Nat) : BufferImage := { byteSize, pages }

/-- The copy loop of `Materialize`: what it leaves in the zeroed vector from `offset` on. -/
def materializeFrom (byteSize : Nat) : Nat → List Page → List Byte
  | offset, [] => List.replicate (byteSize - offset) 0
  | offset, page :: pages =>
    if offset ≥ byteSize then []
    else
      let size := min page.length (byteSize - offset)
      page.take size ++ materializeFrom byteSize (offset + size) pages

/-- `BufferImage::Materialize`. -/
def materialize (image : BufferImage) : List Byte := materializeFrom image.byteSize 0 image.pages

/-- The byte a page lookup finds at a flat offset. -/
def byteAt (image : BufferImage) (i : Nat) : Byte := Paged.read pageBytes 0 image.pages i

/-- Pages of `pageBytes` each but the last, holding `byteSize` bytes. -/
def WF (image : BufferImage) : Prop := Paged.Dense pageBytes image.byteSize image.pages

end BufferImage

end ModuleServices
