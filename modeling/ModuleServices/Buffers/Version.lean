import ModuleServices.Buffers.Image
import ModuleServices.Growth.Policy

/-!
# Versions of a buffer and what they are built from

The records `BufferJournal`, `BackingPool` and `BuildVersionedBuffer` hand to each
other. A backing carries the bytes of its allocation (`contents`): the uploads of a
build are applied in queue order, so the memory is part of the state.
-/

namespace ModuleServices

/-- How a version relates to its predecessor's backing class. -/
inductive BufferRevisionMode where
  | patch
  | replace
  deriving DecidableEq, Repr

/-- One journal write: bytes `[byteOffset, byteOffset + byteSize)` changed at `sequence`. -/
structure BufferWrite where
  sequence : Nat
  byteOffset : Nat
  byteSize : Nat
  deriving DecidableEq, Repr

structure BackingFlags where
  unorderedAccess : Bool := false
  indirectArguments : Bool := false
  deviceAddress : Bool := false
  deriving DecidableEq, Repr

structure PublishedBufferVersion where
  revision : Nat := 0
  writeSequence : Nat := 0
  elementCount : Nat := 0
  capacity : Nat := 0
  elementStride : Nat := 0
  revisionMode : BufferRevisionMode := .replace
  contentVersion : Nat := 0
  contentEpoch : Nat := 0
  /-- The generation of the leased backing. -/
  backingEpoch : Nat := 0
  /-- Whether there is a buffer behind the lease. -/
  resource : Bool := false
  image : Option BufferImage := none
  shrinkWindow : ShrinkWindow := {}
  shrunk : Bool := false
  deriving DecidableEq, Repr

structure VersionedBufferBuildInput where
  uploadService : Bool := true
  backingPool : Bool := true
  writeSequence : Nat := 0
  elementStride : Nat := 0
  elementCount : Nat := 0
  capacity : Nat := 0
  flags : BackingFlags := {}
  gpuWritten : Bool := false
  previous : Option PublishedBufferVersion := none
  writes : List BufferWrite := []
  image : Option BufferImage := none
  journalBaseSequence : Nat := 0
  bytes : List Byte := []
  predecessorCopy : Bool := false
  growth : Option GrowthPolicy := none
  shrink : ShrinkPolicy := {}
  deriving DecidableEq, Repr

structure BackingRequest where
  capacityClass : Nat
  stride : Nat
  flags : BackingFlags := {}
  compatibility : Nat := 0
  deriving DecidableEq, Repr

/-- `BackingRequest::ByteCapacity`. -/
def BackingRequest.byteCapacity (request : BackingRequest) : Nat :=
  if request.stride ≠ 0 then request.capacityClass * request.stride else request.capacityClass

/-- A pooled allocation and the bytes it holds. -/
structure Backing where
  generation : Nat
  buffer : Bool := true
  capacityClass : Nat := 0
  byteCapacity : Nat := 0
  stride : Nat := 0
  flags : BackingFlags := {}
  compatibility : Nat := 0
  /-- The journal position `contents` is at; 0 when it holds nothing. -/
  contentEpoch : Nat := 0
  image : Option BufferImage := none
  leases : Nat := 0
  retired : Bool := false
  contents : Nat → Byte

/-- `Forget`: the backing holds nothing a successor may catch up from. -/
def Backing.forget (backing : Backing) : Backing :=
  { backing with image := none, contentEpoch := 0 }

end ModuleServices
