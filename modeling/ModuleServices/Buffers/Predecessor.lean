import ModuleServices.Buffers.Build
import ModuleServices.Lib.Intervals

/-!
# `BuildVersionedBuffer`, the predecessor path

The version's bytes are its predecessor's, GPU-copied where the leased backing lacks
them, with the caller's delta uploaded over them. One batch carries both and has no
barriers between its entries, so what is queued (`Queued`) is kept apart from the
backing's memory and applied by `Queued.apply`.
-/

namespace ModuleServices

/-- One call the delta's emitter makes of its sink. -/
structure DeltaWrite where
  data : List Byte
  /-- Whether the pointer given for the data is null. -/
  null : Bool := false
  offset : Nat
  deriving DecidableEq, Repr

structure BufferByteRange where
  offset : Nat
  size : Nat
  deriving DecidableEq, Repr

/-- The fields of `VersionedBufferBuildInput` only this path reads. -/
structure PredecessorInput extends VersionedBufferBuildInput where
  /-- What `emitDelta` sends, or what it throws; `none` when there is no emitter. -/
  emitDelta : Option (Except String (List DeltaWrite)) := none
  /-- `changedSince`'s answer for a journal position; `none` when there is no such callback. -/
  changedSince : Option (Nat → Option (List BufferByteRange)) := none
  /-- The predecessor's backing belongs to another pool. -/
  previousElsewhere : Bool := false

/-- What a build of this path asks of its caller, the pool and the uploader besides. -/
structure PredecessorContext extends VersionedBufferBuildContext where
  stopRequested₃ : Bool := false
  /-- `AcquireInfo::writeAfter`. -/
  writeAfter : Nat := 0
  /-- Whether the uploader takes the copies, and the uploads. -/
  copiesQueued : Bool := true
  uploadsQueued : Bool := true

/-- `StreamingUploadRange`: bytes and where they go. -/
structure StreamingUploadRange where
  data : List Byte
  dstOffset : Nat
  deriving DecidableEq, Repr

/-- `StreamingCopyRange`, source and destination offset being the same here. -/
structure StreamingCopyRange where
  offset : Nat
  size : Nat
  deriving DecidableEq, Repr

/-- The work a build queues: the copies out of the predecessor's backing, and the uploads. -/
structure Queued where
  copies : List StreamingCopyRange := []
  uploads : List StreamingUploadRange := []
  deriving DecidableEq, Repr

/-- One copy applied: the predecessor's bytes over the backing's. -/
def applyCopy (previous contents : Nat → Byte) (range : StreamingCopyRange) : Nat → Byte :=
  fun i => if range.offset ≤ i ∧ i < range.offset + range.size then previous i else contents i

/-- The backing's memory once the batch ran. -/
def Queued.apply (queued : Queued) (previous contents : Nat → Byte) : Nat → Byte :=
  queued.uploads.foldl (fun memory range => applyUpload memory range.dstOffset range.data)
    (queued.copies.foldl (applyCopy previous) contents)

/-- The intervals of the backing the batch writes. -/
def Queued.ranges (queued : Queued) : List HalfOpen :=
  queued.copies.map (fun range => ⟨range.offset, range.offset + range.size⟩)
    ++ queued.uploads.map fun range => ⟨range.dstOffset, range.dstOffset + range.data.length⟩

/-- The bytes of a version its elements use, as the code multiplies them. -/
def PublishedBufferVersion.usedBytes (version : PublishedBufferVersion) : Nat :=
  version.elementCount * version.elementStride % 2 ^ 64

/-! ## The delta -/

/-- The sink `emitDelta` writes into: the writes kept, or `none` once one is out of range. -/
def deltaWrites (usedBytes : Nat) : List DeltaWrite → Option (List DeltaWrite)
  | [] => some []
  | write :: later =>
    if write.data.length = 0 then deltaWrites usedBytes later
    else if write.null ∨ write.offset > usedBytes
        ∨ write.data.length > usedBytes - write.offset then none
    else (deltaWrites usedBytes later).map (write :: ·)

/-- The part of a write in an interval. -/
def DeltaWrite.part (write : DeltaWrite) (gap : HalfOpen) : StreamingUploadRange :=
  { data := (write.data.drop (gap.lo - write.offset)).take (gap.hi - gap.lo), dstOffset := gap.lo }

/-- The loop from the last write to the first: what the writes cover, and of each write the parts
no later write covers. -/
def resolveDelta : List DeltaWrite → List HalfOpen × List StreamingUploadRange
  | [] => ([], [])
  | write :: later =>
    let (delta, uploads) := resolveDelta later
    let stop := write.offset + write.data.length
    (Intervals.add delta write.offset stop,
      uploads ++ (Intervals.gaps delta write.offset stop).map write.part)

/-! ## The copy -/

/-- Whether the predecessor's used bytes are copied whole, and else what `changedSince` answers. -/
def changedRanges (input : PredecessorInput) (previous : PublishedBufferVersion) (allocated : Bool)
    (backing : Backing) : Option (List BufferByteRange) :=
  let held := backing.contentEpoch
  if allocated ∨ held = 0 ∨ held > previous.writeSequence
      ∨ backing.capacityClass ≠ previous.capacity then none
  else if held = previous.writeSequence then some []
  else input.changedSince.bind fun changedSince => changedSince held

/-- The loop over the changed ranges, each clipped to what is copied at most. -/
def missingFrom (copyLimit : Nat) (ranges : List BufferByteRange) : List HalfOpen :=
  ranges.foldl (fun missing range =>
    let start := min range.offset copyLimit
    Intervals.add missing start (start + min range.size (copyLimit - start))) []

/-- What the backing lacks of the predecessor. -/
def missingBytes (input : PredecessorInput) (previous : PublishedBufferVersion) (allocated : Bool)
    (backing : Backing) (usedBytes : Nat) : List HalfOpen :=
  let copyLimit := min previous.usedBytes usedBytes
  match changedRanges input previous allocated backing with
  | none => Intervals.add [] 0 copyLimit
  | some ranges => missingFrom copyLimit ranges

/-- The missing bytes less the delta's, interval by interval. -/
def copyRanges (missing delta : List HalfOpen) : List StreamingCopyRange :=
  missing.flatMap fun range =>
    (Intervals.gaps delta range.lo range.hi).map fun gap =>
      { offset := gap.lo, size := gap.hi - gap.lo }

/-! ## The build -/

/-- What a build leaves: the pool, what it queued, its outcome. -/
structure PredecessorBuilt where
  pool : BackingSet
  queued : Queued := {}
  outcome : VersionedBufferBuildOutcome

/-- The batch of a delta already resolved; `error` where there is no predecessor and the delta is
not the whole version. -/
def batch (input : PredecessorInput) (allocated : Bool) (backing : Backing) (usedBytes : Nat)
    (writes : List DeltaWrite) : Except String Queued :=
  let (delta, uploads) := resolveDelta writes
  let uploads := uploads.insertionSort fun a b => a.dstOffset ≤ b.dstOffset
  match input.previous with
  | some previous =>
    .ok { copies := copyRanges (missingBytes input previous allocated backing usedBytes) delta, uploads }
  | none =>
    if usedBytes ≠ 0 ∧ delta ≠ [⟨0, usedBytes⟩] then
      .error "versioned buffer delta without a predecessor does not cover the version"
    else .ok { uploads }

/-- Queue the batch: the copies first. What is queued, and why it failed; a copy already queued is
cancelled when the uploads are refused. -/
def enqueue (context : PredecessorContext) (queued : Queued) : Queued × Option String :=
  if queued.copies ≠ [] ∧ !context.copiesQueued then
    ({}, some "versioned buffer predecessor copy enqueue failed (the upload service cannot copy)")
  else if queued.uploads ≠ [] ∧ !context.uploadsQueued then
    ({}, some "versioned buffer streaming upload enqueue failed")
  else (queued, none)

/-- The version this path publishes. -/
def predecessorVersion (input : PredecessorInput) (context : PredecessorContext)
    (choice : ClassChoice) (backing : Backing) : PublishedBufferVersion :=
  { revision := context.revision
    writeSequence := input.writeSequence
    elementCount := input.elementCount
    capacity := backing.capacityClass
    elementStride := input.elementStride
    revisionMode := choice.mode
    contentVersion := context.revision
    contentEpoch := input.writeSequence
    backingEpoch := backing.generation
    resource := backing.buffer
    shrinkWindow := choice.window
    shrunk := choice.shrunk }

/-- The body of `BuildFromPredecessor` once a backing is leased. -/
def predecessorInto (input : PredecessorInput) (context : PredecessorContext) (choice : ClassChoice)
    (emitDelta : Except String (List DeltaWrite)) (allocated : Bool) (backing : Backing) :
    Backing × Queued × VersionedBufferBuildOutcome :=
  let usedBytes := input.elementCount * input.elementStride
  if context.writeAfter ≠ 0 then
    (backing, {}, .fail "versioned buffer predecessor copy needs a pool without reuseBound")
  else if !backing.buffer then (backing, {}, .fail "versioned buffer backing has no buffer")
  else if !input.previousElsewhere
      ∧ input.previous.any (fun previous => previous.backingEpoch == backing.generation) then
    (backing, {}, .fail "versioned buffer predecessor copy leased its predecessor's backing")
  else if usedBytes > backing.byteCapacity then
    (backing, {}, .fail "versioned buffer backing smaller than the version's used bytes")
  else
    match emitDelta with
    | .error error => (backing, {}, .fail error)
    | .ok emitted =>
      match deltaWrites usedBytes emitted with
      | none => (backing, {}, .fail "versioned buffer delta write outside the version's bytes")
      | some writes =>
        if context.stopRequested₂ then (backing, {}, .cancel)
        else
          match batch input allocated backing usedBytes writes with
          | .error error => (backing, {}, .fail error)
          | .ok queued =>
            if context.stopRequested₃ then (backing, {}, .cancel)
            else
              let backing := backing.forget
              if backing.retired then
                (backing, {},
                  .fail "versioned buffer backing was retired before its upload was queued")
              else
                match enqueue context queued with
                | (queued, some error) => (backing, queued, .fail error)
                | (queued, none) =>
                  let backing := { backing with contentEpoch := input.writeSequence }
                  (backing, queued,
                    { kind := .ready
                      version := some (predecessorVersion input context choice backing) })

/-- What stops the build before it asks the pool for anything. -/
def predecessorRefusal (input : PredecessorInput) : Option String :=
  if !input.uploadService ∨ input.elementStride = 0 then
    some "versioned buffer input/upload service/stride missing"
  else if !input.backingPool then some "versioned buffer input has no backing pool"
  else if input.emitDelta.isNone then some "versioned buffer predecessor copy has no emitDelta"
  else if input.gpuWritten then some "versioned buffer predecessor copy cannot be GPU-written"
  else if input.elementCount > input.capacity ∨ input.elementCount > kMax / input.elementStride then
    some "versioned buffer count/capacity/stride invalid"
  else if input.previous.any fun previous =>
      !previous.resource || previous.elementStride != input.elementStride then
    some "versioned buffer predecessor copy needs a predecessor with a buffer and the same stride"
  else none

/-- `BuildVersionedBuffer` with `predecessorCopy`, exceptions turned into failures. An outcome that
is not `Ready` gives its lease back. `none` when the pool does not have the choice. -/
def buildFromPredecessor (input : PredecessorInput) (context : PredecessorContext)
    (pool : BackingSet) (choice : AcquireChoice) (released : List Nat) : Option PredecessorBuilt :=
  match predecessorRefusal input, input.emitDelta with
  | some error, _ => some { pool, outcome := .fail error }
  | none, none => none
  | none, some emitDelta =>
    if context.stopRequested₁ then some { pool, outcome := .cancel }
    else
      match chooseClass input.toVersionedBufferBuildInput context.now with
      | .error error => some { pool, outcome := .fail error }
      | .ok cls =>
        let request : BackingRequest :=
          { capacityClass := cls.capacityClass, stride := input.elementStride, flags := input.flags }
        match pool.acquire request choice released with
        | none => none
        | some (pool, .error error) => some { pool, outcome := .fail error }
        | some (pool, .ok none) =>
          if context.allocateSuspension then
            some { pool
                   outcome := { kind := .suspended
                                error := "versioned buffer backing pool exhausted" } }
          else
            some { pool
                   outcome := .fail
                     "versioned buffer backing pool exhausted and the caller cannot suspend" }
        | some (pool, .ok (some (generation, allocated))) =>
          match pool.find? generation with
          | none => none
          | some leased =>
            let (backing, queued, outcome) :=
              predecessorInto input context cls emitDelta allocated leased
            let kept :=
              if outcome.kind = .ready then backing else { backing with leases := backing.leases - 1 }
            some { pool := pool.modify generation fun _ => kept, queued, outcome }

/-! ## What the caller promises of the held backing -/

/-- `changedSince` covers every byte of the predecessor in which the held backing, at its
`contentEpoch`, may differ from it; at the predecessor's own position there is none. -/
def ChangesCovered (input : PredecessorInput) (previous : PublishedBufferVersion)
    (previousBytes : Nat → Byte) (backing : Backing) : Prop :=
  backing.contentEpoch ≠ 0 → backing.contentEpoch ≤ previous.writeSequence →
    ∀ i < previous.usedBytes, backing.contents i ≠ previousBytes i →
      backing.contentEpoch ≠ previous.writeSequence
        ∧ ∀ changedSince ranges, input.changedSince = some changedSince →
          changedSince backing.contentEpoch = some ranges →
          ∃ range ∈ ranges, range.offset ≤ i ∧ i < range.offset + range.size

/-- The delta's writes over a base, the later ones winning. -/
def overlay (base : Nat → Byte) (writes : List DeltaWrite) : Nat → Byte :=
  writes.foldl (fun memory write => applyUpload memory write.offset write.data) base

/-- The delta writes the byte. -/
def DeltaWrites (writes : List DeltaWrite) (i : Nat) : Prop :=
  ∃ write ∈ writes, write.offset ≤ i ∧ i < write.offset + write.data.length

end ModuleServices
