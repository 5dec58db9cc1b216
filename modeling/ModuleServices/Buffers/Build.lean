import ModuleServices.Buffers.Journal
import Mathlib.Data.List.Sort

/-!
# `BuildVersionedBuffer`, the plain path

One version: a backing is acquired from the pool, brought to the input's image (whole,
or by the journal's writes since the backing's `contentEpoch`), and leased to the
version. Which reusable backing `Acquire` hands out, and what a fresh allocation holds,
are the environment's choices (`AcquireChoice`).
-/

namespace ModuleServices

/-! ## The class a version is made at -/

/-- `std::bit_ceil`. -/
def bitCeil (n : Nat) : Nat := if n ≤ 1 then 1 else 2 ^ (Nat.log2 (n - 1) + 1)

/-- `ReplacementCapacity`. -/
def replacementCapacity (input : VersionedBufferBuildInput) : Nat :=
  let rounded := bitCeil (max input.capacity 1)
  match input.previous with
  | none => rounded
  | some previous => max rounded (previous.capacity + max (previous.capacity / 2) 1)

structure ClassChoice where
  mode : BufferRevisionMode := .replace
  capacityClass : Nat := 0
  window : ShrinkWindow := {}
  shrunk : Bool := false
  deriving DecidableEq, Repr

/-- The grown class of a version that no predecessor's class fits. -/
def growClass (input : VersionedBufferBuildInput) (window : ShrinkWindow) :
    Except String ClassChoice := do
  let required := max input.capacity 1
  let capacityClass ←
    match input.growth with
    | some growth =>
      if input.predecessorCopy then
        growth.next (match input.previous with | some p => p.capacity | none => 0) required
      else .ok (replacementCapacity input)
    | none => .ok (replacementCapacity input)
  return { mode := .replace, capacityClass, window := window.reset }

/-- `ChooseClass`. -/
def chooseClass (input : VersionedBufferBuildInput) (now : Int) : Except String ClassChoice :=
  let required := max input.capacity 1
  match input.previous with
  | none => growClass input {}
  | some previous =>
    if previous.resource ∧ input.capacity ≤ previous.capacity then do
      let fresh := match input.growth with
        | some growth => if input.predecessorCopy then growth else GrowthPolicy.doublingPolicy
        | none => GrowthPolicy.doublingPolicy
      let (target, window) ←
        previous.shrinkWindow.observe input.shrink fresh previous.capacity required now
      match target with
      | some target =>
        let capacityClass := max target required
        if capacityClass < previous.capacity then
          return { mode := .replace, capacityClass, window, shrunk := true }
        else return { mode := .patch, capacityClass := previous.capacity, window }
      | none => return { mode := .patch, capacityClass := previous.capacity, window }
    else growClass input previous.shrinkWindow

/-! ## `ReplayVersionedBuffer` -/

def replaySequenceError : String := "versioned buffer write journal sequence/range invalid"

def replayNotClosed : String := "versioned buffer is not closed through requested write sequence"

/-- The validation loop over the writes: the last sequence, when all are in order and in range. -/
def validateWrites (input : VersionedBufferBuildInput) (requiredBytes : Nat) :
    Nat → List BufferWrite → Option Nat
  | validated, [] => some validated
  | validated, write :: writes =>
    if write.sequence ≤ validated ∨ write.sequence > input.writeSequence
        ∨ write.byteOffset > requiredBytes ∨ write.byteSize > requiredBytes - write.byteOffset
        ∨ write.byteOffset % input.elementStride ≠ 0 ∨ write.byteSize % input.elementStride ≠ 0 then
      none
    else validateWrites input requiredBytes write.sequence writes

/-- The loop over the writes an image-less input still carries: only checkpoints may follow. -/
def replayDeltas : Nat → List BufferWrite → Option Nat
  | last, [] => some last
  | last, write :: writes =>
    if write.sequence ≤ last then replayDeltas last writes
    else if write.byteSize ≠ 0 then none
    else replayDeltas write.sequence writes

/-- `ReplayVersionedBuffer`. -/
def replayVersionedBuffer (input : VersionedBufferBuildInput) : Except String (List Byte) :=
  if input.elementStride = 0 ∨ input.elementCount > input.capacity ∨ input.capacity > kMax32 then
    .error "versioned buffer count/capacity/stride invalid"
  else if input.elementCount > kMax / input.elementStride then
    .error "versioned buffer byte count overflows address space"
  else
    let requiredBytes := input.elementCount * input.elementStride
    let start := match input.previous with
      | some previous => min previous.writeSequence input.journalBaseSequence
      | none => 0
    match validateWrites input requiredBytes start input.writes with
    | none => .error replaySequenceError
    | some validated =>
      if input.writes ≠ [] ∧ validated ≠ input.writeSequence then .error replayNotClosed
      else
        match input.image with
        | some image =>
          if image.byteSize ≠ requiredBytes then
            .error "versioned buffer desired image byte count does not match rows"
          else .ok image.materialize
        | none =>
          if input.bytes ≠ [] ∧ requiredBytes ≠ input.bytes.length then
            .error "versioned buffer byte count does not match rows"
          else
            let shadow :=
              if input.bytes ≠ [] then input.bytes
              else
                match input.previous.bind (·.image) with
                | some image =>
                  let previous := image.materialize
                  previous.take requiredBytes
                    ++ List.replicate (requiredBytes - previous.length) 0
                | none => List.replicate requiredBytes 0
            let last := match input.previous with
              | some previous => previous.writeSequence
              | none => 0
            match replayDeltas last input.writes with
            | none => .error "versioned buffer deltas require an immutable paged image"
            | some last =>
              if input.bytes = [] ∧ ((input.writes ≠ [] ∧ last ≠ input.writeSequence)
                  ∨ (input.writes = []
                    ∧ input.previous.any fun p => input.writeSequence != p.writeSequence)) then
                .error replayNotClosed
              else .ok shadow

/-! ## The pool, as far as a build sees it -/

/-- The pool's backings. Free ones are those without a lease. -/
structure BackingSet where
  all : List Backing := []
  nextGeneration : Nat := 1

namespace BackingSet

def find? (pool : BackingSet) (generation : Nat) : Option Backing :=
  pool.all.find? fun backing => backing.generation == generation

/-- Change the backing of a generation. -/
def modify (pool : BackingSet) (generation : Nat) (f : Backing → Backing) : BackingSet :=
  { pool with
    all := pool.all.map fun backing => if backing.generation = generation then f backing else backing }

/-- `BackingPool::OldestContentEpoch`. -/
def oldestContentEpoch (pool : BackingSet) : Option Nat :=
  pool.all.foldl (fun oldest backing =>
    if backing.contentEpoch ≠ 0 ∧ oldest.all (fun o => decide (backing.contentEpoch < o)) then
      some backing.contentEpoch
    else oldest) none

end BackingSet

/-- What `Acquire` does, where it has a choice: which reusable backing it hands out, or what the
allocation hook does. -/
inductive AcquireChoice where
  | reuse (generation : Nat)
  | allocate (buffer : Bool) (fill : Nat → Byte)
  | exhausted
  | throws (error : String)

namespace BackingSet

/-- A backing `Acquire` may hand out for the request: nobody leases it and its kind is the request's. -/
def reusable (backing : Backing) (request : BackingRequest) : Bool :=
  backing.leases == 0 && backing.capacityClass == request.capacityClass
    && backing.stride == request.stride && backing.flags == request.flags
    && backing.compatibility == request.compatibility

/-- Spares and superseded classes leave the pool; only a backing without a lease can. -/
def release (pool : BackingSet) (released : List Nat) : BackingSet :=
  { pool with
    all := pool.all.filter fun backing =>
      !(backing.leases == 0 && released.contains backing.generation) }

/-- `BackingPool::Acquire`: the pool after it, the generation leased and whether it is new.
`none` when the choice is not one the pool has, or its bytes do not fit 64 bits. -/
def acquire (pool : BackingSet) (request : BackingRequest) (choice : AcquireChoice)
    (released : List Nat) : Option (BackingSet × Except String (Option (Nat × Bool))) :=
  match choice with
  | .reuse generation =>
    match pool.find? generation with
    | none => none
    | some backing =>
      if reusable backing request then
        some (((pool.modify generation fun b => { b with leases := 1 }).release released),
          .ok (some (generation, false)))
      else none
  | .allocate buffer fill =>
    if request.byteCapacity > kMax then none
    else
      let fresh : Backing :=
        { generation := pool.nextGeneration
          buffer
          capacityClass := request.capacityClass
          byteCapacity := request.byteCapacity
          stride := request.stride
          flags := request.flags
          compatibility := request.compatibility
          leases := 1
          contents := fill }
      let kept := pool.release released
      some ({ all := kept.all ++ [fresh], nextGeneration := pool.nextGeneration + 1 },
        .ok (some (pool.nextGeneration, true)))
  | .exhausted => some (pool.release released, .ok none)
  | .throws error => some (pool.release released, .error error)

end BackingSet

/-! ## The upload -/

structure DirtyRange where
  offset : Nat
  size : Nat
  deriving DecidableEq, Repr

/-- The catch-up's merge of the sorted ranges, `back` being the last one pushed. -/
def mergeFrom (back : DirtyRange) : List DirtyRange → List DirtyRange
  | [] => [back]
  | range :: ranges =>
    if range.offset ≤ (back.offset + back.size + 256) % 2 ^ 64 then
      let stop := max (back.offset + back.size) (range.offset + range.size)
      mergeFrom { back with size := stop - back.offset } ranges
    else back :: mergeFrom range ranges

def mergeRanges : List DirtyRange → List DirtyRange
  | [] => []
  | range :: ranges => mergeFrom range ranges

/-- The ranges of the journal's writes past `held`, merged. -/
def catchUpRanges (writes : List BufferWrite) (held : Nat) : List DirtyRange :=
  let dirty := (writes.filter fun write => !(decide (write.sequence ≤ held) || write.byteSize == 0)).map
    fun write => { offset := write.byteOffset, size := write.byteSize : DirtyRange }
  mergeRanges (dirty.insertionSort fun a b => a.offset ≤ b.offset)

/-- Whether the journal reaches back to what the backing holds. -/
def journalCoversBacking (input : VersionedBufferBuildInput) (image : BufferImage)
    (backing : Backing) (allocated : Bool) : Bool :=
  !allocated && input.image.isSome && backing.contentEpoch != 0
    && decide (input.journalBaseSequence ≤ backing.contentEpoch)
    && decide (backing.contentEpoch ≤ input.writeSequence)
    && backing.image.any fun held => held.byteSize == image.byteSize

/-- The ranges a build uploads: a catch-up, or the whole image where that is no dearer. -/
def uploadRanges (input : VersionedBufferBuildInput) (image : BufferImage) (backing : Backing)
    (allocated : Bool) : List DirtyRange :=
  let whole : List DirtyRange := [{ offset := 0, size := image.byteSize }]
  let dirtyRanges :=
    if journalCoversBacking input image backing allocated then
      catchUpRanges input.writes backing.contentEpoch
    else whole
  let dirtyBytes := dirtyRanges.foldl (fun total range => (total + range.size) % 2 ^ 64) 0
  if dirtyRanges.length > 128 ∨ dirtyBytes * 2 % 2 ^ 64 > image.byteSize then whole else dirtyRanges

/-- The segment loop of one range. Past its page's end the length left in the page wraps, and
the segment is read out of whatever memory lies there (`stray`). -/
def gather (image : BufferImage) (stray : Nat → Byte) : Nat → Nat → Nat → Option (List Byte)
  | _, 0, _ => some []
  | 0, _ + 1, _ => none
  | fuel + 1, remaining, offset =>
    match image.pages[offset / BufferImage.pageBytes]? with
    | none => none
    | some page =>
      let pageOffset := offset % BufferImage.pageBytes
      if pageOffset ≤ page.length then
        let size := min remaining (page.length - pageOffset)
        if size = 0 then none
        else
          (gather image stray fuel (remaining - size) (offset + size)).map fun rest =>
            (page.drop pageOffset).take size ++ rest
      else some ((List.range remaining).map fun k => stray (offset + k))

/-- Bytes applied to the backing's memory. -/
def applyUpload (contents : Nat → Byte) (offset : Nat) (bytes : List Byte) : Nat → Byte :=
  fun i => if offset ≤ i ∧ i < offset + bytes.length then bytes.getD (i - offset) 0 else contents i

/-- The loop over the ranges: the memory after the uploads queued, and why it stopped early. -/
def uploadAll (image : BufferImage) (stray : Nat → Byte) (retired : Bool) :
    List DirtyRange → (Nat → Byte) → (Nat → Byte) × Option String
  | [], contents => (contents, none)
  | range :: ranges, contents =>
    match gather image stray range.size range.size range.offset with
    | none => (contents, some "versioned buffer paged image does not cover upload range")
    | some bytes =>
      if retired then
        (contents, some "versioned buffer backing was retired before its upload was queued")
      else uploadAll image stray retired ranges (applyUpload contents range.offset bytes)

/-! ## The build -/

inductive OutcomeKind where
  | ready
  | suspended
  | failed
  | cancelled
  deriving DecidableEq, Repr

structure VersionedBufferBuildOutcome where
  kind : OutcomeKind := .failed
  version : Option PublishedBufferVersion := none
  error : String := ""
  deriving DecidableEq, Repr

/-- `Fail`. -/
def VersionedBufferBuildOutcome.fail (error : String) : VersionedBufferBuildOutcome := { kind := .failed, error }

/-- `Cancel`. -/
def VersionedBufferBuildOutcome.cancel : VersionedBufferBuildOutcome := { kind := .cancelled }

/-- What a build asks of its caller and of the machine: the answers `stopRequested` gives at its
two calls, whether the caller can suspend, the clock, and memory outside every page. -/
structure VersionedBufferBuildContext where
  revision : Nat
  stopRequested₁ : Bool := false
  stopRequested₂ : Bool := false
  allocateSuspension : Bool := true
  now : Int := 0
  stray : Nat → Byte := fun _ => 0

/-- The image a build writes: the input's, or the replay of an input that has none. -/
def buildImage (input : VersionedBufferBuildInput) : Except String (Option BufferImage) :=
  match input.image with
  | some image => .ok (some image)
  | none =>
    if input.gpuWritten then .ok none
    else (replayVersionedBuffer input).map fun bytes => some (BufferImage.fromBytes bytes)

/-- Whether the image's bytes have to reach the backing. -/
def needsInitialContent (input : VersionedBufferBuildInput) : Bool :=
  !input.gpuWritten && !(input.flags.unorderedAccess && input.flags.indirectArguments
    && input.bytes.isEmpty && input.writes.isEmpty)

/-- A leased backing brought to the image: the backing after it, and why it failed. -/
def fill (input : VersionedBufferBuildInput) (context : VersionedBufferBuildContext)
    (image : Option BufferImage) (allocated : Bool) (backing : Backing) :
    Backing × Option String :=
  let done (backing : Backing) : Backing :=
    { backing with
      image := if input.gpuWritten then none else image
      contentEpoch := input.writeSequence }
  match image with
  | none => (done backing, none)
  | some image =>
    if needsInitialContent input ∧ image.byteSize ≠ 0 then
      let ranges := uploadRanges input image backing allocated
      let forgotten := backing.forget
      match uploadAll image context.stray backing.retired ranges backing.contents with
      | (contents, some error) => ({ forgotten with contents }, some error)
      | (contents, none) => (done { forgotten with contents }, none)
    else (done backing, none)

/-- The version a finished build publishes. -/
def publishedVersion (input : VersionedBufferBuildInput) (context : VersionedBufferBuildContext)
    (choice : ClassChoice) (image : Option BufferImage) (backing : Backing) :
    PublishedBufferVersion :=
  { revision := context.revision
    writeSequence := input.writeSequence
    elementCount := input.elementCount
    capacity := backing.capacityClass
    elementStride := input.elementStride
    revisionMode := choice.mode
    contentVersion := context.revision
    contentEpoch := input.writeSequence
    backingEpoch := backing.generation
    resource := backing.buffer
    image := if input.gpuWritten then none else image
    shrinkWindow := choice.window
    shrunk := choice.shrunk }

/-- The body of `Build` once a backing is leased: the backing after it, and the outcome. -/
def buildInto (input : VersionedBufferBuildInput) (context : VersionedBufferBuildContext)
    (choice : ClassChoice) (allocated : Bool) (backing : Backing) :
    Backing × VersionedBufferBuildOutcome :=
  if input.elementCount * input.elementStride > backing.byteCapacity then
    (backing, .fail "versioned buffer backing smaller than the version's elements")
  else
    match buildImage input with
    | .error error => (backing, .fail error)
    | .ok image =>
      if context.stopRequested₂ then (backing, .cancel)
      else if !backing.buffer then (backing, .fail "versioned buffer backing has no buffer")
      else
        match fill input context image allocated backing with
        | (backing, some error) => (backing, .fail error)
        | (backing, none) =>
          (backing,
            { kind := .ready, version := some (publishedVersion input context choice image backing) })

/-- `BuildVersionedBuffer` on the plain path, exceptions turned into failures. An outcome that is
not `Ready` gives its lease back. `none` when the pool does not have the choice. -/
def buildVersionedBuffer (input : VersionedBufferBuildInput) (context : VersionedBufferBuildContext)
    (pool : BackingSet) (choice : AcquireChoice) (released : List Nat) :
    Option (BackingSet × VersionedBufferBuildOutcome) :=
  if !input.uploadService ∨ input.elementStride = 0 then
    some (pool, .fail "versioned buffer input/upload service/stride missing")
  else if !input.backingPool then some (pool, .fail "versioned buffer input has no backing pool")
  else if context.stopRequested₁ then some (pool, .cancel)
  else
    match chooseClass input context.now with
    | .error error => some (pool, .fail error)
    | .ok cls =>
      let request : BackingRequest :=
        { capacityClass := cls.capacityClass, stride := input.elementStride, flags := input.flags }
      match pool.acquire request choice released with
      | none => none
      | some (pool, .error error) => some (pool, .fail error)
      | some (pool, .ok none) =>
        if context.allocateSuspension then
          some (pool, { kind := .suspended, error := "versioned buffer backing pool exhausted" })
        else
          some (pool, .fail "versioned buffer backing pool exhausted and the caller cannot suspend")
      | some (pool, .ok (some (generation, allocated))) =>
        match pool.find? generation with
        | none => none
        | some leased =>
          let (backing, outcome) := buildInto input context cls allocated leased
          let kept :=
            if outcome.kind = .ready then backing else { backing with leases := backing.leases - 1 }
          some (pool.modify generation fun _ => kept, outcome)

end ModuleServices
