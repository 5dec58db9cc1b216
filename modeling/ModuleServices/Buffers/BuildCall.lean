import ModuleServices.Buffers.Predecessor

/-!
# One call of `BuildVersionedBuffer`

Both paths with everything they call left open: the stop request may turn true at any of its
calls, the pool may hand out any backing, and whatever the caller, the pool or the uploader
supplies may throw. `EStateM` keeps the state on an exception, so what a call has done to the
backing it leased stays done whichever way it ends.

What the builds compute between those calls is `Build`'s and `Predecessor`'s. Memory does not
run out.
-/

namespace ModuleServices

/-- The input with what only the predecessor path reads, callbacks that may throw included. -/
structure BuildCallInput extends VersionedBufferBuildInput where
  /-- What `emitDelta` sends, or what it throws; `none` when there is no emitter. -/
  emitDelta : Option (Except String (List DeltaWrite)) := none
  /-- `changedSince`'s answer for a journal position. -/
  changedSince : Option (Nat → Except String (Option (List BufferByteRange))) := none
  /-- The predecessor's backing belongs to another pool. -/
  previousElsewhere : Bool := false

/-- The input as the checks before the pool see it. -/
def BuildCallInput.checked (input : BuildCallInput) : PredecessorInput :=
  { input.toVersionedBufferBuildInput with emitDelta := input.emitDelta }

/-- A backing `Acquire` handed out, with its `AcquireInfo`. -/
structure Acquired where
  backing : Backing
  allocated : Bool
  writeAfter : Nat := 0

/-- What a build hands to the uploader. -/
inductive QueuedWrite where
  | segments (dstOffset : Nat) (bytes : List Byte)
  | copyRanges (copies : List StreamingCopyRange)
  | uploadRanges (uploads : List StreamingUploadRange)
  deriving DecidableEq, Repr

/-- What the uploader makes of a write; one that throws may have queued it before. -/
inductive UploadAnswer where
  | ticket
  | refused
  | throws (error : String) (queued : Bool)
  deriving DecidableEq, Repr

/-- What a build calls: by how many calls came before, what each answers or throws. -/
structure BuildCallees where
  revision : Nat := 0
  now : Int := 0
  stray : Nat → Byte := fun _ => 0
  stopRequested : Option (Nat → Except String Bool) := none
  allocateSuspension : Option (Except String Unit) := none
  notifySuspension : Bool := false
  subscribeAvailability : Except String Unit := .ok ()
  acquire : BackingRequest → Nat → Except String (Option Acquired)
  retired : Nat → Bool := fun _ => false
  queue : Nat → QueuedWrite → UploadAnswer

structure BuildState where
  /-- Calls made of `stopRequested`, looks at `retired`, and calls of the uploader. -/
  asked : Nat := 0
  looked : Nat := 0
  uploads : Nat := 0
  /-- The backing as `Acquire` handed it out, and as it is now. -/
  acquired : Option Backing := none
  leased : Option Backing := none
  /-- What the uploader has taken. -/
  queued : List QueuedWrite := []

abbrev BuildM := EStateM String BuildState

namespace BuildCallees

variable (callees : BuildCallees)

/-- A callee's value, or its exception. -/
def call {α : Type} : Except String α → BuildM α
  | .ok value => pure value
  | .error error => throw error

/-- `stopped`. -/
def stopped : BuildM Bool := do
  match callees.stopRequested with
  | none => return false
  | some stopRequested =>
    let s ← get
    set { s with asked := s.asked + 1 }
    call (stopRequested s.asked)

/-- `BackingPool::Acquire`. -/
def lease (request : BackingRequest) (preferEpoch : Nat) : BuildM (Option Acquired) := do
  match ← call (callees.acquire request preferEpoch) with
  | none => return none
  | some acquired =>
    modify fun s => { s with acquired := some acquired.backing, leased := some acquired.backing }
    return some acquired

/-- `backing.retired`. -/
def isRetired : BuildM Bool := do
  let s ← get
  set { s with looked := s.looked + 1 }
  return callees.retired s.looked

/-- A call of the uploader: whether it gave a ticket. -/
def enqueue (write : QueuedWrite) : BuildM Bool := do
  let s ← get
  set { s with uploads := s.uploads + 1 }
  match callees.queue s.uploads write with
  | .ticket =>
    modify fun s => { s with queued := s.queued ++ [write] }
    return true
  | .refused => return false
  | .throws error queued =>
    if queued then modify fun s => { s with queued := s.queued ++ [write] }
    throw error

/-- `Forget`, of the backing leased. -/
def forget : BuildM Unit := modify fun s => { s with leased := s.leased.map Backing.forget }

/-- The backing takes the version's position, and its image on the plain path. -/
def settle (writeSequence : Nat) (image : Option BufferImage) : BuildM Unit :=
  modify fun s =>
    { s with leased := s.leased.map fun b => { b with contentEpoch := writeSequence, image } }

/-- The pool is exhausted: suspend until its availability wakes the graph. -/
def suspend : BuildM VersionedBufferBuildOutcome := do
  match callees.allocateSuspension with
  | none => return .fail "versioned buffer backing pool exhausted and the caller cannot suspend"
  | some suspension =>
    call suspension
    if callees.notifySuspension then call callees.subscribeAvailability
    return { kind := .suspended, error := "versioned buffer backing pool exhausted" }

/-- The loop over the ranges of the plain path: why it stopped early. -/
def uploadAll (image : BufferImage) : List DirtyRange → BuildM (Option String)
  | [] => return none
  | range :: ranges => do
    match gather image callees.stray range.size range.size range.offset with
    | none => return some "versioned buffer paged image does not cover upload range"
    | some bytes =>
      if ← callees.isRetired then
        return some "versioned buffer backing was retired before its upload was queued"
      else if ← callees.enqueue (.segments range.offset bytes) then uploadAll image ranges
      else return some "versioned buffer streaming upload enqueue failed"

/-- The leased backing brought to the image: why it failed. -/
def fillBacking (input : VersionedBufferBuildInput) (image : Option BufferImage)
    (acquired : Acquired) : BuildM (Option String) := do
  match image with
  | none => return none
  | some image =>
    if needsInitialContent input ∧ image.byteSize ≠ 0 then
      let ranges := uploadRanges input image acquired.backing acquired.allocated
      forget
      callees.uploadAll image ranges
    else return none

/-- The body of `Build` once a backing is leased. -/
def buildInto (input : VersionedBufferBuildInput) (choice : ClassChoice) (acquired : Acquired) :
    BuildM VersionedBufferBuildOutcome := do
  if input.elementCount * input.elementStride % 2 ^ 64 > acquired.backing.byteCapacity then
    return .fail "versioned buffer backing smaller than the version's elements"
  match buildImage input with
  | .error error => return .fail error
  | .ok image =>
    if ← callees.stopped then return .cancel
    if !acquired.backing.buffer then return .fail "versioned buffer backing has no buffer"
    match ← callees.fillBacking input image acquired with
    | some error => return .fail error
    | none =>
      settle input.writeSequence (if input.gpuWritten then none else image)
      return { kind := .ready
               version := some (publishedVersion input { revision := callees.revision } choice
                 image acquired.backing) }

/-- `Build`. -/
def build (input : VersionedBufferBuildInput) : BuildM VersionedBufferBuildOutcome := do
  if !input.uploadService ∨ input.elementStride = 0 then
    return .fail "versioned buffer input/upload service/stride missing"
  if !input.backingPool then return .fail "versioned buffer input has no backing pool"
  if ← callees.stopped then return .cancel
  let choice ← call (chooseClass input callees.now)
  let request : BackingRequest :=
    { capacityClass := choice.capacityClass, stride := input.elementStride, flags := input.flags }
  match ← callees.lease request input.writeSequence with
  | none => callees.suspend
  | some acquired => callees.buildInto input choice acquired

/-- What the backing lacks of the predecessor: what `changedSince` answers, or all of it. -/
def missingBytes (input : BuildCallInput) (previous : PublishedBufferVersion) (acquired : Acquired)
    (usedBytes : Nat) : BuildM (List HalfOpen) := do
  let copyLimit := min previous.usedBytes usedBytes
  let held := acquired.backing.contentEpoch
  if acquired.allocated ∨ held = 0 ∨ held > previous.writeSequence
      ∨ acquired.backing.capacityClass ≠ previous.capacity then
    return Intervals.add [] 0 copyLimit
  else if held = previous.writeSequence then return []
  else
    match input.changedSince with
    | none => return Intervals.add [] 0 copyLimit
    | some changedSince =>
      match ← call (changedSince held) with
      | none => return Intervals.add [] 0 copyLimit
      | some changed => return missingFrom copyLimit changed

/-- The batch of a delta already resolved, or why there is none. -/
def batch (input : BuildCallInput) (acquired : Acquired) (usedBytes : Nat)
    (writes : List DeltaWrite) : BuildM (Except String Queued) := do
  let (delta, uploads) := resolveDelta writes
  let uploads := uploads.insertionSort fun a b => a.dstOffset ≤ b.dstOffset
  match input.previous with
  | some previous =>
    let missing ← missingBytes input previous acquired usedBytes
    return .ok { copies := copyRanges missing delta, uploads }
  | none =>
    if usedBytes ≠ 0 ∧ delta ≠ [⟨0, usedBytes⟩] then
      return .error "versioned buffer delta without a predecessor does not cover the version"
    else return .ok { uploads }

/-- Queue the batch, the copies first: why it failed. -/
def enqueueBatch (queued : Queued) : BuildM (Option String) := do
  let copied ←
    if queued.copies = [] then pure true else callees.enqueue (.copyRanges queued.copies)
  if !copied then
    return some "versioned buffer predecessor copy enqueue failed (the upload service cannot copy)"
  let uploaded ←
    if queued.uploads = [] then pure true else callees.enqueue (.uploadRanges queued.uploads)
  if !uploaded then return some "versioned buffer streaming upload enqueue failed"
  return none

/-- The body of `BuildFromPredecessor` once a backing is leased. -/
def predecessorInto (input : BuildCallInput) (choice : ClassChoice)
    (emitDelta : Except String (List DeltaWrite)) (acquired : Acquired) :
    BuildM VersionedBufferBuildOutcome := do
  let usedBytes := input.elementCount * input.elementStride
  if acquired.writeAfter ≠ 0 then
    return .fail "versioned buffer predecessor copy needs a pool without reuseBound"
  if !acquired.backing.buffer then return .fail "versioned buffer backing has no buffer"
  if !input.previousElsewhere ∧ input.previous.any
      (fun previous => previous.backingEpoch == acquired.backing.generation) then
    return .fail "versioned buffer predecessor copy leased its predecessor's backing"
  if usedBytes > acquired.backing.byteCapacity then
    return .fail "versioned buffer backing smaller than the version's used bytes"
  match deltaWrites usedBytes (← call emitDelta) with
  | none => return .fail "versioned buffer delta write outside the version's bytes"
  | some writes =>
    if ← callees.stopped then return .cancel
    match ← batch input acquired usedBytes writes with
    | .error error => return .fail error
    | .ok queued =>
      if ← callees.stopped then return .cancel
      forget
      if ← callees.isRetired then
        return .fail "versioned buffer backing was retired before its upload was queued"
      match ← callees.enqueueBatch queued with
      | some error => return .fail error
      | none =>
        settle input.writeSequence none
        return { kind := .ready
                 version := some (predecessorVersion input.checked
                   { revision := callees.revision } choice acquired.backing) }

/-- `BuildFromPredecessor`. -/
def buildFromPredecessor (input : BuildCallInput) : BuildM VersionedBufferBuildOutcome := do
  match predecessorRefusal input.checked, input.emitDelta with
  | some error, _ => return .fail error
  | none, none => return .fail "versioned buffer predecessor copy has no emitDelta"
  | none, some emitDelta =>
    if ← callees.stopped then return .cancel
    let choice ← call (chooseClass input.toVersionedBufferBuildInput callees.now)
    let request : BackingRequest :=
      { capacityClass := choice.capacityClass, stride := input.elementStride, flags := input.flags }
    let preferEpoch := match input.previous with
      | some previous => previous.writeSequence
      | none => input.writeSequence
    match ← callees.lease request preferEpoch with
    | none => callees.suspend
    | some acquired => callees.predecessorInto input choice emitDelta acquired

/-- `BuildVersionedBuffer`: an exception is a failure with its text. -/
def buildVersionedBuffer (input : BuildCallInput) : BuildM VersionedBufferBuildOutcome :=
  tryCatch
    (if input.predecessorCopy then callees.buildFromPredecessor input
    else callees.build input.toVersionedBufferBuildInput)
    fun error => return .fail error

end BuildCallees

end ModuleServices
