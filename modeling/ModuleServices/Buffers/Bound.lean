import ModuleServices.Buffers.Predecessor
import ModuleServices.Buffers.Publish
import ModuleServices.Pool.Step

/-!
# Uploads into a backing a frame may still read

With `Config::reuseBound` a full class hands out a backing whose `safeAt` the clock has
not reached, and `AcquireInfo::writeAfter` names the point the caller's writes must wait
for. `BoundPool.acquire` is one undisturbed `Acquire`; a `Filling` is one use of a path
that fills the backing it is leased, and `Filling.work` what that queues.
-/

namespace ModuleServices

/-- A pooled backing with what the pool decides its reuse by. -/
structure Held extends Backing where
  safeAt : Nat := 0
  readbackPins : Nat := 0
  bindingConsumers : Nat := 0

/-- The backing as the pool's selection reads it. -/
def Held.pooled (held : Held) : Pool.Backing :=
  { key := { stride := held.stride, flags := held.flags, compatibility := held.compatibility }
    capacityClass := held.capacityClass
    contentEpoch := held.contentEpoch
    safeAt := held.safeAt
    leases := held.leases
    retired := held.retired
    readbackPins := held.readbackPins
    bindingConsumers := held.bindingConsumers }

/-- A backing as `Acquire` hands it out: back in circulation, with one more lease. -/
def Held.lease (held : Held) : Held := { held with retired := false, leases := held.leases + 1 }

/-- `AcquireInfo`. -/
structure AcquireInfo where
  allocated : Bool := false
  released : Nat := 0
  writeAfter : Nat := 0
  deriving DecidableEq, Repr

structure BoundPool where
  config : Pool.Config := {}
  all : List Held := []
  free : List Held := []
  /-- The clock's completed point. -/
  completed : Nat := 0

inductive Acquisition where
  | leased (held : Held) (info : AcquireInfo)
  | exhausted
  | throws (error : String)

namespace BoundPool

variable (pool : BoundPool) (request : BackingRequest)

/-- `sameClass`: the free backings of the request's key and class that are reusable now. -/
def sameClass : List Held :=
  pool.free.filter fun held =>
    Pool.fits held.pooled request && Pool.reusable held.pooled pool.completed

/-- The reusable free backings of the key's other classes. -/
def otherClasses : List Held :=
  pool.free.filter fun held =>
    held.pooled.key == Pool.keyOf request && held.capacityClass != request.capacityClass
      && Pool.reusable held.pooled pool.completed

/-- `Config::maxPerClass` reached for the request's class. -/
def Full : Prop :=
  pool.config.maxPerClass ≠ 0
    ∧ pool.config.maxPerClass ≤ (pool.all.filter fun held => Pool.fits held.pooled request).length

instance : Decidable (pool.Full request) := inferInstanceAs (Decidable (_ ∧ _))

/-- The selection loop of `reuseBound`: the lowest `safeAt` among those without lease, pin or
consumer. -/
def betterBound (bound : Option Held) (held : Held) : Option Held :=
  if !Pool.fits held.pooled request || held.leases != 0 || held.readbackPins != 0
      || held.bindingConsumers != 0 then bound
  else
    match bound with
    | none => some held
    | some best => if held.safeAt < best.safeAt then some held else some best

/-- The backing `reuseBound` takes, when it takes one: nothing of the class is reusable, the class
is full, and one is held back by the clock alone. -/
def boundTaken : Option Held :=
  if pool.sameClass request = [] ∧ pool.Full request ∧ pool.config.reuseBound = true then
    pool.free.foldl (betterBound request) none
  else none

/-- `Acquire`. The allocation hook gives a buffer, or throws. -/
def acquire (preferEpoch : Nat) (allocation : Except String Bool) : Acquisition :=
  let sorted := (pool.sameClass request).insertionSort fun a b =>
    Pool.nearer preferEpoch b.contentEpoch a.contentEpoch = false
  let released := (pool.otherClasses request).length + (sorted.length - 1 - pool.config.spareFree)
  match sorted with
  | chosen :: _ => .leased chosen.lease { released }
  | [] =>
    match pool.boundTaken request with
    | some bound => .leased bound.lease { released, writeAfter := bound.safeAt }
    | none =>
      if pool.Full request then .exhausted
      else
        match allocation with
        | .error error => .throws error
        | .ok buffer =>
          .leased
            { generation := 0
              buffer
              capacityClass := request.capacityClass
              byteCapacity := request.byteCapacity
              stride := request.stride
              flags := request.flags
              compatibility := request.compatibility
              leases := 1
              contents := fun _ => 0 }
            { allocated := true, released }

end BoundPool

/-! ## The paths that fill a leased backing -/

/-- `VersionFill`: where it goes and how many bytes its segments have; whether the uploader takes it. -/
structure VersionFill where
  offset : Nat
  bytes : Nat
  accepted : Bool := true
  deriving DecidableEq, Repr

/-- `VersionGrowthRequest`. -/
structure VersionGrowthRequest where
  buffer : Bool := true
  pool : Bool := true
  elements : Nat := 0
  bytes : Nat := 0
  capacityClass : Nat := 0
  stride : Nat := 0
  flags : BackingFlags := {}
  compatibility : Nat := 0
  fills : List VersionFill := []
  /-- What `contentsOf` replaces the fills by; `none` when there is no such callback. -/
  contentsOf : Option (Except String (List VersionFill)) := none
  uploads : Bool := true
  /-- `GetBufferSize` of the version made. -/
  bufferSize : Nat := 0
  deriving Repr

/-- One use of a path that leases a pooled backing and fills it. -/
inductive Filling where
  /-- The plain path, with the uploader's answer for each range. -/
  | build (input : VersionedBufferBuildInput) (context : VersionedBufferBuildContext)
      (accepts : DirtyRange → Bool)
  | predecessor (input : PredecessorInput) (context : PredecessorContext)
      (emitDelta : Except String (List DeltaWrite))
  /-- A part of a publication that appends into nothing. -/
  | publish (part : Journaled.Part) (request : Journaled.Request)
  | grow (request : VersionGrowthRequest)

/-- The plain path's ranges up to the first that is not queued. -/
def uploadsQueued (image : BufferImage) (stray : Nat → Byte) (accepts : DirtyRange → Bool)
    (ranges : List DirtyRange) : List DirtyRange :=
  ranges.takeWhile fun range =>
    (gather image stray range.size range.size range.offset).isSome && accepts range

/-- The ranges the plain path goes to queue into the backing. -/
def plainRanges (input : VersionedBufferBuildInput) (context : VersionedBufferBuildContext)
    (allocated : Bool) (backing : Backing) : Option (BufferImage × List DirtyRange) :=
  if input.elementCount * input.elementStride > backing.byteCapacity then none
  else
    match buildImage input with
    | .ok (some image) =>
      if context.stopRequested₂ ∨ backing.buffer = false ∨ backing.retired = true then none
      else if needsInitialContent input ∧ image.byteSize ≠ 0 then
        some (image, uploadRanges input image backing allocated)
      else none
    | _ => none

/-- The class `BuildVersionedBuffer` asks its pool for, once its checks pass. -/
def buildRequest (input : VersionedBufferBuildInput) (context : VersionedBufferBuildContext) :
    Option BackingRequest :=
  match chooseClass input context.now with
  | .error _ => none
  | .ok cls =>
    some { capacityClass := cls.capacityClass, stride := input.elementStride, flags := input.flags }

/-- `MakeAndFill`'s request, once its checks pass. -/
def VersionGrowthRequest.backing (request : VersionGrowthRequest) : Option BackingRequest :=
  let capacityClass :=
    if request.capacityClass ≠ 0 then request.capacityClass
    else if request.elements ≠ 0 then request.elements
    else request.bytes
  if !request.buffer ∨ !request.pool ∨ capacityClass = 0
      ∨ (request.elements ≠ 0 ∧ request.stride = 0) then none
  else
    some { capacityClass, stride := request.stride, flags := request.flags
           compatibility := request.compatibility }

/-- `MakeAndFill`'s loop: the fills queued before it ends or throws. -/
def fillsQueued (size : Nat) : List VersionFill → List VersionFill
  | [] => []
  | fill :: fills =>
    if fill.bytes = 0 then fillsQueued size fills
    else if (fill.offset + fill.bytes) % 2 ^ 64 > size ∨ !fill.accepted then []
    else fill :: fillsQueued size fills

/-- The contents of the version made: the request's fills, or those `contentsOf` sets. -/
def VersionGrowthRequest.contents (request : VersionGrowthRequest) : List VersionFill :=
  match request.contentsOf with
  | none => request.fills
  | some (.ok fills) => fills
  | some (.error _) => []

/-- The fills `MakeAndFill` queues. -/
def VersionGrowthRequest.queued (request : VersionGrowthRequest) (backing : Backing) :
    List VersionFill :=
  if backing.buffer = false ∨ request.uploads = false then []
  else fillsQueued request.bufferSize request.contents

/-- A set's world with the leased backing alone, for a part's emit to write into. -/
def Journaled.World.leased (held : Held) : Journaled.World :=
  { parts := []
    next := 1
    backing := fun _ =>
      { stride := held.stride
        flags := held.flags
        capacityClass := held.capacityClass
        byteCapacity := held.byteCapacity
        buffer := held.buffer
        retired := held.retired
        contentEpoch := held.contentEpoch
        leases := held.leases } }

/-- What a part's emit queues into a backing leased for it. -/
def publishWrites (part : Journaled.Part) (request : Journaled.Request) (allocated : Bool)
    (held : Held) : List Journaled.Write :=
  match request.emit with
  | none => []
  | some emit =>
    let w := Journaled.World.leased held
    let version := w.versionOf 0 request.units 0 held.capacityClass part allocated false
    (w.runEmit {} 0 0 false (emit (Journaled.World.targetOf version))).1.writes

namespace Filling

/-- What the path asks the pool for, when it gets that far. -/
def request : Filling → Option BackingRequest
  | .build input context _ =>
    if !input.uploadService ∨ input.elementStride = 0 ∨ !input.backingPool
        ∨ context.stopRequested₁ then none
    else buildRequest input context
  | .predecessor input context _ =>
    if (predecessorRefusal input).isSome ∨ context.stopRequested₁ then none
    else buildRequest input.toVersionedBufferBuildInput context.toVersionedBufferBuildContext
  | .publish part request =>
    match part.config.policy.next part.highWater request.units with
    | .error _ => none
    | .ok capacityClass =>
      if request.emit.isSome then
        some { capacityClass, stride := part.config.stride, flags := part.config.flags }
      else none
  | .grow request => request.backing

/-- How many uploads and copies the path queues into the backing it is leased. The destination it
names for them carries no point to wait for. -/
def queued (held : Held) (info : AcquireInfo) : Filling → Nat
  | .build input context accepts =>
    match plainRanges input context info.allocated held.toBacking with
    | none => 0
    | some (image, ranges) => (uploadsQueued image context.stray accepts ranges).length
  | .predecessor input context emitDelta =>
    let context := { context with writeAfter := info.writeAfter }
    let queued := (predecessorInto input context {} emitDelta info.allocated held.toBacking).2.1
    queued.copies.length + queued.uploads.length
  | .publish part request => (publishWrites part request info.allocated held).length
  | .grow request => (request.queued held.toBacking).length

end Filling

/-- One upload or copy queued into a leased backing. -/
structure Work where
  held : Held
  info : AcquireInfo
  /-- The clock point the queued work waits for; 0 for none. -/
  waitAfter : Nat

/-- What one use of a path queues: nothing before `Acquire` leased it a backing. -/
def Filling.work (filling : Filling) (pool : BoundPool) (preferEpoch : Nat)
    (allocation : Except String Bool) : List Work :=
  match filling.request with
  | none => []
  | some request =>
    match pool.acquire request preferEpoch allocation with
    | .leased held info => List.replicate (filling.queued held info) { held, info, waitAfter := 0 }
    | _ => []

/-- Everything queued goes into a backing the clock had retired, or carries the point to wait for. -/
def UploadsRetired (pool : BoundPool) (work : List Work) : Prop :=
  ∀ entry ∈ work, entry.held.safeAt ≤ pool.completed ∨ entry.waitAfter = entry.info.writeAfter

/-! ## When a path sends anything into a backing -/

/-- An emit comes to a write the sink takes. -/
def Journaled.Emit.sends (backing : Journaled.Backing) : Journaled.Emit → Prop
  | .returns _ => False
  | .throws _ => False
  | .write ranges accepted next caught =>
    match Journaled.checkRanges backing 0 ranges with
    | .error error => (caught error).sends backing
    | .ok () =>
      if (ranges.filter fun range => decide (range.size ≠ 0)) = [] then next.sends backing
      else if backing.buffer = false then
        (caught "JournaledSink: the backing has no buffer").sends backing
      else if backing.retired = true then
        (caught "JournaledSink: the backing was retired before its write").sends backing
      else if accepted = false then
        (caught "JournaledSink: the uploader refused a write").sends backing
      else True

/-- The path has something to send into the backing, taken in its still bound state, and the uploader
takes the first of it. -/
def Filling.Sends (held : Held) : Filling → Prop
  | .build input context accepts =>
    ∃ image range ranges, plainRanges input context false held.toBacking = some (image, range :: ranges)
      ∧ (gather image context.stray range.size range.size range.offset).isSome = true
      ∧ accepts range = true
  | .predecessor _ _ _ => False
  | .publish part request =>
    ∃ emit, request.emit = some emit
      ∧ (emit (Journaled.World.targetOf ((Journaled.World.leased held).versionOf 0 request.units 0
        held.capacityClass part false false))).sends ((Journaled.World.leased held).backing 0)
  | .grow request =>
    held.buffer = true ∧ request.uploads = true
      ∧ ∃ fill, request.contents.find? (fun fill => fill.bytes != 0) = some fill
        ∧ (fill.offset + fill.bytes) % 2 ^ 64 ≤ request.bufferSize ∧ fill.accepted = true

end ModuleServices
