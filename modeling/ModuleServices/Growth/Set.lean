import ModuleServices.Growth.Elastic
import ModuleServices.Growth.Extent

/-!
# `GrowableBufferSet`: its data, registration and settled batches

Growable buffers that one sealed set names. A registered buffer has a slot, by its handle; the slot
holds the newest ready version of the buffer and what the growth in flight asks for it. A buffer is
held weakly: it is a place in `buffers`, the buffers the process made so far, and a dead one no
longer locks. Serials are one sequence for the whole process.
-/

namespace ModuleServices.Growth

/-- `BufferVersion` with its buffer. `address` is what the host's `addressOf` answers for it. -/
structure BufferVersion where
  id : Nat
  size : Nat
  srv : Option Nat := none
  address : Nat := 0
  deriving DecidableEq, Repr

structure VersionedBuffer where
  key : Nat
  current : Option BufferVersion := none
  live : Bool := true
  deriving DecidableEq, Repr

/-- `weak_ptr::lock`. -/
def lock (buffers : List VersionedBuffer) (buffer : Nat) : Option VersionedBuffer :=
  buffers[buffer]?.filter (·.live)

inductive GrowableContents where
  | fresh
  | zero
  | capture
  deriving DecidableEq, Repr

/-- A pool, and a capture, by its number. -/
structure GrowableRegistration where
  name : String
  extent : BufferExtent
  policy : GrowthPolicy := .doublingPolicy
  shrink : ShrinkPolicy := {}
  contents : GrowableContents := .fresh
  capture : Option Nat := none
  address : Bool := false
  pool : Option Nat := none
  deriving DecidableEq, Repr

structure LatchRegistration where
  name : String
  slots : Nat
  policy : GrowthPolicy := { kind := .headroom, percent := 0, minimum := 1 }
  deriving DecidableEq, Repr

structure LatchBlock where
  id : Nat
  stride : Nat
  slots : Nat
  deriving DecidableEq, Repr

structure NamedEntry where
  version : Option BufferVersion := none
  serial : Nat := 0
  units : Nat := 0
  bytes : Nat := 0
  deviceAddress : Nat := 0
  srvIndex : Nat := 0
  contentsStamp : Option Nat := none
  lease : Option Nat := none
  deriving DecidableEq, Repr

/-! ## `NamedVersions` -/

structure NamedVersions where
  serial : Nat
  entries : List NamedEntry
  buffers : List (Option Nat)
  byKey : List (Nat × Nat)
  latches : List (Option LatchBlock)
  deriving DecidableEq, Repr

namespace NamedVersions

variable (named : NamedVersions)

/-- `IndexOf`: the first entry of the sorted table that is not below the key. -/
def indexOf (key : Nat) : Option Nat :=
  match named.byKey.find? fun entry => !decide (entry.1 < key) with
  | some entry => if entry.1 = key then some entry.2 else none
  | none => none

/-- `Names(handle)`. -/
def names (handle : Nat) : Bool := (named.entries.getD handle {}).version.isSome

/-- `Of(handle)`. -/
def of (handle : Nat) : Except String NamedEntry :=
  if named.names handle then .ok (named.entries.getD handle {})
  else .error "NamedVersions: the set names no version of this buffer"

/-- `Of(buffer)`. -/
def ofBuffer (buffer : VersionedBuffer) : Except String NamedEntry :=
  match named.indexOf buffer.key with
  | some index => .ok (named.entries.getD index {})
  | none => .error "NamedVersions: the set names no version of this buffer"

/-- `Find`. -/
def find (buffer : VersionedBuffer) : Option BufferVersion :=
  (named.indexOf buffer.key).bind fun index => (named.entries.getD index {}).version

/-- `Latch`. -/
def latch (handle : Nat) : Option LatchBlock := named.latches.getD handle none

/-- One entry of `AdoptAll`: a live buffer makes the version current. -/
def adopt (buffers : List VersionedBuffer) (entry : NamedEntry × Option Nat) :
    List VersionedBuffer :=
  match entry.1.version, entry.2 with
  | some version, some buffer =>
    buffers.modify buffer fun held => if held.live then { held with current := some version } else held
  | _, _ => buffers

/-- `AdoptAll`, on the buffers of the process. -/
def adoptAll (buffers : List VersionedBuffer) : List VersionedBuffer :=
  (named.entries.zip named.buffers).foldl adopt buffers

end NamedVersions

/-! ## What a build asks -/

/-- No handle: `UINT32_MAX`. -/
def noHandle : Nat := kMax32

def GrowableRequirement.merge (required other : GrowableRequirement) : GrowableRequirement where
  units := max required.units other.units
  newerThan := max required.newerThan other.newerThan

structure LatchAsk where
  asked : Bool := false
  bytes : Nat := 0
  layoutKey : Nat := 0
  deriving DecidableEq, Repr

/-- `vector::resize`, where it grows. -/
def resize {α : Type} (entries : List α) (size : Nat) (fill : α) : List α :=
  entries ++ List.replicate (size - entries.length) fill

structure Build where
  required : List GrowableRequirement := []
  latches : List LatchAsk := []
  deriving DecidableEq, Repr

/-- A call of `Require` or `RequireNewer`. -/
inductive Ask where
  | units (handle units : Nat)
  | newer (handle serial : Nat)
  | latch (handle bytes layoutKey : Nat)
  deriving DecidableEq, Repr

namespace Build

def requiredAt (build : Build) (handle : Nat) : GrowableRequirement := build.required.getD handle {}

def latchAt (build : Build) (handle : Nat) : LatchAsk := build.latches.getD handle {}

/-- The ask merged into the buffer's requirement. -/
def merge (build : Build) (handle : Nat) (required : GrowableRequirement) :
    Except String Build :=
  if handle = noHandle then .error "GrowableBufferSet: a requirement without a buffer"
  else .ok { build with
    required := (resize build.required (handle + 1) {}).modify handle (·.merge required) }

/-- `Require(LatchHandle)`. -/
def requireLatch (build : Build) (handle bytes layoutKey : Nat) : Except String Build :=
  if handle = noHandle then .error "GrowableBufferSet: a requirement without a latch"
  else
    let ask := build.latchAt handle
    if ask.asked ∧ ask.layoutKey ≠ layoutKey then
      .error "GrowableBufferSet: one latch asked with two layouts"
    else .ok { build with
      latches := (resize build.latches (handle + 1) {}).set handle
        { asked := true, bytes := max ask.bytes bytes, layoutKey } }

/-- One call. -/
def ask (build : Build) : Ask → Except String Build
  | .units handle units => build.merge handle { units }
  | .newer handle serial => build.merge handle { newerThan := serial }
  | .latch handle bytes layoutKey => build.requireLatch handle bytes layoutKey

/-- The build after all its calls. -/
def after (build : Build) : List Ask → Except String Build
  | [] => .ok build
  | first :: rest =>
    match build.ask first with
    | .ok build => build.after rest
    | .error what => .error what

end Build

/-! ## The set -/

structure Slot where
  registration : Option GrowableRegistration := none
  buffer : Nat := 0
  key : Nat := 0
  current : NamedEntry := {}
  asked : Nat := 0
  made : Bool := false
  window : ShrinkWindow := {}
  deriving DecidableEq, Repr

structure LatchSlot where
  registration : Option LatchRegistration := none
  block : Option LatchBlock := none
  layoutKey : Nat := 0
  deriving DecidableEq, Repr

/-- A registration not yet taken by the producer. -/
inductive Registered where
  | buffer (index : Nat) (registration : GrowableRegistration) (versioned key : Nat)
  | latch (index : Nat) (registration : LatchRegistration)
  deriving DecidableEq, Repr

inductive Batch.State where
  | pending
  | ready (versions : List BufferVersion) (leases : List Nat)
  | failed (error : String)
  deriving DecidableEq, Repr

/-- `asks` has the batch's slots, by request, with the units each was asked for; `posted` says that
the host took the work, and so will call its `done`. -/
structure Batch where
  asks : List (Nat × Nat)
  stamps : List (Option Nat)
  state : Batch.State := .pending
  posted : Bool := true
  deriving DecidableEq, Repr

structure GrowableBufferSetHooks where
  addressOf : Bool := false
  pool : Option Nat := none
  deriving DecidableEq, Repr

/-- An entry as it was made, for a handle: of a version the set grew, or of the owner's first. -/
structure Entered where
  handle : Nat
  entry : NamedEntry
  grown : Bool
  deriving DecidableEq, Repr

/-- `serials` is the process's sequence and `blocks` numbers the latch blocks made. `entered` is
not in the program: every entry made so far, newest first. -/
structure GrowableBufferSet where
  hooks : GrowableBufferSetHooks := {}
  registered : List Registered := []
  nextHandle : Nat := 0
  nextLatch : Nat := 0
  slots : List Slot := []
  latchSlots : List LatchSlot := []
  handles : List (Nat × Nat) := []
  batch : Option Batch := none
  changed : Bool := true
  last : Option NamedVersions := none
  failure : String := ""
  serials : Nat := 0
  blocks : Nat := 0
  entered : List Entered := []
  deriving DecidableEq, Repr

/-- `std::pair`'s order. -/
def pairLE (a b : Nat × Nat) : Bool := decide (a.1 < b.1) || (a.1 == b.1 && decide (a.2 ≤ b.2))

namespace GrowableBufferSet

variable (buffers : List VersionedBuffer) (set : GrowableBufferSet)

def slot (handle : Nat) : Slot := set.slots.getD handle {}

def latchSlot (handle : Nat) : LatchSlot := set.latchSlots.getD handle {}

def modifySlot (handle : Nat) (f : Slot → Slot) : GrowableBufferSet :=
  { set with slots := set.slots.modify handle f }

/-- `Register` of a buffer, up to the node it pushes. -/
def register (registration : GrowableRegistration) (buffer : Option Nat) :
    Except String (Registered × GrowableBufferSet) :=
  match buffer with
  | none => .error ("GrowableBufferSet: " ++ registration.name ++ " has no buffer")
  | some buffer =>
    if registration.extent.unitBytes = 0 then
      .error ("GrowableBufferSet: " ++ registration.name ++ " has no unit size")
    else if registration.contents = .capture ∧ registration.capture = none then
      .error ("GrowableBufferSet: " ++ registration.name ++ " captures without a capture")
    else
      let pool := registration.pool.or set.hooks.pool
      if pool = none then
        .error ("GrowableBufferSet: " ++ registration.name
          ++ " has no pool (neither its own nor the set's)")
      else
        let key := set.serials + 1
        .ok (.buffer set.nextHandle { registration with pool } buffer key,
          { set with nextHandle := set.nextHandle + 1, serials := key })

/-- `Register` of a latch, up to the node it pushes. -/
def registerLatch (registration : LatchRegistration) :
    Except String (Registered × GrowableBufferSet) :=
  if registration.slots = 0 then
    .error ("GrowableBufferSet: latch " ++ registration.name ++ " has no slots")
  else .ok (.latch set.nextLatch registration, { set with nextLatch := set.nextLatch + 1 })

/-- `EntryOf`. -/
def entryOf (registration : GrowableRegistration) (version : BufferVersion)
    (stamp lease : Option Nat) : NamedEntry where
  version := some version
  serial := set.serials + 1
  bytes := version.size
  units := registration.extent.unitsIn version.size
  srvIndex := version.srv.getD 0
  deviceAddress := if registration.address && set.hooks.addressOf then version.address else 0
  contentsStamp := stamp
  lease := lease

/-- `slot.current = EntryOf(..)`: an empty entry where there is no version. -/
def enter (handle : Nat) (registration : GrowableRegistration) (version : Option BufferVersion)
    (stamp lease : Option Nat) (grown : Bool) : GrowableBufferSet :=
  match version with
  | none => set.modifySlot handle fun slot => { slot with current := {} }
  | some version =>
    let entry := set.entryOf registration version stamp lease
    { set.modifySlot handle fun slot => { slot with current := entry } with
      serials := set.serials + 1
      entered := { handle, entry, grown } :: set.entered }

/-- A taken registration in its slot, its entry apart. -/
def place (index : Nat) (registration : GrowableRegistration) (versioned key : Nat) :
    GrowableBufferSet :=
  { set with slots := (resize set.slots (index + 1) {}).modify index fun slot =>
    { slot with registration := some registration, buffer := versioned, key, made := false } }

/-- One node of `TakeRegistered`. -/
def take (set : GrowableBufferSet) : Registered → GrowableBufferSet
  | .buffer index registration versioned key =>
    let placed := set.place index registration versioned key
    match lock buffers versioned with
    | none => { placed with changed := true }
    | some buffer =>
      { placed.enter index registration buffer.current none none false with
        handles := set.handles.orderedInsert (pairLE · ·) (buffer.key, index)
        changed := true }
  | .latch index registration =>
    { set with
      latchSlots := (resize set.latchSlots (index + 1) {}).modify index fun slot =>
        { slot with registration := some registration }
      changed := true }

/-- `TakeRegistered`. -/
def takeRegistered : GrowableBufferSet :=
  set.registered.foldl (take buffers) { set with registered := [] }

/-- `HandleOf`. -/
def handleOf (buffer : VersionedBuffer) : Except String Nat × GrowableBufferSet :=
  let set := set.takeRegistered buffers
  match set.handles.find? fun entry => !decide (entry.1 < buffer.key) with
  | some entry =>
    if entry.1 = buffer.key then (.ok entry.2, set)
    else (.error "GrowableBufferSet: a buffer not in the set", set)
  | none => (.error "GrowableBufferSet: a buffer not in the set", set)

/-- What `Settle` does with the slot of one request. -/
def settleSlot (batch : Batch) (set : GrowableBufferSet) (request : (Nat × Nat) × Nat) :
    GrowableBufferSet :=
  let handle := request.1.1
  let cleared := set.modifySlot handle fun slot => { slot with asked := 0 }
  match batch.state with
  | .ready versions leases =>
    match (set.slot handle).registration with
    | some registration =>
      let grown := cleared.enter handle registration versions[request.2]?
        (batch.stamps.getD request.2 none) leases[request.2]? true
      { grown.modifySlot handle fun slot => { slot with made := true } with changed := true }
    | none => cleared
  | _ => cleared

/-- `Settle`. -/
def settle : GrowableBufferSet :=
  match set.batch with
  | none => set
  | some batch =>
    match batch.state with
    | .pending => set
    | .ready _ _ => { batch.asks.zipIdx.foldl (settleSlot batch) set with batch := none }
    | .failed error =>
      { batch.asks.zipIdx.foldl (settleSlot batch) set with failure := error, batch := none }

/-- A slot whose buffer has expired. -/
def expired (slot : Slot) : Bool :=
  slot.registration.isSome && (lock buffers slot.buffer).isNone

/-- `Begin`'s last loop: an expired buffer leaves the set. -/
def leave : GrowableBufferSet :=
  { set with
    slots := set.slots.map fun slot => if expired buffers slot then {} else slot
    handles := set.handles.filter fun handle => !expired buffers (set.slot handle.2)
    changed := set.changed || set.slots.any (expired buffers) }

/-- `Begin`. -/
def begin : GrowableBufferSet := ((set.takeRegistered buffers).settle).leave buffers

/-- `Build::Units`. -/
def units (handle : Nat) : Nat := (set.slot handle).current.units

/-- `Build::Serial`. -/
def serial (handle : Nat) : Nat := (set.slot handle).current.serial

/-- `Build::Asked`. -/
def asked (build : Build) (handle : Nat) : Nat :=
  max (build.requiredAt handle).units (set.slot handle).asked

end GrowableBufferSet

end ModuleServices.Growth
