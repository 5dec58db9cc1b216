import ModuleServices.Buffers.Version
import ModuleServices.Lib.Run
import Mathlib.Data.List.Basic

/-!
# `JournaledBufferSet`: parts published together

A publication goes over the parts in order: each present part leases a backing of its
pool, or appends into a head its caller holds a lease of, and its emit writes through a
sink. Which free backing `Acquire` hands out, the uploader's answers and the leases other
threads let go between the parts are the environment's choices, carried by the request.
An emit is the tree of the writes it makes, with what it does when one throws.
-/

namespace ModuleServices.Journaled

structure PartConfig where
  name : String
  stride : Nat := 0
  flags : BackingFlags := {}
  policy : GrowthPolicy := { minimum := 64 }
  deriving DecidableEq, Repr

/-- `PartState`; the pool's backings are the world's. -/
structure Part where
  config : PartConfig
  highWater : Nat := 0
  deriving DecidableEq, Repr

/-- A pooled backing, as a publication sees it. -/
structure Backing where
  /-- The part whose pool holds it. -/
  part : Nat := 0
  stride : Nat := 0
  flags : BackingFlags := {}
  capacityClass : Nat := 0
  byteCapacity : Nat := 0
  address : Nat := 0
  srvIndex : Nat := 0
  buffer : Bool := true
  retired : Bool := false
  contentEpoch : Nat := 0
  sealedBytes : Nat := 0
  leases : Nat := 0
  /-- How often it was leased for a fresh fill. -/
  fills : Nat := 0
  deriving DecidableEq, Repr

/-- `JournaledTarget`. -/
structure Target where
  contentEpoch : Nat := 0
  address : Nat := 0
  srvIndex : Nat := 0
  capacityUnits : Nat := 0
  allocated : Bool := false
  deriving DecidableEq, Repr

/-- A byte range of one sink write. -/
structure WriteRange where
  offset : Nat
  size : Nat
  deriving DecidableEq, Repr

/-- What an emit does: its writes in order, each with the uploader's answer should it be asked,
what follows it, and what follows when the write throws. -/
inductive Emit where
  | returns (contentEpoch : Nat)
  | throws (error : String)
  | write (ranges : List WriteRange) (accepted : Bool) (next : Emit) (caught : String → Emit)

/-- What `Acquire` does. -/
inductive Acquired where
  | reuse (backing : Nat)
  | allocate (buffer : Bool) (address srvIndex : Nat)
  | exhausted
  | throws (error : String)
  deriving DecidableEq, Repr

/-- `JournaledPartRequest`, and what the environment does for the part. -/
structure Request where
  units : Nat := 0
  emit : Option (Target → Emit) := none
  /-- The published version whose lease the head is a copy of. -/
  appendInto : Option Nat := none
  acquired : Acquired := .exhausted
  /-- The published versions a lease of which goes, on other threads, before the part. -/
  releases : List Nat := []

/-- One part of a publication: the leased backing and what was sent into it. -/
structure Version where
  part : Nat
  backing : Nat
  /-- The backing's fill it was written in. -/
  fill : Nat
  stride : Nat
  address : Nat := 0
  srvIndex : Nat := 0
  units : Nat := 0
  capacityUnits : Nat := 0
  caughtUpFrom : Nat := 0
  contentEpoch : Nat := 0
  bytes : Nat := 0
  runs : Nat := 0
  allocated : Bool := false
  appended : Bool := false
  sealedFrom : Nat := 0
  firstByte : Nat := kMax
  deriving DecidableEq, Repr

/-- `unitBytes`. -/
def unitBytes (stride units : Nat) : Nat := if stride ≠ 0 then units * stride else units

/-- The bytes of its backing a version names. -/
def Version.namedBytes (version : Version) : Nat := unitBytes version.stride version.units

/-- An upload queued into a backing. -/
structure Write where
  backing : Nat
  fill : Nat
  offset : Nat
  size : Nat
  appended : Bool
  /-- How many versions were published before it. -/
  published : Nat
  deriving DecidableEq, Repr

structure World where
  parts : List Part
  backing : Nat → Backing := fun _ => {}
  /-- The backings made so far are those below it. -/
  next : Nat := 0
  published : List Version := []
  /-- The leases of a published version's backing still held through it. -/
  held : Nat → Nat := fun _ => 0
  writes : List Write := []
  /-- The versions of the publication in progress. -/
  running : List Version := []

namespace World

def modify (w : World) (g : Nat) (f : Backing → Backing) : World :=
  { w with backing := fun k => if k = g then f (w.backing k) else w.backing k }

/-- A lease of a published version goes. -/
def release (w : World) (index : Nat) : Option World :=
  match w.published[index]? with
  | none => none
  | some version =>
    if w.held index = 0 then none
    else
      some ({ w with held := fun k => if k = index then w.held k - 1 else w.held k }.modify
        version.backing fun b => { b with leases := b.leases - 1 })

def releaseAll (w : World) : List Nat → Option World
  | [] => some w
  | index :: rest =>
    match w.release index with
    | none => none
    | some w => w.releaseAll rest

/-! ## The sink -/

/-- `JournaledSink`'s counters. -/
structure Sink where
  bytes : Nat := 0
  runs : Nat := 0
  firstByte : Nat := kMax
  deriving DecidableEq, Repr

end World

/-- `CheckRange`. -/
def checkRange (backing : Backing) (floor : Nat) (range : WriteRange) : Except String Unit :=
  if range.offset > backing.byteCapacity ∨ range.size > backing.byteCapacity - range.offset then
    .error "JournaledSink: a write past its backing"
  else if range.offset < floor then
    .error "JournaledSink: an append below its backing's sealed mark"
  else .ok ()

/-- The loop of `Write` over its ranges. -/
def checkRanges (backing : Backing) (floor : Nat) : List WriteRange → Except String Unit
  | [] => .ok ()
  | range :: ranges =>
    if range.size = 0 then checkRanges backing floor ranges
    else
      match checkRange backing floor range with
      | .error error => .error error
      | .ok () => checkRanges backing floor ranges

namespace World

/-- `JournaledSink::Write`: the world and sink after it, or what it throws. -/
def sinkWrite (w : World) (sink : Sink) (g floor : Nat) (appended : Bool)
    (ranges : List WriteRange) (accepted : Bool) : Except String (World × Sink) :=
  let backing := w.backing g
  let kept := ranges.filter fun range => decide (range.size ≠ 0)
  match checkRanges backing floor ranges with
  | .error error => .error error
  | .ok () =>
    if kept = [] then .ok (w, sink)
    else if !backing.buffer then .error "JournaledSink: the backing has no buffer"
    else if backing.retired then .error "JournaledSink: the backing was retired before its write"
    else if !accepted then .error "JournaledSink: the uploader refused a write"
    else
      .ok ({ w with
          writes := w.writes ++ kept.map fun range =>
            { backing := g, fill := backing.fills, offset := range.offset, size := range.size
              appended, published := w.published.length } },
        { bytes := sink.bytes + (kept.map (·.size)).sum
          runs := sink.runs + kept.length
          firstByte := kept.foldl (fun first range => min first range.offset) sink.firstByte })

/-- The emit of a part, writing into a backing. -/
def runEmit (w : World) (sink : Sink) (g floor : Nat) (appended : Bool) :
    Emit → World × Sink × Except String Nat
  | .returns contentEpoch => (w, sink, .ok contentEpoch)
  | .throws error => (w, sink, .error error)
  | .write ranges accepted next caught =>
    match w.sinkWrite sink g floor appended ranges accepted with
    | .error error => w.runEmit sink g floor appended (caught error)
    | .ok (w, sink) => w.runEmit sink g floor appended next

/-! ## A part -/

/-- The version's lease is taken: the publication in progress names the backing, which holds
nothing while the emit writes. -/
def begin (w : World) (version : Version) : World :=
  { w with running := w.running ++ [version] }.modify version.backing fun b =>
    { b with contentEpoch := 0 }

/-- The emit of a leased or appended backing, and what the part's version becomes. -/
def fill (w : World) (version : Version) (emit : Target → Emit) (target : Target) :
    World × Except String Unit :=
  let started := w.begin version
  match started.runEmit {} version.backing version.sealedFrom version.appended (emit target) with
  | (w', _, .error error) => (w', .error error)
  | (w', sink, .ok contentEpoch) =>
    let done : Version :=
      { version with
        contentEpoch
        bytes := sink.bytes
        runs := sink.runs
        firstByte := sink.firstByte }
    ({ w' with running := w.running ++ [done] }.modify version.backing fun b =>
      { b with contentEpoch, sealedBytes := max version.sealedFrom version.namedBytes }, .ok ())

/-- The version a part starts from. -/
def versionOf (w : World) (index units g capacityUnits : Nat) (part : Part)
    (allocated appended : Bool) : Version :=
  let backing := w.backing g
  { part := index
    backing := g
    fill := backing.fills
    stride := part.config.stride
    address := backing.address
    srvIndex := backing.srvIndex
    units
    capacityUnits
    caughtUpFrom := if allocated then 0 else backing.contentEpoch
    allocated
    appended
    sealedFrom := if appended then backing.sealedBytes else 0 }

/-- The target a version's emit is sent. -/
def targetOf (version : Version) : Target :=
  { contentEpoch := version.caughtUpFrom
    address := version.address
    srvIndex := version.srvIndex
    capacityUnits := version.capacityUnits
    allocated := version.allocated }

/-- `Acquire`: the backing it leases and whether it is new, or what it throws. `none` when the
pool does not have the choice: the backing is leased, of another pool or of another kind. -/
def acquire (w : World) (index capacityClass : Nat) (part : Part) :
    Acquired → Option (World × Except String (Option (Nat × Bool)))
  | .reuse g =>
    let backing := w.backing g
    if g < w.next ∧ backing.part = index ∧ backing.leases = 0
        ∧ backing.capacityClass = capacityClass ∧ backing.stride = part.config.stride
        ∧ backing.flags = part.config.flags then
      some (w.modify g fun b =>
        { b with leases := 1, sealedBytes := 0, fills := b.fills + 1 }, .ok (some (g, false)))
    else none
  | .allocate buffer address srvIndex =>
    some ({ w with next := w.next + 1 }.modify w.next fun _ =>
      { part := index
        stride := part.config.stride
        flags := part.config.flags
        capacityClass
        byteCapacity := unitBytes part.config.stride capacityClass % 2 ^ 64
        address
        srvIndex
        buffer
        leases := 1 }, .ok (some (w.next, true)))
  | .exhausted => some (w, .ok none)
  | .throws error => some (w, .error error)

def setHighWater (w : World) (index highWater : Nat) : World :=
  { w with parts := w.parts.modify index fun part => { part with highWater } }

/-- A lease for a part that appends into nothing, and its emit. -/
def publishFresh (w : World) (index : Nat) (part : Part) (request : Request)
    (emit : Target → Emit) : Option (World × Except String Unit) :=
  match part.config.policy.next part.highWater request.units with
  | .error error => some (w, .error error)
  | .ok capacityClass =>
    match (w.setHighWater index (max part.highWater capacityClass)).acquire index capacityClass part
        request.acquired with
    | none => none
    | some (w, .error error) => some (w, .error error)
    | some (w, .ok none) =>
      some (w, .error "JournaledBufferSet::Publish: a part exhausted its pool (Config::maxPerClass)")
    | some (w, .ok (some (g, allocated))) =>
      let version := w.versionOf index request.units g capacityClass part allocated false
      some (w.fill version emit (targetOf version))

/-- An append into a head, and its emit. -/
def publishAppend (w : World) (index : Nat) (part : Part) (request : Request)
    (emit : Target → Emit) (g : Nat) : World × Except String Unit :=
  let version :=
    w.versionOf index request.units g (w.backing g).capacityClass part false true
  (w.modify g fun b => { b with leases := b.leases + 1 }).fill version emit (targetOf version)

/-- One part of a publication. `none` when the environment's choice is not one it has, or the
units' bytes do not fit 64 bits. -/
def publishPart (w : World) (index : Nat) (part : Part) (request : Request) :
    Option (World × Except String Unit) :=
  match w.releaseAll request.releases, decide (unitBytes part.config.stride request.units ≤ kMax) with
  | none, _ | _, false => none
  | some w, true =>
    match request.emit with
    | none =>
      if request.units = 0 then some (w, .ok ())
      else some (w, .error "JournaledBufferSet::Publish: a part has units and no emit")
    | some emit =>
      match request.appendInto with
      | none => w.publishFresh index part request emit
      | some head =>
        match w.published[head]? with
        | none => none
        | some version =>
          let backing := w.backing version.backing
          if w.held head = 0 then none
          else if backing.stride ≠ part.config.stride ∨ backing.flags ≠ part.config.flags then
            some (w, .error "JournaledBufferSet::Publish: a part appends into another part's backing")
          else if request.units ≤ backing.capacityClass then
            some (w.publishAppend index part request emit version.backing)
          else w.publishFresh index part request emit

/-- The loop over the parts. -/
def publishParts (w : World) (index : Nat) : List Request → Option (World × Except String Unit)
  | [] => some (w, .ok ())
  | request :: requests =>
    match w.parts[index]? with
    | none => none
    | some part =>
      match w.publishPart index part request with
      | none => none
      | some (w, .error error) => some (w, .error error)
      | some (w, .ok ()) => w.publishParts (index + 1) requests

/-! ## A publication -/

/-- The publication returns: its versions are the caller's, each with its lease. -/
def commit (w : World) : World :=
  { w with
    published := w.published ++ w.running
    held := fun k =>
      if w.published.length ≤ k ∧ k < w.published.length + w.running.length then 1 else w.held k
    running := [] }

/-- The handler marks the backings of the publication as holding nothing. -/
def forget (w : World) : List Version → World
  | [] => w
  | version :: rest =>
    (w.modify version.backing fun b => { b with contentEpoch := 0 }).forget rest

/-- The unwinding lets the publication's leases go. -/
def unlease (w : World) : List Version → World
  | [] => w
  | version :: rest =>
    (w.modify version.backing fun b => { b with leases := b.leases - 1 }).unlease rest

/-- What a publication that throws leaves. -/
def rollback (w : World) : World :=
  { (w.forget w.running).unlease w.running with running := [] }

/-- `JournaledBufferSet::Publish`. -/
def publish (w : World) (requests : List Request) : Option (World × Except String Unit) :=
  if requests.length ≠ w.parts.length then
    some (w, .error "JournaledBufferSet::Publish: as many requests as parts")
  else
    match w.publishParts 0 requests with
    | none => none
    | some (w, .error error) => some (w.rollback, .error error)
    | some (w, .ok ()) => some (w.commit, .ok ())

/-- `Discard`. -/
def discard (w : World) (versions : List Version) : World := w.forget versions

end World

inductive Action where
  | publish (requests : List Request)
  | discard (versions : List Nat)
  /-- A lease of a published version copied, or released. -/
  | copyLease (version : Nat)
  | release (version : Nat)

namespace World

def step (w : World) : Action → Option World
  | .publish requests => (w.publish requests).map (·.1)
  | .discard versions =>
    if versions.all fun index => w.held index != 0 then
      some (w.discard (versions.filterMap fun index => w.published[index]?))
    else none
  | .copyLease index =>
    match w.published[index]? with
    | none => none
    | some version =>
      if w.held index = 0 then none
      else
        some ({ w with held := fun k => if k = index then w.held k + 1 else w.held k }.modify
          version.backing fun b => { b with leases := b.leases + 1 })
  | .release index => w.release index

/-- A set as its constructor makes it. -/
def start (configs : List PartConfig) : World := { parts := configs.map fun config => { config } }

/-! ## What the marks promise -/

/-- The leases of a backing held through a list of versions, the first at index `k`. -/
def leasesOn (held : Nat → Nat) (g : Nat) : Nat → List Version → Nat
  | _, [] => 0
  | k, version :: rest =>
    (if version.backing = g then held k else 0) + leasesOn held g (k + 1) rest

/-- The leases of a backing held through published versions. -/
def leasesHeld (w : World) (g : Nat) : Nat := leasesOn w.held g 0 w.published

/-- The version's backing was not leased for another fill since. -/
def Current (w : World) (version : Version) : Prop :=
  version.fill = (w.backing version.backing).fills

/-- The versions whose backing a publication leased or appended to, whether it returns or throws. -/
def taken (w : World) (requests : List Request) : List Version :=
  match w.publishParts 0 requests with
  | some (reached, _) => if requests.length = w.parts.length then reached.running else []
  | none => []

/-- Every append of the requests goes into a backing of its own part's pool. -/
def OwnHeads (w : World) (requests : List Request) : Prop :=
  ∀ (i : Nat) (request : Request) (k : Nat) (version : Version), requests[i]? = some request →
    request.appendInto = some k → w.published[k]? = some version →
    (w.backing version.backing).part = i

/-- No append was queued below the bytes a version already published in the same fill names. -/
def AppendsAbove (w : World) : Prop :=
  ∀ write ∈ w.writes, write.appended = true →
    ∀ version ∈ w.published.take write.published, version.backing = write.backing →
      version.fill = write.fill → version.namedBytes ≤ write.offset

/-- A version whose lease lives is of its backing's last fill, and the mark of a backing is past
every published version of its last fill. -/
def MarksHold (w : World) : Prop :=
  (∀ k version, w.published[k]? = some version → 0 < w.held k → w.Current version)
    ∧ ∀ version ∈ w.published, w.Current version →
      version.namedBytes ≤ (w.backing version.backing).sealedBytes

end World

end ModuleServices.Journaled
