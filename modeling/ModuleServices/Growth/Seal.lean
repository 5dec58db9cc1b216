import ModuleServices.Growth.Set
import ModuleServices.Lib.Run

/-!
# `GrowableBufferSet`: growth batches and seals

`Seal` names the newest ready versions when they meet what the build asks, else it posts one batch
for every buffer that does not, and is pending until the batch settles. `Seal` and `Post` throw in
several places; what they had done by then stays done, so each answers its result and the set after.

A run (`GrowableRun`) has the producer's calls, one at a time, and between them what other threads
and the host do: registrations, buffers made and expiring, a batch's work, frames that adopt.
-/

namespace ModuleServices.Growth

/-- What a posted growth makes: `VersionGrowthRequest`, with how its contents are filled. -/
structure GrowthRequest where
  buffer : Nat
  size : VersionGrowthRequest
  pool : Option Nat
  deviceAddress : Bool
  compatibility : Nat
  name : String
  contents : GrowableContents
  deriving DecidableEq, Repr

/-- How the host's `post` hook ends. -/
inductive Posted where
  | accepted
  | refused
  | threw (what : String)
  deriving DecidableEq, Repr

/-- What a `Seal` is given: the clock, whether there is an uploader, what the `grown` hook throws
for a slot, how `post` ends, and the stride of a latch block made for that many bytes. -/
structure HostAnswers where
  now : Int := 0
  uploads : Bool := true
  grown : Nat → Option String := fun _ => none
  post : Posted := .accepted
  stride : Nat → Nat := fun bytes => bytes

structure Sealed where
  named : Option NamedVersions := none
  pending : Bool := false
  error : String := ""
  deriving DecidableEq, Repr

namespace GrowableBufferSet

variable (buffers : List VersionedBuffer) (host : HostAnswers) (build : Build)
  (set : GrowableBufferSet)

/-! ## `Post` -/

/-- What `Post` has done so far. -/
structure Posting where
  set : GrowableBufferSet
  requests : List GrowthRequest := []
  asks : List (Nat × Nat) := []
  deriving DecidableEq, Repr

/-- The request enters the batch, and its slot what it asks. -/
def Posting.add (posting : Posting) (handle units : Nat) (request : GrowthRequest) : Posting where
  set := posting.set.modifySlot handle fun slot => { slot with asked := units }
  requests := posting.requests ++ [request]
  asks := posting.asks ++ [(handle, units)]

/-- The request for one ask of a live buffer. -/
def requestFor (slot : Slot) (registration : GrowableRegistration) (handle units : Nat) :
    Except String GrowthRequest :=
  match host.grown handle with
  | some what => .error what
  | none =>
    match VersionGrowthRequest.post registration.extent registration.name units with
    | .error what => .error what
    | .ok size =>
      if registration.contents ≠ .fresh ∧ host.uploads = false then
        .error ("GrowableBufferSet: " ++ registration.name ++ " fills without an uploader")
      else .ok {
        buffer := slot.buffer
        size
        pool := registration.pool
        deviceAddress := registration.address
        compatibility := slot.key
        name := registration.name
        contents := registration.contents }

/-- `Post`'s loop: what was thrown, if anything, and what was done. -/
def postAsks : List (Nat × Nat) → Posting → Option String × Posting
  | [], posting => (none, posting)
  | (handle, units) :: rest, posting =>
    let slot := posting.set.slot handle
    match lock buffers slot.buffer, slot.registration with
    | some _, some registration =>
      match requestFor host slot registration handle units with
      | .error what => (some what, posting)
      | .ok request =>
        postAsks rest (posting.add handle units request)
    | _, _ => postAsks rest posting

/-- The batch of the asks that were made into requests. -/
def batchOf (asks : List (Nat × Nat)) (posted : Bool) : Batch :=
  { asks, stamps := List.replicate asks.length none, posted }

/-- `Post`. -/
def post (asks : List (Nat × Nat)) : Except String Bool × GrowableBufferSet :=
  match postAsks buffers host asks { set } with
  | (some what, posting) => (.error what, posting.set)
  | (none, posting) =>
    if posting.requests = [] then (.ok true, posting.set)
    else
      match host.post with
      | .accepted => (.ok true, { posting.set with batch := some (batchOf posting.asks true) })
      | .threw what => (.error what, { posting.set with batch := some (batchOf posting.asks false) })
      | .refused =>
        (.ok false, { posting.asks.foldl (fun set ask =>
          set.modifySlot ask.1 fun slot => { slot with asked := 0 }) posting.set with batch := none })

/-! ## `Seal` -/

/-- The buffers whose requirement the newest ready version does not meet. -/
def unmetRequired : List Nat → Except String (List Nat)
  | [] => .ok []
  | handle :: rest =>
    let required := build.requiredAt handle
    if required.units = 0 ∧ required.newerThan = 0 then unmetRequired rest
    else if (set.slot handle).registration = none then
      .error "GrowableBufferSet: a requirement of a buffer not in the set"
    else
      match unmetRequired rest with
      | .error what => .error what
      | .ok unmet =>
        let current := (set.slot handle).current
        if required.metBy current.units current.serial then .ok unmet else .ok (handle :: unmet)

/-- A Zero registration's first version, of a live buffer. -/
def unfilled (slot : Slot) : Bool :=
  match slot.registration with
  | some registration =>
    !slot.made && registration.contents == .zero && (lock buffers slot.buffer).isSome
  | none => false

/-- `unmet`. -/
def unmet : Except String (List Nat) :=
  match set.unmetRequired build (List.range build.required.length) with
  | .error what => .error what
  | .ok required =>
    .ok (required ++ (List.range set.slots.length).filter fun handle =>
      unfilled buffers (set.slot handle) && !required.contains handle)

/-- The units each unmet buffer grows to. -/
def growthAsks : List Nat → GrowableBufferSet →
    Except String (List (Nat × Nat)) × GrowableBufferSet
  | [], set => (.ok [], set)
  | handle :: rest, set =>
    let slot := set.slot handle
    let set := set.modifySlot handle fun slot => { slot with window := slot.window.reset }
    let policy := (slot.registration.map (·.policy)).getD .doublingPolicy
    match (build.requiredAt handle).growTo policy slot.current.units with
    | .error what => (.error what, set)
    | .ok units =>
      match growthAsks rest set with
      | (.ok asks, set) => (.ok ((handle, units) :: asks), set)
      | (.error what, set) => (.error what, set)

/-- The smaller versions that are due. -/
def observe : List Nat → GrowableBufferSet →
    Except String (List (Nat × Nat)) × GrowableBufferSet
  | [], set => (.ok [], set)
  | handle :: rest, set =>
    let slot := set.slot handle
    let units := (build.requiredAt handle).units
    match slot.registration with
    | none => observe rest set
    | some registration =>
      if units = 0 ∨ slot.current.version = none ∨ registration.shrink.shrinks = false then
        observe rest set
      else
        match slot.window.observe registration.shrink registration.policy slot.current.units units
            host.now with
        | .error what =>
          (.error what, set.modifySlot handle fun slot =>
            { slot with window := slot.window.count units host.now })
        | .ok (target, window) =>
          match observe rest (set.modifySlot handle fun slot => { slot with window }) with
          | (.ok shrinks, set) =>
            (.ok (match target with
              | some units => (handle, units) :: shrinks
              | none => shrinks), set)
          | (.error what, set) => (.error what, set)

/-- The batch of smaller versions. -/
def shrink : Except String Unit × GrowableBufferSet :=
  if set.batch.isSome then (.ok (), set)
  else
    match observe host build (List.range (min build.required.length set.slots.length)) set with
    | (.error what, set) => (.error what, set)
    | (.ok [], set) => (.ok (), set)
    | (.ok shrinks, set) =>
      match set.post buffers host shrinks with
      | (.error what, set) => (.error what, set)
      | (.ok true, set) => (.ok (), set)
      | (.ok false, set) => (.ok (), { set with failure := "the shrink batch was refused" })

/-- One latch of the build. -/
def makeLatch (handle : Nat) (ask : LatchAsk) : Except String GrowableBufferSet :=
  if ask.asked = false then .ok set
  else
    let slot := set.latchSlot handle
    match slot.registration with
    | none => .error "GrowableBufferSet: a requirement of a latch not in the set"
    | some registration =>
      -- the stride of the block, where the layout is the same
      let held := (slot.block.filter fun _ => slot.layoutKey = ask.layoutKey).map (·.stride)
      if held.any (ask.bytes ≤ ·) then .ok set
      else
        match registration.policy.nextAs kMax32 (held.getD 0) ask.bytes with
        | .error what => .error what
        | .ok bytes =>
          let block : LatchBlock :=
            { id := set.blocks, stride := host.stride bytes, slots := registration.slots }
          .ok { set with
            latchSlots := set.latchSlots.modify handle fun slot =>
              { slot with block := some block, layoutKey := ask.layoutKey }
            blocks := set.blocks + 1
            changed := true }

def makeLatches : List (LatchAsk × Nat) → GrowableBufferSet → Option String × GrowableBufferSet
  | [], set => (none, set)
  | (ask, handle) :: rest, set =>
    match makeLatch host set handle ask with
    | .error what => (some what, set)
    | .ok set => makeLatches rest set

/-- Whether a seal names the slot. -/
def nameable (slot : Slot) : Bool :=
  match slot.registration with
  | some registration =>
    slot.current.version.isSome && !(!slot.made && registration.contents == .zero)
  | none => false

/-- The set named now. -/
def nameVersions : NamedVersions where
  serial := set.serials + 1
  entries := set.slots.map fun slot => if nameable slot then slot.current else {}
  buffers := set.slots.map fun slot => if nameable slot then some slot.buffer else none
  byKey := (set.slots.zipIdx.filterMap fun entry =>
    if nameable entry.1 then (lock buffers entry.1.buffer).map (·.key, entry.2) else none).mergeSort
      pairLE
  latches := set.latchSlots.map (·.block)

/-- `Seal`'s end: the last set while nothing changed, else a new one. -/
def sealNamed : Sealed × GrowableBufferSet :=
  match set.changed, set.last with
  | false, some named => ({ named := some named }, set)
  | _, _ =>
    let named := set.nameVersions buffers
    ({ named := some named },
      { set with serials := named.serial, last := some named, changed := false })

/-- `Seal`, once it waits for no growth. -/
def sealMet : Except String Sealed × GrowableBufferSet :=
  match set.shrink buffers host build with
  | (.error what, set) => (.error what, set)
  | (.ok _, set) =>
    match makeLatches host build.latches.zipIdx set with
    | (some what, set) => (.error what, set)
    | (none, set) => ((set.sealNamed buffers).map .ok id)

/-- `Seal`, for the buffers it found unmet. -/
def sealUnmet (unmet : List Nat) : Except String Sealed × GrowableBufferSet :=
  if set.batch.isSome then (.ok { pending := true }, set)
  else
    match growthAsks build unmet { set with failure := "" } with
    | (.error what, set) => (.error what, set)
    | (.ok asks, grown) =>
      match grown.post buffers host asks with
      | (.error what, set) => (.error what, set)
      | (.ok false, set) => (.ok { error := "the growth batch was refused" }, set)
      | (.ok true, posted) =>
        if posted.batch.isSome then (.ok { pending := true, error := set.failure }, posted)
        else posted.sealMet buffers host build

/-- `Seal`. -/
def sealBuild : Except String Sealed × GrowableBufferSet :=
  let set := set.takeRegistered buffers
  match set.unmet buffers build with
  | .error what => (.error what, set)
  | .ok unmet =>
    if unmet = [] then set.sealMet buffers host build else set.sealUnmet buffers host build unmet

/-- `ShrinkPending`. -/
def shrinkPending (now : Int) : Bool :=
  set.changed ||
    match set.batch with
    | some batch => batch.state != .pending
    | none => set.slots.any fun slot =>
        slot.registration.any fun registration => slot.window.due registration.shrink now

end GrowableBufferSet

/-! ## Runs -/

/-- A version as its producer makes it: the process gives it its identity. -/
structure MadeVersion where
  size : Nat
  srv : Option Nat := none
  address : Nat := 0
  deriving DecidableEq, Repr

def MadeVersion.version (made : MadeVersion) (id : Nat) : BufferVersion :=
  { id, size := made.size, srv := made.srv, address := made.address }

/-- `pushing` has the nodes whose `Register` has not pushed them yet; `versions` is the count of the
versions made, and `sealed` every set a seal returned, newest first. -/
structure GrowableRun where
  set : GrowableBufferSet := {}
  buffers : List VersionedBuffer := []
  pushing : List Registered := []
  versions : Nat := 0
  sealed : List NamedVersions := []
  deriving DecidableEq, Repr

namespace GrowableRun

def init (hooks : GrowableBufferSetHooks) : GrowableRun := { set := { hooks } }

inductive Action where
  /-- A `VersionedBuffer` is made. -/
  | create (key : Nat) (current : Option MadeVersion)
  /-- Its last owner lets it go. -/
  | expire (buffer : Nat)
  /-- Its owner makes another version current. -/
  | renew (buffer : Nat) (made : MadeVersion)
  | register (registration : GrowableRegistration) (buffer : Option Nat)
  | registerLatch (registration : LatchRegistration)
  /-- A registering thread pushes its node. -/
  | push (place : Nat)
  | begin
  | handleOf (buffer : Nat)
  | sealBuild (asks : List Ask) (host : HostAnswers)
  /-- The growth's producer lays out a Capture's version. -/
  | capture (place stamp : Nat)
  /-- The batch's `done`. -/
  | done (grown : Option (List MadeVersion × List Nat)) (error : String)
  /-- A frame adopts the set sealed that many seals ago. -/
  | adoptAll (place : Nat)
  /-- Other sets of the process take serials. -/
  | others (count : Nat)

/-- What a seal of these asks returns, and the set after. A call that throws while the asks are
made does not reach `Seal`. -/
def sealAsks (run : GrowableRun) (asks : List Ask) (host : HostAnswers) :
    Except String Sealed × GrowableBufferSet :=
  match Build.after {} asks with
  | .error what => (.error what, run.set)
  | .ok build => run.set.sealBuild run.buffers host build

/-- `done`: what the batch holds after. -/
def doneState (batch : Batch) (versions : Nat) (grown : Option (List MadeVersion × List Nat))
    (error : String) : Batch.State :=
  match grown with
  | some (made, leases) =>
    if made.length = batch.asks.length ∧ leases.length = batch.asks.length then
      .ready (made.zipIdx.map fun entry => entry.1.version (versions + entry.2)) leases
    else .failed (if error = "" then "a growth made the wrong versions" else error)
  | none => .failed (if error = "" then "a growth made the wrong versions" else error)

/-- One event. `none`: it cannot happen. -/
def step (run : GrowableRun) : Action → Option GrowableRun
  | .create key current =>
    -- two live buffers never share a key
    if run.buffers.any fun buffer => buffer.live && buffer.key == key then none
    else some { run with
      buffers := run.buffers ++ [{ key, current := current.map (·.version run.versions) }]
      versions := run.versions + 1 }
  | .expire buffer =>
    if (lock run.buffers buffer).isSome then
      some { run with buffers := run.buffers.modify buffer fun held => { held with live := false } }
    else none
  | .renew buffer made =>
    if (lock run.buffers buffer).isSome then
      some { run with
        buffers := run.buffers.modify buffer fun held =>
          { held with current := some (made.version run.versions) }
        versions := run.versions + 1 }
    else none
  | .register registration buffer =>
    -- the caller holds the buffer it registers
    if buffer.any fun buffer => (lock run.buffers buffer).isNone then none
    else
      match run.set.register registration buffer with
      | .error _ => some run
      | .ok (node, set) => some { run with set, pushing := run.pushing ++ [node] }
  | .registerLatch registration =>
    match run.set.registerLatch registration with
    | .error _ => some run
    | .ok (node, set) => some { run with set, pushing := run.pushing ++ [node] }
  | .push place =>
    match run.pushing[place]? with
    | none => none
    | some node => some { run with
        set := { run.set with registered := node :: run.set.registered }
        pushing := run.pushing.eraseIdx place }
  | .begin => some { run with set := run.set.begin run.buffers }
  | .handleOf buffer =>
    match lock run.buffers buffer with
    | none => none
    | some held => some { run with set := (run.set.handleOf run.buffers held).2 }
  | .sealBuild asks host =>
    match run.sealAsks asks host with
    | (.ok { named := some named, .. }, set) =>
      some { run with set, sealed := named :: run.sealed }
    | (_, set) => some { run with set }
  | .capture place stamp =>
    match run.set.batch with
    | some batch =>
      if batch.posted ∧ batch.state = .pending ∧ place < batch.stamps.length then
        some { run with set := { run.set with
          batch := some { batch with stamps := batch.stamps.set place (some stamp) } } }
      else none
    | none => none
  | .done grown error =>
    match run.set.batch with
    | some batch =>
      -- only a batch the host took settles, and once
      if batch.posted ∧ batch.state = .pending then
        some { run with
          set := { run.set with
            batch := some { batch with state := doneState batch run.versions grown error } }
          versions := run.versions + (grown.map (·.1.length)).getD 0 }
      else none
    | none => none
  | .adoptAll place =>
    match run.sealed[place]? with
    | none => none
    | some named => some { run with buffers := named.adoptAll run.buffers }
  | .others count =>
    some { run with set := { run.set with serials := run.set.serials + count } }

end GrowableRun

end ModuleServices.Growth
