import ModuleServices.Buffers.CatchUp
import ModuleServices.Buffers.Predecessor

/-!
# Builds whose uploads may never land

A build queues its uploads and reports `Ready`; they land afterwards, in queue order, or
are cancelled: by the uploader, or by the graph, which cancels the tickets of a version
cancelled or released while they are in flight. The version is dropped when its last
holder goes, whatever became of its uploads, and neither the producer nor the graph
touches its backing.

`memory` is what the backings' memory holds now, and a backing's `contents` what its
last build leaves there once everything it queued is written: the contents of its
`contentEpoch`. A backing whose epoch is 0 claims nothing, and a build starts from what
is in it (`observed`).
-/

namespace ModuleServices

/-- Where a copy reads: a pooled backing, or one of another pool. -/
inductive CopySource where
  | pooled (generation : Nat)
  | elsewhere (bytes : Nat → Byte)

/-- The writes one ticket stands for. -/
inductive TicketWrites where
  | uploads (ranges : List StreamingUploadRange)
  | copies (source : CopySource) (ranges : List StreamingCopyRange)

/-- `TrackedUploadTicket`, with the backing it writes. -/
structure UploadTicket where
  generation : Nat
  writes : TicketWrites

/-- The memory of every backing, by generation. -/
abbrev Memory := Nat → Nat → Byte

namespace UploadTicket

/-- What the ticket leaves of its backing's bytes. -/
def result (ticket : UploadTicket) (memory : Memory) : Nat → Byte :=
  match ticket.writes with
  | .uploads ranges =>
    ranges.foldl (fun bytes range => applyUpload bytes range.dstOffset range.data)
      (memory ticket.generation)
  | .copies (.pooled source) ranges =>
    ranges.foldl (applyCopy (memory source)) (memory ticket.generation)
  | .copies (.elsewhere bytes) ranges => ranges.foldl (applyCopy bytes) (memory ticket.generation)

/-- The ticket lands. -/
def land (memory : Memory) (ticket : UploadTicket) : Memory :=
  fun generation => if generation = ticket.generation then ticket.result memory else memory generation

end UploadTicket

/-! ## What a build queues -/

/-- The ranges `uploadAll` queues before it stops. -/
def queuedRanges (image : BufferImage) (stray : Nat → Byte) (retired : Bool) :
    List DirtyRange → List StreamingUploadRange
  | [] => []
  | range :: ranges =>
    match gather image stray range.size range.size range.offset with
    | none => []
    | some bytes =>
      if retired then []
      else { data := bytes, dstOffset := range.offset } :: queuedRanges image stray retired ranges

/-- What `Build` queues into the backing it leased. -/
def buildRanges (input : VersionedBufferBuildInput) (context : VersionedBufferBuildContext)
    (allocated : Bool) (backing : Backing) : List StreamingUploadRange :=
  if input.elementCount * input.elementStride > backing.byteCapacity then []
  else
    match buildImage input with
    | .error _ | .ok none => []
    | .ok (some image) =>
      if context.stopRequested₂ || !backing.buffer then []
      else if needsInitialContent input ∧ image.byteSize ≠ 0 then
        queuedRanges image context.stray backing.retired (uploadRanges input image backing allocated)
      else []

/-- The tickets of a plain build: one for each range. -/
def buildTickets (input : VersionedBufferBuildInput) (context : VersionedBufferBuildContext)
    (pool : BackingSet) (choice : AcquireChoice) (released : List Nat) : List UploadTicket :=
  if !input.uploadService ∨ input.elementStride = 0 then []
  else if !input.backingPool then []
  else if context.stopRequested₁ then []
  else
    match chooseClass input context.now with
    | .error _ => []
    | .ok cls =>
      let request : BackingRequest :=
        { capacityClass := cls.capacityClass, stride := input.elementStride, flags := input.flags }
      match pool.acquire request choice released with
      | some (pool, .ok (some (generation, allocated))) =>
        match pool.find? generation with
        | none => []
        | some leased => (buildRanges input context allocated leased).map fun range =>
            { generation, writes := .uploads [range] }
      | _ => []

/-- The tickets of a predecessor build that is ready: its copies, then its uploads. -/
def predecessorTickets (source : CopySource) (built : PredecessorBuilt) : List UploadTicket :=
  match built.outcome.version with
  | none => []
  | some version =>
    (if built.queued.copies = [] then []
      else [{ generation := version.backingEpoch, writes := .copies source built.queued.copies }])
    ++ if built.queued.uploads = [] then []
      else [{ generation := version.backingEpoch, writes := .uploads built.queued.uploads }]

/-! ## The run -/

structure TicketWorld where
  pool : BackingSet := {}
  memory : Memory
  /-- The tickets queued that have neither landed nor been cancelled. -/
  queue : List UploadTicket := []
  /-- The versions still held. -/
  versions : List PublishedBufferVersion := []

inductive TicketAction where
  | build (input : VersionedBufferBuildInput) (context : VersionedBufferBuildContext)
      (choice : AcquireChoice) (released : List Nat)
  /-- `elsewhere` is the predecessor's memory where that belongs to another pool. -/
  | buildFromPredecessor (input : PredecessorInput) (elsewhere : Nat → Byte)
      (context : PredecessorContext) (choice : AcquireChoice) (released : List Nat)
  | land
  | cancel (ticket : Nat)
  | drop (version : Nat)

namespace TicketWorld

/-- The memory once every ticket still queued has landed. -/
def settled (w : TicketWorld) : Memory := w.queue.foldl UploadTicket.land w.memory

/-- The pool as a build finds it: a backing that claims nothing shows what is in it. -/
def observed (w : TicketWorld) : BackingSet :=
  { w.pool with
    all := w.pool.all.map fun backing =>
      if backing.contentEpoch = 0 then { backing with contents := w.settled backing.generation }
      else backing }

/-- A fresh allocation holds what lies in its memory. -/
def allocating (w : TicketWorld) : AcquireChoice → AcquireChoice
  | .allocate buffer _ => .allocate buffer (w.settled w.pool.nextGeneration)
  | choice => choice

/-- Where a build's copies read its predecessor. -/
def copySource (input : PredecessorInput) (elsewhere : Nat → Byte) : CopySource :=
  match input.previous with
  | some previous =>
    if input.previousElsewhere then .elsewhere elsewhere else .pooled previous.backingEpoch
  | none => .elsewhere elsewhere

/-- The bytes a copy source is to have. -/
def sourceBytes (w : TicketWorld) : CopySource → Nat → Byte
  | .elsewhere bytes => bytes
  | .pooled generation =>
    match w.observed.find? generation with
    | some backing => backing.contents
    | none => w.settled generation

/-- The predecessor a build names is one still held, or of another pool. -/
def holdsPrevious (w : TicketWorld) (input : PredecessorInput) : Bool :=
  input.previousElsewhere || input.previous.all fun previous => w.versions.contains previous

def step (w : TicketWorld) : TicketAction → Option TicketWorld
  | .build input context choice released =>
    let choice := w.allocating choice
    match buildVersionedBuffer input context w.observed choice released with
    | none => none
    | some (pool, outcome) =>
      some { w with
        pool
        queue := w.queue ++ buildTickets input context w.observed choice released
        versions := w.versions ++ outcome.version.toList }
  | .buildFromPredecessor input elsewhere context choice released =>
    if !w.holdsPrevious input then none
    else
      let choice := w.allocating choice
      match ModuleServices.buildFromPredecessor input context w.observed choice released with
      | none => none
      | some built =>
        let source := copySource input elsewhere
        let written := built.queued.apply (w.sourceBytes source)
        some { w with
          pool :=
            match built.outcome.version with
            | none => built.pool
            | some version => built.pool.modify version.backingEpoch fun backing =>
                { backing with contents := written backing.contents }
          queue := w.queue ++ predecessorTickets source built
          versions := w.versions ++ built.outcome.version.toList }
  | .land =>
    match w.queue with
    | [] => none
    | ticket :: rest => some { w with memory := UploadTicket.land w.memory ticket, queue := rest }
  | .cancel ticket =>
    if ticket < w.queue.length then some { w with queue := w.queue.eraseIdx ticket } else none
  | .drop version =>
    match w.versions[version]? with
    | none => none
    | some held =>
      some { w with
        versions := w.versions.eraseIdx version
        pool := w.pool.modify held.backingEpoch fun backing =>
          { backing with leases := backing.leases - 1 } }

/-- Nothing pooled, over a memory that holds anything. -/
def start (memory : Memory) : TicketWorld := { memory }

/-- `contentEpoch` is honest: a backing that claims a position holds its contents, as soon as what is
queued has landed, and these are its image where it keeps one. -/
def EpochsHonest (w : TicketWorld) : Prop :=
  ∀ backing ∈ w.pool.all, backing.contentEpoch ≠ 0 →
    (∀ i, w.settled backing.generation i = backing.contents i)
      ∧ ∀ image, backing.image = some image → ∀ i < image.byteSize,
        w.settled backing.generation i = image.byteAt i

/-- A cancelled ticket leaves every backing that claims a position with the bytes it would have had:
what it drops is in place already, written again by a ticket behind it, or in a backing whose epoch a
failed build has forgotten. -/
def CancelsNothingClaimed (w : TicketWorld) (ticket : Nat) : Prop :=
  ∀ backing ∈ w.pool.all, backing.contentEpoch ≠ 0 →
    ∀ i, { w with queue := w.queue.eraseIdx ticket }.settled backing.generation i
      = w.settled backing.generation i

/-- The build's contents are the GPU's, or have to be uploaded, and its writes record every byte in
which its image differs from that of a backing it may catch up. -/
def RecordsChanges (w : TicketWorld) (input : VersionedBufferBuildInput) : Prop :=
  input.gpuWritten = true ∨ needsInitialContent input = true ∧ ∀ image, input.image = some image →
    image.WF ∧ ∀ backing ∈ w.pool.all, ∀ held, backing.image = some held →
      journalCoversBacking input image backing false = true → ∀ i < image.byteSize,
        BufferWorld.Recorded input.writes backing.contentEpoch i ∨ image.byteAt i = held.byteAt i

/-- What keeps the epochs honest. -/
def KeepsEpochs (w : TicketWorld) : TicketAction → Prop
  | .build input _ _ _ => RecordsChanges w input
  | .cancel ticket => CancelsNothingClaimed w ticket
  | _ => True

end TicketWorld

end ModuleServices
