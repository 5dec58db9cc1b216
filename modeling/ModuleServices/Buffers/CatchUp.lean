import ModuleServices.Buffers.Build
import ModuleServices.Lib.Run

/-!
# A journal, its pool and the versions built from its captures

The steps are the calls a host makes. A capture, once taken, may be built at any later
time and any number of times. A version lives until its last holder drops it, and its
lease with it; holders may drop in any order.
-/

namespace ModuleServices

structure BufferWorld where
  journal : BufferJournal
  pool : BackingSet := {}
  /-- Every capture taken, newest last. -/
  captures : List BufferJournal.Capture := []
  /-- The versions still held, each with the capture it was built from. -/
  versions : List (PublishedBufferVersion × BufferJournal.Capture) := []

inductive BufferAction where
  | appendWrite (elementOffset : Nat) (bytes : List Byte) (resultingElementCount : Nat)
  | replaceImage (bytes : List Byte) (elementCount capacity : Nat)
  | requestCapacity (capacity : Nat)
  | setBackingPool (alive : Bool)
  | captureDesired
  | acknowledge (version : Option PublishedBufferVersion)
  | build (capture : Nat) (flags : BackingFlags) (shrink : ShrinkPolicy)
      (context : VersionedBufferBuildContext) (choice : AcquireChoice) (released : List Nat)
  | drop (version : Nat)

namespace BufferWorld

/-- A call that throws leaves the journal as it was. -/
def journalAfter (journal : BufferJournal) : Except String BufferJournal → BufferJournal
  | .ok journal => journal
  | .error _ => journal

/-- The input of a build of a capture. -/
def buildInput (w : BufferWorld) (capture : BufferJournal.Capture) (flags : BackingFlags)
    (shrink : ShrinkPolicy) : VersionedBufferBuildInput :=
  { capture.input w.journal.elementStride flags with shrink }

/-- One call. `none` when it is not one of the run's: an extent past 64 bits, flags that leave the
contents to the GPU, a capture or version that does not exist. -/
def step (w : BufferWorld) : BufferAction → Option BufferWorld
  | .appendWrite elementOffset bytes resultingElementCount =>
    if max w.journal.elementCount resultingElementCount * w.journal.elementStride > kMax then none
    else
      some { w with
        journal := journalAfter w.journal
          (w.journal.appendWrite elementOffset bytes resultingElementCount) }
  | .replaceImage bytes elementCount capacity =>
    if elementCount * w.journal.elementStride > kMax then none
    else
      some { w with
        journal := journalAfter w.journal (w.journal.replaceImage bytes elementCount capacity) }
  | .requestCapacity capacity => some { w with journal := w.journal.requestCapacity capacity }
  | .setBackingPool alive => some { w with journal := { w.journal with backingPool := alive } }
  | .captureDesired => some { w with captures := w.captures ++ [w.journal.captureDesired] }
  | .acknowledge version =>
    let floor := if w.journal.backingPool then w.pool.oldestContentEpoch else none
    some { w with journal := w.journal.acknowledge version floor }
  | .build capture flags shrink context choice released =>
    if flags.unorderedAccess && flags.indirectArguments then none
    else
      match w.captures[capture]? with
      | none => none
      | some capture =>
        match buildVersionedBuffer (w.buildInput capture flags shrink) context w.pool choice
            released with
        | none => none
        | some (pool, outcome) =>
          some { w with
            pool
            versions := w.versions ++ outcome.version.toList.map fun version => (version, capture) }
  | .drop version =>
    match w.versions[version]? with
    | none => none
    | some (held, _) =>
      some { w with
        versions := w.versions.eraseIdx version
        pool := w.pool.modify held.backingEpoch fun backing =>
          { backing with leases := backing.leases - 1 } }

/-- The world once the journal is initialized: nothing captured, nothing pooled. -/
def start (journal : BufferJournal) : BufferWorld := { journal }

/-- Every version still held has its capture's image in its backing. -/
def VersionsHold (w : BufferWorld) : Prop :=
  ∀ version capture, (version, capture) ∈ w.versions →
    ∃ backing, w.pool.find? version.backingEpoch = some backing
      ∧ ∀ i, i < capture.image.byteSize →
        backing.contents i = capture.image.materialize.getD i 0

/-- A byte lies in a write recorded after a sequence. -/
def Recorded (writes : List BufferWrite) (sequence i : Nat) : Prop :=
  ∃ write ∈ writes, sequence < write.sequence
    ∧ write.byteOffset ≤ i ∧ i < write.byteOffset + write.byteSize

/-- A growing write leaves no byte behind that an older capture still shows: each byte it brings
into the image without covering it is zero, or recorded as written since, in every capture within
the journal's reach that is at least as long as the grown image. -/
def GrowthRecorded (w : BufferWorld) : BufferAction → Prop
  | .appendWrite elementOffset bytes resultingElementCount =>
    let byteOffset := elementOffset * w.journal.elementStride
    let desiredSize := max w.journal.elementCount resultingElementCount * w.journal.elementStride
    ∀ capture ∈ w.captures, w.journal.journalBaseSequence ≤ capture.writeSequence →
      desiredSize ≤ capture.image.byteSize →
      ∀ i, w.journal.byteSize ≤ i → i < desiredSize →
        ¬(byteOffset ≤ i ∧ i < byteOffset + bytes.length) →
        capture.image.materialize.getD i 0 = 0
          ∨ Recorded w.journal.writes capture.writeSequence i
  | _ => True

end BufferWorld

end ModuleServices
