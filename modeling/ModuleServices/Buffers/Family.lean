import ModuleServices.Buffers.JournalRun
import ModuleServices.Graph.Types

/-!
# `VersionedBufferFamily` over a journal

The requests a family makes of a journal's captures, and the runs of one family, one journal and
whoever keeps captures for later. The graph behind `SubmitLatest` is not modelled: a submitted intent
is kept, and the answer is whatever the service gives.
-/

namespace ModuleServices

open ModuleServices.Graph (ArtifactKey VersionID ArtifactRequestStatus)

/-- `ArtifactVersionHandle`; a lease is a number that stands for its token. -/
structure ArtifactVersionHandle where
  version : VersionID := {}
  lease : Option Nat := none
  deriving DecidableEq, Repr

/-- `ArtifactVersionHandle::operator bool`. -/
def ArtifactVersionHandle.holds (handle : ArtifactVersionHandle) : Bool :=
  handle.version.isNamed && handle.lease.isSome

structure ArtifactRequestResult where
  /-- `none`: the service is shutting down. -/
  status : Option ArtifactRequestStatus := none
  generation : Nat := 0
  version : VersionID := {}
  lease : Option Nat := none
  deriving DecidableEq, Repr

namespace ArtifactRequestResult

/-- `ArtifactRequestResult::operator bool`. -/
def accepts (result : ArtifactRequestResult) : Bool :=
  result.status == some .accepted || result.status == some .alreadyDesired

/-- `ArtifactRequestResult::Handle`. -/
def handle (result : ArtifactRequestResult) : ArtifactVersionHandle := ⟨result.version, result.lease⟩

end ArtifactRequestResult

/-- The `ArtifactIntent` of a buffer build. -/
structure BuildIntent where
  key : ArtifactKey
  desiredRevision : Nat
  input : VersionedBufferBuildInput
  requestFingerprint : UInt64
  deriving DecidableEq, Repr

structure VersionedBufferFamily where
  address : ArtifactKey := {}
  elementStride : Nat
  flags : BackingFlags := {}
  framesInFlight : Nat := 3
  supersededWindow : Option Nat := none
  previous : Option PublishedBufferVersion := none
  lastJournalRevision : Nat := 0
  lastJournalHandle : ArtifactVersionHandle := {}
  deriving DecidableEq, Repr

namespace VersionedBufferFamily

/-- What one write of a capture adds to the fingerprint. -/
def writeTerm (write : BufferWrite) : UInt64 :=
  UInt64.ofNat write.sequence ^^^ (UInt64.ofNat write.byteOffset <<< 3)
    ^^^ (UInt64.ofNat write.byteSize <<< 11)

/-- The fingerprint of `MakeCaptureIntent`. -/
def captureFingerprint (family : VersionedBufferFamily) (revision : Nat)
    (capture : BufferJournal.Capture) : UInt64 :=
  let seed := UInt64.ofNat revision ^^^ (UInt64.ofNat capture.elementCount <<< 1)
    ^^^ (UInt64.ofNat capture.capacity <<< 7) ^^^ (UInt64.ofNat family.address.variantID <<< 17)
    ^^^ 0x5642464a4f5552
  let fingerprint := capture.writes.foldl (fun fingerprint write => fingerprint ^^^ writeTerm write) seed
  if fingerprint = 0 then 1 else fingerprint

/-- `MakeCaptureIntent`. -/
def makeCaptureIntent (family : VersionedBufferFamily) (revision : Nat)
    (capture : BufferJournal.Capture) : BuildIntent :=
  { key := family.address
    desiredRevision := revision
    input := capture.input family.elementStride family.flags
    requestFingerprint := family.captureFingerprint revision capture }

/-- The arguments `RequestCapture` and `PostCapture` refuse; `uploads` says that there is a service. -/
def refuses (uploads : Bool) (revision : Nat) (capture : BufferJournal.Capture) : Prop :=
  uploads = false ∨ revision = 0 ∨ capture.writeSequence ≠ revision

instance (uploads : Bool) (revision : Nat) (capture : BufferJournal.Capture) :
    Decidable (refuses uploads revision capture) := by
  unfold refuses
  infer_instance

/-- The revision is the one requested last, and its handle is at hand. -/
def remembers (family : VersionedBufferFamily) (revision : Nat) : Prop :=
  revision = family.lastJournalRevision ∧ family.lastJournalHandle.holds = true

instance (family : VersionedBufferFamily) (revision : Nat) :
    Decidable (family.remembers revision) := by
  unfold remembers
  infer_instance

/-- `RequestCapture`: the intent submitted, if one is, and the result; `submitted` is the service's
answer to it. -/
def requestCapture (family : VersionedBufferFamily) (uploads : Bool) (revision : Nat)
    (capture : BufferJournal.Capture) (submitted : ArtifactRequestResult) :
    VersionedBufferFamily × Option BuildIntent × ArtifactRequestResult :=
  if refuses uploads revision capture then (family, none, { status := some .conflictingRevision })
  else if family.remembers revision then
    (family, none,
      { status := some .alreadyDesired
        generation := family.lastJournalHandle.version.generation
        version := family.lastJournalHandle.version
        lease := family.lastJournalHandle.lease })
  else
    (if submitted.accepts then
      { family with lastJournalRevision := revision, lastJournalHandle := submitted.handle }
    else family,
    some (family.makeCaptureIntent revision capture), submitted)

/-- `PostCapture`: the intent posted, if one is, and the version returned. -/
def postCapture (family : VersionedBufferFamily) (uploads : Bool) (revision : Nat)
    (capture : BufferJournal.Capture) : VersionedBufferFamily × Option BuildIntent × VersionID :=
  if refuses uploads revision capture then (family, none, {})
  else if revision = family.lastJournalRevision then (family, none, ⟨family.address, revision, 0⟩)
  else
    ({ family with lastJournalRevision := revision, lastJournalHandle := {} },
      some (family.makeCaptureIntent revision capture), ⟨family.address, revision, 0⟩)

/-- `Acknowledge`: with it the frame the superseded version's backing is bound to, if it has one;
`completed` is the pool clock's, and `leased` says that the superseded version holds a backing. -/
def acknowledge (family : VersionedBufferFamily) (version : Option PublishedBufferVersion)
    (completed : Nat) (leased : Bool) : VersionedBufferFamily × Option Nat :=
  match version with
  | none => (family, none)
  | some version =>
    match family.previous with
    | none => ({ family with previous := some version }, none)
    | some previous =>
      if version.revision ≤ previous.revision then (family, none)
      else
        let window := family.supersededWindow.getD (2 * max family.framesInFlight 1 + 1)
        ({ family with previous := some version },
          if leased && previous.backingEpoch != version.backingEpoch && window != 0 then
            some (completed + window)
          else none)

end VersionedBufferFamily

/-! ## Runs -/

inductive FamilyAction where
  /-- An operation of the journal, which is initialized already. -/
  | journal (operation : JournalAction)
  /-- `RequestCapture` with the capture taken as number `capture`. -/
  | requestCapture (uploads : Bool) (revision capture : Nat) (submitted : ArtifactRequestResult)
  | postCapture (uploads : Bool) (revision capture : Nat)
  | acknowledge (version : Option PublishedBufferVersion) (completed : Nat) (leased : Bool)
  deriving DecidableEq, Repr

/-- The journal is initialized once, before the run. -/
def JournalAction.initializes : JournalAction → Bool
  | .initializeImage .. | .initializeThrows .. => true
  | _ => false

structure FamilyRun where
  journal : JournalRun
  family : VersionedBufferFamily
  /-- Every build intent submitted or posted, oldest first. -/
  submitted : List BuildIntent := []
  deriving DecidableEq, Repr

namespace FamilyRun

def step (r : FamilyRun) : FamilyAction → Option FamilyRun
  | .journal operation =>
    if operation.initializes then none
    else (r.journal.step operation).map fun journal => { r with journal }
  | .requestCapture uploads revision capture submitted =>
    r.journal.captures[capture]?.map fun capture =>
      let (family, intent, _) := r.family.requestCapture uploads revision capture submitted
      { r with family, submitted := r.submitted ++ intent.toList }
  | .postCapture uploads revision capture =>
    r.journal.captures[capture]?.map fun capture =>
      let (family, intent, _) := r.family.postCapture uploads revision capture
      { r with family, submitted := r.submitted ++ intent.toList }
  | .acknowledge version completed leased =>
    some { r with family := (r.family.acknowledge version completed leased).1 }

end FamilyRun

end ModuleServices
