import ModuleServices.Growth.Policy
import Mathlib.Tactic.Common

/-!
# What the state graph speaks of

Addresses, versions, requirements, snapshots and build results, as `ArtifactIdentity.h`,
`ArtifactResources.h`, `ArtifactSnapshot.h` and `ArtifactBuild.h` have them. A kind is
its number; a payload is the identity of its value and of its type, type 0 being `void`;
a lease token, a submission set and a cancellation flag are numbers that stand for the
shared object.
-/

namespace ModuleServices.Graph

/-- `ArtifactAddress`. -/
structure ArtifactKey where
  kind : Nat := 0
  primaryID : Nat := 0
  variantID : Nat := 0
  deriving DecidableEq, Repr

/-- `ArtifactVersionID`, the same triple as `StoredVersionKey`. -/
structure VersionID where
  address : ArtifactKey := {}
  revision : Nat := 0
  generation : Nat := 0
  deriving DecidableEq, Repr

/-- Names a version at all: `ArtifactVersionID::operator bool`. -/
def VersionID.isNamed (v : VersionID) : Bool := v.revision != 0 && v.generation != 0

/-- `VersionKey`: a revision of an address, whatever its generation. -/
structure VersionKey where
  address : ArtifactKey := {}
  revision : Nat := 0
  deriving DecidableEq, Repr

inductive ArtifactReadiness where
  | missing | blocked | queued | preparing | cpuReady | uploadSubmitted | gpuReady | published
  | superseded | cancelled | failed
  deriving DecidableEq, Repr

namespace ArtifactReadiness

/-- The enumeration's value. -/
def rank : ArtifactReadiness → Nat
  | missing => 0 | blocked => 1 | queued => 2 | preparing => 3 | cpuReady => 4
  | uploadSubmitted => 5 | gpuReady => 6 | published => 7 | superseded => 8 | cancelled => 9
  | failed => 10

/-- `ReadinessName`. -/
def name : ArtifactReadiness → String
  | missing => "Missing" | blocked => "Blocked" | queued => "Queued" | preparing => "Preparing"
  | cpuReady => "CpuReady" | uploadSubmitted => "UploadSubmitted" | gpuReady => "GpuReady"
  | published => "Published" | superseded => "Superseded" | cancelled => "Cancelled"
  | failed => "Failed"

/-- No later state of the same version can follow. -/
def terminal : ArtifactReadiness → Bool
  | failed | cancelled | superseded => true
  | _ => false

/-- `IsOutstandingState`. -/
def outstanding : ArtifactReadiness → Bool
  | gpuReady | published | superseded | cancelled | failed => false
  | _ => true

/-- `ArtifactReachedMilestone`, which `Satisfies` is. -/
def satisfies (actual required : ArtifactReadiness) : Bool :=
  if actual = published then true
  else if actual.terminal then false
  else decide (required.rank ≤ actual.rank)

end ArtifactReadiness

inductive DependencyPolicy where
  | allOf | anyOf | optional | fallbackAllowed
  deriving DecidableEq, Repr

def DependencyPolicy.rank : DependencyPolicy → Nat
  | allOf => 0 | anyOf => 1 | optional => 2 | fallbackAllowed => 3

inductive InvalidationPolicy where
  | exactSnapshot | latest | readyGate | lifetimeHold
  deriving DecidableEq, Repr

def InvalidationPolicy.rank : InvalidationPolicy → Nat
  | exactSnapshot => 0 | latest => 1 | readyGate => 2 | lifetimeHold => 3

structure ArtifactRequirement where
  key : ArtifactKey := {}
  minimumRevision : Nat := 0
  requiredReadiness : ArtifactReadiness := .cpuReady
  policy : DependencyPolicy := .allOf
  alternativeGroup : Nat := 0
  invalidation : InvalidationPolicy := .latest
  requiredGeneration : Nat := 0
  deriving DecidableEq, Repr

/-- The version an exact requirement names; generation 0 stands for any. -/
def ArtifactRequirement.version (r : ArtifactRequirement) : VersionID :=
  ⟨r.key, r.minimumRevision, r.requiredGeneration⟩

/-- Contributes to the build but never keeps it waiting. -/
def ArtifactRequirement.gates (r : ArtifactRequirement) : Bool :=
  r.policy != .optional && r.invalidation != .lifetimeHold

/-- `Exact`. -/
def exact (version : VersionID) (readiness : ArtifactReadiness) : ArtifactRequirement :=
  { key := version.address, minimumRevision := version.revision, requiredReadiness := readiness
    invalidation := .exactSnapshot, requiredGeneration := version.generation }

structure ArtifactPayload where
  value : Option Nat := none
  type : Nat := 0
  deriving DecidableEq, Repr

/-- `ArtifactPayload::Valid`. -/
def ArtifactPayload.valid (p : ArtifactPayload) : Bool := p.value.isSome

structure ArtifactSnapshot where
  key : ArtifactKey := {}
  revision : Nat := 0
  generation : Nat := 0
  readiness : ArtifactReadiness := .missing
  payload : ArtifactPayload := {}
  gpuSubmissions : Option Nat := none
  lease : Option Nat := none
  deriving DecidableEq, Repr

def ArtifactSnapshot.version (s : ArtifactSnapshot) : VersionID := ⟨s.key, s.revision, s.generation⟩

structure ArtifactKindPolicy where
  allowCoalescing : Bool := true
  pinExactContent : Bool := true
  deriving DecidableEq, Repr

/-- What the callbacks of a `GpuSubmissionSet` answer now; the defaults are those of a set without
callbacks. -/
structure GpuStatus where
  submitted : Bool := true
  complete : Bool := true
  failed : Bool := false
  failure : String := "GPU submission failed"
  completionNotificationsAreAuthoritative : Bool := false
  deriving DecidableEq, Repr

inductive ArtifactRequestStatus where
  | accepted | alreadyDesired | staleRevision | conflictingRevision | missingFingerprint
  | typeMismatch
  deriving DecidableEq, Repr

/-- `RequestStatusName`. -/
def ArtifactRequestStatus.name : ArtifactRequestStatus → String
  | accepted => "Accepted" | alreadyDesired => "AlreadyDesired" | staleRevision => "StaleRevision"
  | conflictingRevision => "ConflictingRevision" | missingFingerprint => "MissingFingerprint"
  | typeMismatch => "TypeMismatch"

structure ArtifactRequestResult where
  status : ArtifactRequestStatus
  generation : Nat := 0
  version : VersionID := {}
  lease : Option Nat := none
  deriving DecidableEq, Repr

/-- `ArtifactIntent`, which `ArtifactRequest` is. -/
structure ArtifactIntent where
  key : ArtifactKey
  desiredRevision : Nat
  requirements : List ArtifactRequirement := []
  input : ArtifactPayload := {}
  requestFingerprint : Nat := 0
  deriving DecidableEq, Repr

inductive SuspensionKind where
  | exactDependency | capacity | externalOperation | transientRetry
  deriving DecidableEq, Repr

structure ArtifactSuspension where
  kind : SuspensionKind := .externalOperation
  identity : Nat := 0
  dependency : VersionID := {}
  milestone : ArtifactReadiness := .gpuReady
  deriving DecidableEq, Repr

inductive Outcome where
  | ready | needsDependencies | retryAfter | failed | cancelled | suspended
  deriving DecidableEq, Repr

structure ArtifactBuildResult where
  outcome : Outcome := .failed
  payload : ArtifactPayload := {}
  checkpoint : ArtifactPayload := {}
  requirements : List ArtifactRequirement := []
  gpuSubmissions : Option Nat := none
  retryDelay : Nat := 0
  suspension : Option ArtifactSuspension := none
  error : String := ""
  /-- An acceptance action is registered, under either field of the source. -/
  acceptance : Bool := false
  deriving DecidableEq, Repr

/-- `ArtifactBuildResult::Failure`. -/
def failure (error : String) : ArtifactBuildResult := { outcome := .failed, error }

structure Producer where
  inputType : Nat := 0
  outputType : Nat := 0
  /-- The producer function is set. -/
  callable : Bool := true
  deriving DecidableEq, Repr

/-- `KeyString`. -/
def keyString (key : ArtifactKey) : String :=
  toString key.kind ++ ":" ++ toString key.primaryID ++ ":" ++ toString key.variantID

/-- `HashRequestValue` in 64 bits. -/
def hashRequestValue (hash value : Nat) : Nat :=
  (hash ^^^ ((value + 0x9e3779b97f4a7c15 + (hash <<< 6) + (hash >>> 2)) % 2 ^ 64)) % 2 ^ 64

/-- `CanonicalRequestFingerprint`. -/
def canonicalRequestFingerprint (key : ArtifactKey) (revision : Nat)
    (requirements : List ArtifactRequirement) : Nat :=
  let hash := [key.kind, key.primaryID, key.variantID, revision].foldl hashRequestValue
    1469598103934665603
  let hash := requirements.foldl (fun hash r =>
    [r.key.kind, r.key.primaryID, r.key.variantID, r.minimumRevision, r.requiredReadiness.rank,
      r.policy.rank, r.alternativeGroup, r.invalidation.rank, r.requiredGeneration].foldl
      hashRequestValue hash) hash
  if hash = 0 then 1 else hash

theorem canonicalRequestFingerprint_ne_zero (key : ArtifactKey) (revision : Nat)
    (requirements : List ArtifactRequirement) :
    canonicalRequestFingerprint key revision requirements ≠ 0 := by
  unfold canonicalRequestFingerprint
  simp only
  split
  · exact Nat.one_ne_zero
  · assumption

namespace ArtifactReadiness

/-- A milestone from `CpuReady` on is met only by a state that is itself one. -/
theorem ready_of_satisfies {actual required : ArtifactReadiness}
    (hrequired : cpuReady.rank ≤ required.rank) (h : actual.satisfies required = true) :
    actual.satisfies cpuReady = true := by
  unfold satisfies at h ⊢
  split
  · rfl
  · rw [if_neg ‹_›] at h
    split
    · rw [if_pos ‹_›] at h
      exact h
    · rw [if_neg ‹_›] at h
      exact decide_eq_true (Nat.le_trans hrequired (of_decide_eq_true h))

theorem not_satisfies_of_terminal {actual required : ArtifactReadiness}
    (h : actual.terminal = true) : actual.satisfies required = false := by
  cases actual <;> first | rfl | cases h

theorem satisfies_trans {a b c : ArtifactReadiness} (hab : a.satisfies b = true)
    (hbc : b.satisfies c = true) : a.satisfies c = true := by
  cases a <;> cases b <;> cases c <;> first | rfl | exact hab | exact hbc

end ArtifactReadiness

end ModuleServices.Graph
