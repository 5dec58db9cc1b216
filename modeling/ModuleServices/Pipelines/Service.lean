import Mathlib
import ModuleServices.Lib.Run
import ModuleServices.Lib.Table

/-!
# `PipelineService`

Pipelines built asynchronously, one build per key, and published at safe points: one active
pipeline per recipe id, what it displaces held until a fence is passed. Every call but the
build itself is one critical section of the service's mutex; a build ends at any later time,
in the flight it holds. The service's tables are hash maps, and `PublishReady` walks one of
them, so the order of its walk is part of the action.
-/

namespace ModuleServices

/-- A payload, by a name of its own. -/
abbrev PipelinePayload := Nat

/-- A recipe without its factory: what the factory does is the environment's (`PipelineBuild`). -/
structure PipelineRecipe where
  id : String
  layoutKey : UInt64 := 0
  shaderKey : UInt64 := 0
  fixedFunctionKey : UInt64 := 0
  deviceKey : UInt64 := 0
  deriving DecidableEq, Repr

structure PipelineArtifact where
  key : UInt64
  generation : Nat
  payload : Option PipelinePayload := none
  error : String := ""
  deriving DecidableEq, Repr

/-- A request in flight: what its task holds, and the future's value once it is there. -/
structure Flight where
  recipe : PipelineRecipe
  key : UInt64
  generation : Nat
  result : Option PipelineArtifact := none
  deriving DecidableEq, Repr

structure PipelineService where
  nextGeneration : Nat := 1
  /-- Every flight made; tasks hold flights the service has let go of. -/
  flights : List Flight := []
  inFlight : Table UInt64 Nat := ∅
  active : Table UInt64 PipelineArtifact := ∅
  idsByKey : Table UInt64 String := ∅
  activeKeyById : Table String UInt64 := ∅
  retired : List (Nat × PipelinePayload) := []

namespace PipelineService

/-! ## Keys -/

/-- `Mix`. -/
def mix (seed value : UInt64) : UInt64 :=
  let value := value ^^^ (value >>> 30)
  let value := value * 0xbf58476d1ce4e5b9
  let value := value ^^^ (value >>> 27)
  let value := value * 0x94d049bb133111eb
  let value := value ^^^ (value >>> 31)
  seed ^^^ (value + (0x9e3779b97f4a7c15 : UInt64) + (seed <<< (6 : UInt64)) + (seed >>> (2 : UInt64)))

/-- `HashString`. -/
def hashString (value : String) : UInt64 :=
  value.toUTF8.data.toList.foldl
    (fun (hash : UInt64) byte => (hash ^^^ byte.toUInt64) * 1099511628211) 1469598103934665603

/-- `BuildKey`. -/
def buildKey (recipe : PipelineRecipe) : UInt64 :=
  let key := hashString recipe.id
  let key := mix key recipe.layoutKey
  let key := mix key recipe.shaderKey
  let key := mix key recipe.fixedFunctionKey
  mix key recipe.deviceKey

/-! ## Requests and builds -/

/-- The generation a request waits for: the active artifact's, or that of the flight joined or
made, with the service after it. -/
def request (s : PipelineService) (recipe : PipelineRecipe) : Nat × PipelineService :=
  let key := buildKey recipe
  match s.active.find? key with
  | some artifact => (artifact.generation, s)
  | none =>
    match (s.inFlight.find? key).bind (s.flights[·]?) with
    | some flight => (flight.generation, s)
    | none =>
      let generation := s.nextGeneration
      (generation, { s with
        nextGeneration := generation + 1
        idsByKey := s.idsByKey.insert key recipe.id
        flights := s.flights ++ [{ recipe, key, generation }]
        inFlight := s.inFlight.insert key s.flights.length })

/-- How a request's task ends. -/
inductive PipelineBuild where
  | payload (payload : PipelinePayload)
  | nothing
  | throws (what : String)
  | throwsOther
  | noFactory
  | refused
  deriving DecidableEq, Repr

/-- The artifact a flight completes with. -/
def Flight.artifact (flight : Flight) (build : PipelineBuild) : PipelineArtifact :=
  let result : PipelineArtifact := { key := flight.key, generation := flight.generation }
  match build with
  | .payload payload => { result with payload := some payload }
  | .nothing => { result with error := "pipeline factory returned no payload" }
  | .throws what => { result with error := what }
  | .throwsOther => { result with error := "pipeline factory failed" }
  | .noFactory => { result with error := "pipeline recipe has no factory" }
  | .refused => { result with error := "the pipeline submitter refused the request" }

/-- `flight->Complete`, once for a flight. -/
def complete (s : PipelineService) (index : Nat) (build : PipelineBuild) : Option PipelineService :=
  match s.flights[index]? with
  | none => none
  | some flight =>
    if flight.result.isSome then none
    else some { s with
      flights := s.flights.set index { flight with result := some (Flight.artifact flight build) } }

/-! ## `PublishReady` and `Retire` -/

/-- A payload retires at a fence; an artifact without one has nothing to retire. -/
def retirePayload (s : PipelineService) (fence : Nat) (artifact : PipelineArtifact) :
    PipelineService :=
  match artifact.payload with
  | some payload => { s with retired := s.retired ++ [(fence, payload)] }
  | none => s

/-- The id's previous pipeline is displaced, when it is another key's. -/
def displacePrior (s : PipelineService) (fence : Nat) (id : String) (key : UInt64) :
    PipelineService :=
  match s.activeKeyById.find? id with
  | none => s
  | some priorKey =>
    if priorKey = key then s
    else
      let s := match s.active.find? priorKey with
        | some prior =>
          { s.retirePayload fence prior with active := s.active.erase priorKey }
        | none => s
      { s with idsByKey := s.idsByKey.erase priorKey }

/-- The future of a key in flight, once it is ready. -/
def readyArtifact (s : PipelineService) (key : UInt64) : Option PipelineArtifact :=
  ((s.inFlight.find? key).bind (s.flights[·]?)).bind (·.result)

/-- The body of `PublishReady`'s loop, at one key in flight. -/
def publishKey (fence : Nat) (s : PipelineService) (key : UInt64) : PipelineService :=
  match s.readyArtifact key with
  | none => s
  | some artifact =>
    let published :=
      match s.idsByKey.find? key with
      | none => s
      | some id =>
        if artifact.payload.isSome then
          let s := s.displacePrior fence id key
          let s := match s.active.find? key with
            | some old => s.retirePayload fence old
            | none => s
          { s with
            active := s.active.insert key artifact
            activeKeyById := s.activeKeyById.insert id key }
        else if s.active.contains key then s
        else { s with idsByKey := s.idsByKey.erase key }
    { published with inFlight := published.inFlight.erase key }

/-- `PublishReady`, its walk over `inFlight_` in a given order. -/
def publishReady (s : PipelineService) (fence : Nat) (order : List UInt64) : PipelineService :=
  order.foldl (publishKey fence) s

/-- `Retire`. -/
def retire (s : PipelineService) (completed : Nat) : PipelineService :=
  { s with retired := s.retired.dropWhile fun entry => decide (entry.1 ≤ completed) }

/-- `Find`, of the active artifacts. -/
def activeOf (s : PipelineService) (id : String) : Option PipelineArtifact :=
  (s.activeKeyById.find? id).bind s.active.find?

end PipelineService

/-! ## Runs -/

/-- What became of a published artifact. -/
structure Published where
  artifact : PipelineArtifact
  /-- The fence of the `PublishReady` that displaced it. -/
  displacedAt : Option Nat := none
  /-- A `Retire` since has passed that fence. -/
  passed : Bool := false
  deriving DecidableEq, Repr

structure PipelineRun where
  service : PipelineService := {}
  /-- Every request, with the generation it waits for. -/
  requests : List (PipelineRecipe × Nat) := []
  /-- Every artifact published. -/
  published : List Published := []
  /-- The fence of the last `PublishReady`. -/
  fence : Nat := 0

inductive PipelineAction where
  | request (recipe : PipelineRecipe)
  | complete (flight : Nat) (build : PipelineService.PipelineBuild)
  | publishReady (fence : Nat) (order : List UInt64)
  | retire (completed : Nat)
  deriving DecidableEq, Repr

namespace PipelineRun

/-- The artifacts a walk publishes, in its order. -/
def ready (r : PipelineRun) (order : List UInt64) : List PipelineArtifact :=
  (order.filterMap r.service.readyArtifact).filter (·.payload.isSome)

/-- An artifact is the active one of its key. -/
def isActive (s : PipelineService) (artifact : PipelineArtifact) : Bool :=
  s.active.find? artifact.key == some artifact

/-- A published artifact after a `PublishReady`: displaced once it is not active any more. -/
def Published.after (s : PipelineService) (fence : Nat) (entry : Published) : Published :=
  if entry.displacedAt = none ∧ isActive s entry.artifact = false then
    { entry with displacedAt := some fence }
  else entry

/-- A published artifact after a `Retire`. -/
def Published.passing (completed : Nat) (entry : Published) : Published :=
  { entry with passed := entry.passed || entry.displacedAt.any (decide <| · ≤ completed) }

def step (r : PipelineRun) : PipelineAction → Option PipelineRun
  | .request recipe =>
    let (generation, service) := r.service.request recipe
    some { r with service, requests := r.requests ++ [(recipe, generation)] }
  | .complete flight build => (r.service.complete flight build).map fun service => { r with service }
  | .publishReady fence order =>
    if order.Perm r.service.inFlight.keys then
      let service := r.service.publishReady fence order
      let published := r.published ++ (r.ready order).map fun artifact => { artifact }
      some { r with
        service
        published := published.map (Published.after service fence)
        fence }
    else none
  | .retire completed =>
    some { r with
      service := r.service.retire completed
      published := r.published.map (Published.passing completed) }

/-- Distinct recipes hash to distinct keys, and retirement fences do not go down. -/
def Assumed (r : PipelineRun) : PipelineAction → Prop
  | .request recipe => ∀ request ∈ r.requests,
      PipelineService.buildKey request.1 = PipelineService.buildKey recipe → request.1 = recipe
  | .publishReady fence _ => r.fence ≤ fence
  | _ => True

/-- The id a key in flight or active belongs to. -/
def idOf (r : PipelineRun) (artifact : PipelineArtifact) : Option String :=
  r.service.idsByKey.find? artifact.key

/-- The last artifact of an id a walk publishes. -/
def lastReady (r : PipelineRun) (order : List UInt64) (id : String) : Option PipelineArtifact :=
  ((r.ready order).filter fun artifact => r.idOf artifact == some id).getLast?

/-- The last artifact of each id a walk publishes is the id's newest: no other one in the walk and
not the active one is of a higher generation. -/
def NewestLast (r : PipelineRun) : PipelineAction → Prop
  | .publishReady _ order => ∀ artifact ∈ r.ready order, ∀ id ∈ r.idOf artifact,
      ∀ last ∈ r.lastReady order id, artifact.generation ≤ last.generation
        ∧ ∀ active ∈ r.service.activeOf id, active.generation ≤ last.generation
  | _ => True

end PipelineRun

end ModuleServices
