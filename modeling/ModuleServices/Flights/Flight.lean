import ModuleServices.Lib.Run
import ModuleServices.Lib.Table

/-!
# Requests in flight

`CompletionFlight` and the two services that keep flights by key: `ShaderCompiler::CompileAsync` and
`PipelineService::Request`. Every critical section is one step and every callback is one; between
them anything may happen on other threads, and a callback that requests again is another requester. A
callback is the number of the requester it belongs to. How a thread goes on after it has made the
flight's completion its own (the task, or the owner whose submission was refused) is kept in the
flight, as `work`.
-/

namespace ModuleServices.Flights

/-- How the work of a flight ended: `Complete`, or `Fail`. -/
inductive Outcome (α : Type) where
  | complete (value : α)
  | fail (error : String) (delivered : α)
  deriving DecidableEq, Repr

/-- `CompletionFlight`. -/
structure CompletionFlight (α : Type) where
  /-- The promise's value, or the error the future rethrows. -/
  future : Option (Except String α) := none
  /-- What the callbacks receive of a failure. -/
  failure : Option α := none
  done : Bool := false
  callbacks : List Nat := []

namespace CompletionFlight

variable {α : Type}

/-- `Attach` under the lock: with it whether the callback is to be called at once. -/
def attach (flight : CompletionFlight α) (callback : Nat) : CompletionFlight α × Bool :=
  if flight.done then (flight, true)
  else ({ flight with callbacks := flight.callbacks ++ [callback] }, false)

/-- What `Complete` and `Fail` do to the promise. -/
def resolve (flight : CompletionFlight α) : Outcome α → CompletionFlight α
  | .complete value => { flight with future := some (.ok value) }
  | .fail error delivered => { flight with failure := some delivered, future := some (.error error) }

/-- `Finish` under the lock: with it the callbacks taken. -/
def finish (flight : CompletionFlight α) : CompletionFlight α × List Nat :=
  ({ flight with done := true, callbacks := [] }, flight.callbacks)

/-- `Result`, once there is one. -/
def result (flight : CompletionFlight α) : Option α :=
  match flight.failure with
  | some delivered => some delivered
  | none => flight.future.bind Except.toOption

end CompletionFlight

/-- What the submitter does with a task. -/
inductive Submission where
  | runs | refuses | throws
  deriving DecidableEq, Repr

/-- `LaunchServiceTask`: false, the task will never run. -/
def launchServiceTask : Submission → Bool
  | .runs => true
  | .refuses | .throws => false

inductive Service where
  | shaderCompiler | pipelineService
  deriving DecidableEq, Repr

/-- How far the work of a flight has come. -/
inductive Work (α : Type) where
  | unlaunched
  /-- The submitter has the task. -/
  | queued
  /-- `FinishFlight` is about to take the flight out of the table. -/
  | leaving (outcome : Outcome α)
  /-- `Complete` or `Fail` is about to set the promise. -/
  | resolving (outcome : Outcome α)
  /-- `Finish` is about to take the callbacks. -/
  | finishing
  | delivering (callbacks : List Nat)
  | finished
  deriving DecidableEq, Repr

structure FlightRecord (κ α : Type) where
  key : κ
  /-- The requester that made the flight and submits its task. -/
  owner : Nat
  flight : CompletionFlight α := {}
  work : Work α := .unlaunched

/-- Where a requester is in its call. -/
inductive Phase (α : Type) where
  /-- The artifact was there; its callback is to be called with it. -/
  | hit (artifact : α)
  | attaching (flight : Nat)
  /-- The flight is done; the callback is to be called at once. -/
  | calling (flight : Nat)
  | attached (flight : Nat)
  /-- With the flight whose future it was given, none for one that was ready. -/
  | returned (flight : Option Nat)
  deriving DecidableEq, Repr

structure Requester (κ α : Type) where
  key : κ
  /-- It came with a completion callback. -/
  callback : Bool
  phase : Phase α

structure World (κ α : Type) where
  service : Service
  /-- What a cached artifact is handed out as: the shader compiler marks it as from the cache. -/
  reuse : α → α
  /-- The artifact of a request whose submission is refused. -/
  refused : κ → α
  /-- `PipelineArtifact::operator bool`. -/
  usable : α → Bool
  /-- `memory_`, `active_`. -/
  cached : Table κ α := ∅
  /-- `flights_`, `inFlight_`. -/
  table : Table κ Nat := ∅
  /-- Every flight made; whoever holds one keeps it. -/
  flights : List (FlightRecord κ α) := []
  requesters : List (Requester κ α) := []
  /-- The flights whose task was submitted, in that order. -/
  launched : List Nat := []
  /-- The callbacks called, with what they were called with. -/
  ran : List (Nat × Option α) := []

namespace World

variable {κ α : Type}

def enter (s : World κ α) (key : κ) (callback : Bool) (phase : Phase α) : World κ α :=
  { s with requesters := s.requesters ++ [{ key, callback, phase }] }

def setPhase (s : World κ α) (i : Nat) (r : Requester κ α) (phase : Phase α) : World κ α :=
  { s with requesters := s.requesters.set i { r with phase } }

def setFlight (s : World κ α) (f : Nat) (record : FlightRecord κ α) : World κ α :=
  { s with flights := s.flights.set f record }

def call (s : World κ α) (callback : Nat) (argument : Option α) : World κ α :=
  { s with ran := s.ran ++ [(callback, argument)] }

/-- Where a completion begins: only the shader compiler's `FinishFlight` goes to the table first. -/
def begins (s : World κ α) (outcome : Outcome α) : Work α :=
  match s.service with
  | .shaderCompiler => .leaving outcome
  | .pipelineService => .resolving outcome

variable [DecidableEq κ]

/-- The critical section of `CompileAsync` and of `Request`. -/
def request (s : World κ α) (key : κ) (callback : Bool) : World κ α :=
  match s.cached.find? key with
  | some artifact => s.enter key callback (.hit (s.reuse artifact))
  | none =>
    match s.table.find? key with
    | some f => s.enter key callback (.attaching f)
    | none =>
      { s.enter key callback (.attaching s.flights.length) with
        flights := s.flights ++ [{ key, owner := s.requesters.length }]
        table := s.table.insert key s.flights.length }

/-- A requester's next step; `submission` is what the submitter does, if it comes to that. -/
def advance (s : World κ α) (i : Nat) (submission : Submission) : Option (World κ α) :=
  s.requesters[i]?.bind fun r =>
    match r.phase with
    | .hit artifact =>
      let s' := s.setPhase i r (.returned none)
      some (if r.callback then s'.call i (some artifact) else s')
    | .attaching f =>
      if r.callback then
        s.flights[f]?.map fun record =>
          let (flight, now) := record.flight.attach i
          if now then s.setPhase i r (.calling f)
          else (s.setFlight f { record with flight }).setPhase i r (.attached f)
      else some (s.setPhase i r (.attached f))
    | .calling f =>
      s.flights[f]?.map fun record =>
        (s.setPhase i r (.attached f)).call i record.flight.result
    | .attached f =>
      s.flights[f]?.map fun record =>
        let s' := s.setPhase i r (.returned (some f))
        if record.owner = i then
          { s'.setFlight f { record with
              work := if launchServiceTask submission then .queued
                else s.begins (.complete (s.refused record.key)) } with
            launched := s.launched ++ [f] }
        else s'
    | .returned _ => none

/-- How a task can end. Only the shader compiler's may fail with an exception or have put its result
into the memory cache (`stored`). -/
def ends (s : World κ α) : Outcome α → Bool → Bool
  | .complete _, stored => !stored || s.service == .shaderCompiler
  | .fail _ _, stored => !stored && s.service == .shaderCompiler

def store (s : World κ α) (key : κ) : Outcome α → World κ α
  | .complete value => { s with cached := s.cached.insert key value }
  | .fail _ _ => s

/-- The task runs to the end of `CompileOwned`, or of the recipe's factory. -/
def runTask (s : World κ α) (f : Nat) (outcome : Outcome α) (stored : Bool) : Option (World κ α) :=
  s.flights[f]?.bind fun record =>
    match record.work with
    | .queued =>
      if s.ends outcome stored then
        let s' := s.setFlight f { record with work := s.begins outcome }
        some (if stored then s'.store record.key outcome else s')
      else none
    | _ => none

/-- The next step of a flight's completion. -/
def finish (s : World κ α) (f : Nat) : Option (World κ α) :=
  s.flights[f]?.bind fun record =>
    match record.work with
    | .leaving outcome =>
      let s' := s.setFlight f { record with work := .resolving outcome }
      some (if s.table.find? record.key = some f then { s' with table := s.table.erase record.key }
        else s')
    | .resolving outcome =>
      some (s.setFlight f { record with
        flight := record.flight.resolve outcome, work := .finishing })
    | .finishing =>
      let (flight, callbacks) := record.flight.finish
      some (s.setFlight f { record with flight, work := .delivering callbacks })
    | .delivering (i :: callbacks) =>
      some ((s.setFlight f { record with work := .delivering callbacks }).call i record.flight.result)
    | .delivering [] => some (s.setFlight f { record with work := .finished })
    | .unlaunched | .queued | .finished => none

/-- The future of the flight under the key, if it is ready. -/
def readyUnder (s : World κ α) (key : κ) : Option (Except String α) :=
  (s.table.find? key).bind fun f => s.flights[f]?.bind fun record => record.flight.future

/-- What `PublishReady` does for one entry of `inFlight_`. -/
def publish (s : World κ α) (key : κ) : World κ α :=
  match s.readyUnder key with
  | none => s
  | some value =>
    { s with
      table := s.table.erase key
      cached := match value with
        | .ok artifact => if s.usable artifact then s.cached.insert key artifact else s.cached
        | .error _ => s.cached }

/-- `PublishReady`; `displaced` are the keys whose active pipeline another of the same id displaces. -/
def publishReady (s : World κ α) (displaced : List κ) : World κ α :=
  let s := s.table.keys.foldl publish s
  { s with cached := displaced.foldl Table.erase s.cached }

end World

inductive Action (κ α : Type) where
  | request (key : κ) (callback : Bool)
  | advance (requester : Nat) (submission : Submission)
  | runTask (flight : Nat) (outcome : Outcome α) (stored : Bool)
  | finish (flight : Nat)
  | clearMemoryCache
  | publishReady (displaced : List κ)
  deriving Repr

def step {κ α : Type} [DecidableEq κ] (s : World κ α) : Action κ α → Option (World κ α)
  | .request key callback => some (s.request key callback)
  | .advance i submission => s.advance i submission
  | .runTask f outcome stored => s.runTask f outcome stored
  | .finish f => s.finish f
  | .clearMemoryCache =>
    match s.service with
    | .shaderCompiler => some { s with cached := ∅ }
    | .pipelineService => none
  | .publishReady displaced =>
    match s.service with
    | .shaderCompiler => none
    | .pipelineService => some (s.publishReady displaced)

end ModuleServices.Flights
