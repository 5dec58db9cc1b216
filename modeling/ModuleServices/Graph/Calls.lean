import ModuleServices.Graph.Drain

/-!
# Which functions a step enters

A step of the machine is a call into the graph or the drain taking one item, and a
batch is several calls one after the other. `calls` lists the entries of a step into
the functions that change the tables, each with the state it is entered in, so that a
condition on a run can speak of the call it is about and not of the queue the call
came from.
-/

namespace ModuleServices.Graph

/-- An entry into one of the graph's functions. -/
inductive Call where
  | await (operation : PostedAwait)
  | suspensionSatisfied (identity : Nat)
  | request (a : World.RequestArgs)
  | cancel (key : ArtifactKey)
  | release (key : ArtifactKey)
  | markPublished (version : VersionID)
  | gpu (evaluation : EvaluatedGpu)
  | retry (entry : RetryEntry)
  | complete (completion : Completion)
  | wake (dependency consumer : ArtifactKey)
  | build (key : ArtifactKey)
  | reclaim (version : VersionID)
  deriving DecidableEq, Repr

namespace World

/-- The calls of a loop over a list. -/
def callsOf {α : Type} (f : World → α → World) (call : α → Call) :
    World → List α → List (World × Call)
  | _, [] => []
  | s, x :: xs => (s, call x) :: callsOf f call (f s x) xs

def revisionCalls (s : World) (key : ArtifactKey) (revision : Nat) : List (World × Call) :=
  let archived := (s.addressVersions key).filter fun v => v.revision == revision
  let published := archived.foldl markPublishedLocked s
  callsOf markPublishedLocked Call.markPublished s archived ++
    match published.nodes.find? key with
    | none => []
    | some node =>
      if node.producedRevision = revision then
        [(published, Call.markPublished ⟨key, revision, node.versionGeneration⟩)]
      else []

def mutationCalls (s : World) : Mutation → List (World × Call)
  | .requestBatch intents coalescible =>
    callsOf (fun s intent => s.requestInternal (ofIntent intent coalescible))
      (fun intent => .request (ofIntent intent coalescible)) s
      (intents.filter (s.validIntent coalescible))
  | .invalidate key desiredRevision => [(s, .request (s.invalidateArgs key desiredRevision))]
  | .cancel key => [(s, .cancel key)]
  | .release keys => callsOf releaseLocked .release s keys
  | .markPublished versions => callsOf markPublishedLocked Call.markPublished s versions
  | .markPublishedRevision key revision => s.revisionCalls key revision
  | .pumpGpuCompletions | .addReadyCallback _ | .removeReadyCallback _ | .observe _ _ => []

def postedCalls (s : World) : PostedRequest → List (World × Call)
  | .request intent coalescible generation lease =>
    [(s, .request { ofIntent intent coalescible with
      preassignedGeneration := generation, preassignedLease := lease })]
  | .mutation m => s.mutationCalls m

/-- The calls of taking the next item. -/
def itemCalls (s : World) : List (World × Call) :=
  match s.slice.phase with
  | .awaits =>
    match s.postedAwaits with
    | operation :: rest => [({ s with postedAwaits := rest }.took false, .await operation)]
    | [] => []
  | .suspensions =>
    match s.postedSuspensions with
    | identity :: rest =>
      [({ s with postedSuspensions := rest }.took false, .suspensionSatisfied identity)]
    | [] => []
  | .requests =>
    match s.postedIntents with
    | posted :: rest => ({ s with postedIntents := rest }.took false).postedCalls posted
    | [] => []
  | .gpuApply =>
    match s.slice.evaluatedGpu with
    | evaluation :: rest =>
      [({ s with slice := { s.slice with evaluatedGpu := rest } }, .gpu evaluation)]
    | [] => []
  | .retry =>
    match nextRetry s.retries with
    | some entry =>
      if s.retryStale entry then []
      else [({ s with retries := s.retries.erase entry }.took true, .retry entry)]
    | none => []
  | .complete =>
    match s.slice.readyCompletions with
    | completion :: rest =>
      [({ s with slice := { s.slice with readyCompletions := rest } }, .complete completion)]
    | [] => []
  | .build =>
    match s.pending with
    | key :: rest => [({ s with pending := rest }.took false, .build key)]
    | [] => []
  | .reclaim =>
    match s.reclaimQueue with
    | v :: rest => [({ s with reclaimQueue := rest }.took false, .reclaim v)]
    | [] => []
  | _ => []

/-- The calls of a wake. -/
def wakeCalls (s : World) (consumer : ArtifactKey) : List (World × Call) :=
  match s.pendingWaiterWakes with
  | wake :: wakes =>
    if consumer ∈ s.slice.evaluatedWaiters then []
    else
      let s := (s.takeConsumer wake wakes consumer).took true
      [({ s with slice := { s.slice with
          evaluatedWaiters := consumer :: s.slice.evaluatedWaiters } },
        .wake wake.dependency consumer)]
  | [] => []

end World

open World in
/-- The entries of a step into the graph's functions. -/
def calls (s : World) : Action → List (World × Call)
  | .requestInline intents coalescible => s.mutationCalls (.requestBatch intents coalescible)
  | .item => s.itemCalls
  | .wake consumer => s.wakeCalls consumer
  | _ => []

/-- Every call of the step meets `Q`. -/
def CallsMeet (Q : World → Call → Prop) (s : World) (a : Action) : Prop :=
  ∀ entry ∈ calls s a, Q entry.1 entry.2

end ModuleServices.Graph
