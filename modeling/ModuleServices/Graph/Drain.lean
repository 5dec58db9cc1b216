import ModuleServices.Graph.Reclaim

/-!
# The drain, one item at a time

The graph's tables belong to its drain, which has one consumer; every other thread
reaches it through queues. So the model is a machine whose steps are either a call from
outside (`Action`'s first half) or the drain taking one item of the phase it stands in.
The phases follow `Drain` in order. A loop with a deadline may be left where the source
looks at the clock (`Slice.late`), and must be left when it is empty or has taken its
limit.
-/

namespace ModuleServices.Graph

namespace World

/-! ## Calls from outside -/

/-- The answer of a posting call that the drain has no part in. -/
def answerAtOnce (s : World) (a : RequestArgs) (status : ArtifactRequestStatus) : World :=
  s.log (.answered a.key a.desiredRevision a.coalescibleIntent { status })

/-- `Request` and `SubmitLatestIntent` from a thread other than the drain's. -/
def postSynchronous (s : World) (intent : ArtifactIntent) (coalescible : Bool) : World :=
  if coalescible ∧ (s.kindPolicy intent.key.kind).allowCoalescing = false then
    s.answerAtOnce (ofIntent intent coalescible) .typeMismatch
  else { s with postedIntents := s.postedIntents ++ [.request intent coalescible 0 none] }

/-- `PostIntents`. -/
def postIntents (s : World) (intents : List ArtifactIntent) : World :=
  { s with postedIntents := s.postedIntents ++ intents.map fun intent =>
      .request intent (s.kindPolicy intent.key.kind).allowCoalescing 0 none }

/-- `PostRequest`: the generation is reserved and leased before the drain sees the request. -/
def postRequest (s : World) (intent : ArtifactIntent) (coalescible : Bool) : World :=
  let a := ofIntent intent coalescible
  match a.refusal s with
  | some status => s.answerAtOnce a status
  | none =>
    let intent := { intent with requestFingerprint :=
      if intent.requestFingerprint = 0 then
        canonicalRequestFingerprint intent.key intent.desiredRevision intent.requirements
      else intent.requestFingerprint }
    let (s, generation) := s.reserveGeneration ⟨intent.key, intent.desiredRevision⟩
    let version : VersionID := ⟨intent.key, intent.desiredRevision, generation⟩
    let (s, lease) := s.makeLeaseToken version
    { s with
      postedIntents := s.postedIntents ++ [.request intent coalescible generation (some lease)]
      history := s.history ++ [.posted version lease] }

/-- `AwaitExact`. -/
def awaitExact (s : World) (version : VersionID) (milestone : ArtifactReadiness)
    (lease : Option Nat) : World :=
  { s with
    nextSubscription := s.nextSubscription + 1
    postedAwaits := s.postedAwaits ++
      [{ subscription := s.nextSubscription + 1, version, milestone, lease }] }

/-- The graph, a build or a queue still holds the token. -/
def leaseHeld (s : World) (token : Nat) : Bool :=
  let holds := fun lease : Option Nat => lease == some token
  let inSnapshots := fun snapshots : List ArtifactSnapshot => snapshots.any fun d => holds d.lease
  s.nodes.toList.any (fun entry => holds entry.2.lease || inSnapshots entry.2.resolvedDependencies
      || entry.2.successors.any fun successor => holds successor.lease)
    || s.exactWaiters.toList.any (fun entry => entry.2.any fun waiter => holds waiter.lease)
    || (s.running ++ s.slice.builds).any (fun context => inSnapshots context.dependencies)
    || (s.acceptances ++ s.slice.acceptanceDispatches).any (fun dispatch =>
      holds dispatch.snapshot.lease || inSnapshots dispatch.completion.dependencies)
    || (s.completions ++ s.slice.readyCompletions).any (fun c => inSnapshots c.dependencies)
    || inSnapshots (s.slice.ready ++ s.propagatedReady)
    || s.slice.settledAwaits.any (fun d => holds d.1.lease || holds d.2.lease)
    || s.slice.exactDispatches.any (fun d => holds d.1.lease || holds d.2.lease)
    || s.postedAwaits.any (fun operation => holds operation.lease)
    || s.postedIntents.any fun
      | .request _ _ _ lease => holds lease
      | .mutation _ => false

/-- The last copy of a lease goes. -/
def dropLease (s : World) (token : Nat) (version : VersionID) : World :=
  { s with
    liveLeases := s.liveLeases.erase token
    reclaimQueue := s.reclaimQueue ++ [version] }

/-- A producer's answer is queued. -/
def finishBuild (s : World) (index : Nat) (context : BuildContext) (result : ArtifactBuildResult) :
    World :=
  { s with
    running := s.running.eraseIdx index
    completions := s.completions ++
      [{ key := context.key, revision := context.revision, generation := context.generation
         dependencies := context.dependencies, result }] }

/-- An acceptance action has run; one that threw turns the result into a failure. -/
def finishAcceptance (s : World) (index : Nat) (dispatch : AcceptanceDispatch)
    (error : Option String) : World :=
  let result := error.elim dispatch.completion.result failure
  { s with
    acceptances := s.acceptances.eraseIdx index
    completions := s.completions ++ [{ dispatch.completion with result }] }

/-! ## One item of each phase -/

/-- The item is taken, and the deadline looked at or not. -/
def took (s : World) (late : Bool) : World :=
  { s with slice := { s.slice with count := s.slice.count + 1, late } }

/-- A node whose submission set is to be asked. -/
def gpuSignal (s : World) (key : ArtifactKey) : Option GpuSignal :=
  match s.nodes.find? key with
  | none => none
  | some node =>
    if node.state = .cpuReady ∨ node.state = .uploadSubmitted then
      node.waitingGpuSubmissions.map fun token => { key, generation := node.generation, token }
    else none

def signal (s : World) (signals : List GpuSignal) : World :=
  { s with slice := { s.slice with signalledGpu := s.slice.signalledGpu ++ signals } }

/-- One entry of the rotating recovery queue: kept while its node waits. -/
def recover (s : World) (key : ArtifactKey) : World :=
  match s.gpuSignal key with
  | none => s.took true
  | some signal =>
    let s := { s with gpuRecovery := s.gpuRecovery ++ [key] }
    (if s.slice.signalledGpu.any fun other => other.key == key then s
     else s.signal [signal]).took false

def evaluateGpu (s : World) (signal : GpuSignal) : World :=
  let status := s.gpuStatus signal.token
  let evaluated : EvaluatedGpu :=
    { signal, submitted := status.submitted, complete := status.submitted && status.complete
      failed := status.failed, error := if status.failed then status.failure else "" }
  { s with slice := { s.slice with evaluatedGpu := s.slice.evaluatedGpu ++ [evaluated] } }

/-- The consumer leaves the wake at the front, which goes when it was the last. -/
def takeConsumer (s : World) (wake : PendingWaiterWake) (wakes : List PendingWaiterWake)
    (consumer : ArtifactKey) : World :=
  let consumers := wake.consumers.erase consumer
  { s with pendingWaiterWakes :=
      if consumers = [] then wakes else { wake with consumers } :: wakes }

/-- A consumer is evaluated once in a slice; its later wakes of the slice are spent. -/
def wakeConsumer (s : World) (dependency consumer : ArtifactKey) : World :=
  if consumer ∈ s.slice.evaluatedWaiters then s
  else
    { s with slice := { s.slice with
      evaluatedWaiters := consumer :: s.slice.evaluatedWaiters } }.wakeWaiter dependency consumer

/-- The hand-overs after the state is published, in the source's order. -/
def handOver (s : World) : Option World :=
  match s.slice.pendingGpuSubscriptions with
  | key :: rest =>
    some { s with
      gpuSignals := s.gpuSignals ++ [key]
      slice := { s.slice with pendingGpuSubscriptions := rest } }
  | [] =>
    match s.slice.builds with
    | context :: rest =>
      some ({ s with
        running := s.running ++ [context]
        slice := { s.slice with builds := rest } }.log (.handed context))
    | [] =>
      match s.slice.acceptanceDispatches with
      | dispatch :: rest =>
        some { s with
          acceptances := s.acceptances ++ [dispatch]
          slice := { s.slice with acceptanceDispatches := rest } }
      | [] =>
        match s.slice.exactDispatches with
        | (waiter, snapshot) :: rest =>
          some ({ s with slice := { s.slice with exactDispatches := rest } }.dispatchExactOutcome
            waiter.subscription snapshot)
        | [] => none

/-- The drain takes the next item of its phase, if the phase has one left. -/
def item (s : World) : Option World :=
  match s.slice.phase with
  | .idle | .wake => none
  | .awaits =>
    match s.postedAwaits with
    | operation :: rest =>
      if s.slice.count < 256 then
        some (({ s with postedAwaits := rest }.took false).applyAwait operation)
      else none
    | [] => none
  | .suspensions =>
    match s.postedSuspensions with
    | identity :: rest =>
      if s.slice.count < 256 then
        some (({ s with postedSuspensions := rest }.took false).applySuspensionSatisfied identity)
      else none
    | [] => none
  | .requests =>
    match s.postedIntents with
    | posted :: rest =>
      if s.slice.count < 256 then
        some (({ s with postedIntents := rest }.took false).applyPosted posted)
      else none
    | [] => none
  | .gpuCollect =>
    match s.gpuSignals with
    | key :: rest =>
      if s.slice.count < 32 then
        some (({ s with gpuSignals := rest }.took true).signal (s.gpuSignal key).toList)
      else none
    | [] => none
  | .gpuRecover =>
    match s.gpuRecovery with
    | key :: rest =>
      if s.slice.count < min s.slice.recoveryChecks 32 then
        some ({ s with gpuRecovery := rest }.recover key)
      else none
    | [] => none
  | .gpuEvaluate =>
    match s.slice.signalledGpu with
    | signal :: rest =>
      some ({ s with slice := { s.slice with signalledGpu := rest } }.evaluateGpu signal)
    | [] => none
  | .popPublished =>
    match s.publishedSignals with
    | v :: rest =>
      if s.slice.count < 32 then
        some ({ s with
          publishedSignals := rest
          slice := { s.slice with publishedReady := s.slice.publishedReady ++ [v] } }.took true)
      else none
    | [] => none
  | .popCompletions =>
    match s.completions with
    | completion :: rest =>
      if s.slice.count < 16 then
        some ({ s with
          completions := rest
          slice := { s.slice with readyCompletions :=
            s.slice.readyCompletions ++ [s.evaluateCompletion completion] } }.took true)
      else none
    | [] => none
  | .gpuApply =>
    match s.slice.evaluatedGpu with
    | evaluation :: rest =>
      some ({ s with slice := { s.slice with evaluatedGpu := rest } }.applyGpu evaluation)
    | [] => none
  | .retry =>
    match nextRetry s.retries with
    | some entry =>
      if s.retryStale entry then some ({ s with retries := s.retries.erase entry }.took true)
      else if s.slice.now < entry.deadline then none
      else some (({ s with retries := s.retries.erase entry }.took true).applyRetry entry)
    | none => none
  | .complete =>
    match s.slice.readyCompletions with
    | completion :: rest =>
      some ({ s with slice := { s.slice with readyCompletions := rest } }.landCompletion completion)
    | [] => none
  | .build =>
    match s.pending with
    | key :: rest => some (({ s with pending := rest }.took false).takePending key)
    | [] => none
  | .dispatch =>
    match s.slice.ready[s.slice.count]? with
    | some snapshot => some ((s.took false).dispatchReady snapshot)
    | none => none
  | .reclaim =>
    match s.reclaimQueue with
    | v :: rest =>
      if s.slice.count < 4096 then
        some (({ s with reclaimQueue := rest }.took false).reclaimCandidate v)
      else none
    | [] => none
  | .retire =>
    match s.pendingRetirement with
    | snapshot :: rest =>
      some ({ s with
        pendingRetirement := rest
        slice := { s.slice with
          retiredVersions := s.slice.retiredVersions ++ [snapshot] } }.took true)
    | [] => none
  | .callbacks => s.handOver

/-- The order of the phases. -/
def nextPhase : Phase → Phase
  | .idle => .awaits | .awaits => .suspensions | .suspensions => .requests
  | .requests => .gpuCollect | .gpuCollect => .gpuRecover | .gpuRecover => .gpuEvaluate
  | .gpuEvaluate => .popPublished | .popPublished => .popCompletions
  | .popCompletions => .gpuApply | .gpuApply => .retry | .retry => .complete
  | .complete => .wake | .wake => .build | .build => .dispatch | .dispatch => .reclaim
  | .reclaim => .retire | .retire => .callbacks | .callbacks => .idle

/-- What stands between the end of a phase and the next one. -/
def betweenPhases (s : World) : World :=
  match s.slice.phase with
  | .awaits =>
    -- who was settled at its registration is called when the whole batch is applied
    s.slice.settledAwaits.foldl
      (fun s entry => s.dispatchExactOutcome entry.1.subscription entry.2)
      { s with slice := { s.slice with settledAwaits := [] } }
  | .requests => { s with pendingCancellations := [] }
  | .gpuCollect => { s with slice := { s.slice with recoveryChecks := s.gpuRecovery.length } }
  | .popCompletions =>
    (s.slice.publishedReady.filterMap s.versions.find?).foldl announce
      { s with slice := { s.slice with now := s.now, publishedReady := [] } }
  | .complete => { s with slice := { s.slice with evaluatedWaiters := [] } }
  | .wake =>
    s.propagatedReady.foldl announce
      { s with propagatedReady := [], slice := { s.slice with evaluatedWaiters := [] } }
  | .retire => s.publishDirtyViews
  | .callbacks =>
    -- what a phase of the slice has not handed on by now is empty
    { s with slice := { s.slice with
        now := 0, recoveryChecks := 0, signalledGpu := [], evaluatedGpu := [], publishedReady := []
        ready := [], evaluatedWaiters := [], retiredVersions := [] } }
  | _ => s

/-- The loops that look at the clock. -/
def timed : Phase → Bool
  | .gpuCollect | .gpuRecover | .popPublished | .popCompletions | .retry | .wake | .build
  | .reclaim | .retire => true
  | _ => false

/-- The phase ends: it has nothing left to take, or its deadline is over. The wakes look at the
clock before each one. -/
def leave (s : World) : Option World :=
  if s.slice.phase = .idle then none
  else if (timed s.slice.phase ∧ s.slice.late) ∨ s.slice.phase = .wake ∨ s.item.isNone then
    let next := nextPhase s.slice.phase
    let s := s.betweenPhases
    some { s with slice := { s.slice with phase := next, count := 0, late := false } }
  else none

/-- Callbacks run on the drain's thread where the source calls them without its scheduler. -/
def runsCallbacks (s : World) : Bool := s.slice.phase == .awaits || s.slice.phase == .callbacks

end World

inductive Action where
  /-- A request or an intent from another thread, or from a callback of the drain. -/
  | request (intent : ArtifactIntent) (coalescible : Bool)
  | requestInline (intents : List ArtifactIntent) (coalescible : Bool)
  | postRequest (intent : ArtifactIntent) (coalescible : Bool)
  | postIntents (intents : List ArtifactIntent)
  /-- Cancel, Release, MarkPublished, the batches and the other posted mutations. -/
  | mutate (m : Mutation)
  | notifySuspension (identity : Nat)
  | awaitExact (version : VersionID) (milestone : ArtifactReadiness) (lease : Option Nat)
  | unsubscribe (subscription : Nat) (version : VersionID)
  | registerProducer (kind : Nat) (producer : Producer)
  | dropLease (token : Nat)
  | finishBuild (index : Nat) (result : ArtifactBuildResult)
  | finishAcceptance (index : Nat) (error : Option String)
  | setGpu (token : Nat) (status : GpuStatus)
  | notifyGpu (key : ArtifactKey)
  | tick (now : Nat)
  /-- A drain slice begins, takes an item, wakes a consumer, ends a phase. -/
  | drain
  | item
  | wake (consumer : ArtifactKey)
  | leave
  deriving DecidableEq, Repr

open World in
def step (s : World) : Action → Option World
  | .request intent coalescible => some (s.postSynchronous intent coalescible)
  | .requestInline intents coalescible =>
    if s.runsCallbacks then
      some ((s.applyMutation (.requestBatch intents coalescible)).publishDirtyViews)
    else none
  | .postRequest intent coalescible => some (s.postRequest intent coalescible)
  | .postIntents intents => some (s.postIntents intents)
  | .mutate m => some { s with postedIntents := s.postedIntents ++ [.mutation m] }
  | .notifySuspension identity =>
    if identity = 0 then none
    else some { s with postedSuspensions := s.postedSuspensions ++ [identity] }
  | .awaitExact version milestone lease =>
    if version.isNamed then some (s.awaitExact version milestone lease) else none
  | .unsubscribe subscription version =>
    some { s with postedAwaits := s.postedAwaits ++ [{ subscription, version, cancel := true }] }
  | .registerProducer kind producer =>
    some { s with producers := s.producers.insert kind producer }
  | .dropLease token =>
    match s.liveLeases.find? token with
    | none => none
    | some version => if s.leaseHeld token then none else some (s.dropLease token version)
  | .finishBuild index result => s.running[index]?.map fun context =>
      s.finishBuild index context result
  | .finishAcceptance index error => s.acceptances[index]?.map fun dispatch =>
      s.finishAcceptance index dispatch error
  | .setGpu token status => some { s with gpu := s.gpu.insert token status }
  | .notifyGpu key => some { s with gpuSignals := s.gpuSignals ++ [key] }
  | .tick now => some { s with now := max s.now now }
  | .drain =>
    if s.slice.phase = .idle then some { s with slice := { s.slice with phase := .awaits } } else none
  | .item => s.item
  | .wake consumer =>
    match s.slice.phase, s.pendingWaiterWakes with
    | .wake, wake :: wakes =>
      if s.slice.count < 16 ∧ consumer ∈ wake.consumers then
        some (((s.takeConsumer wake wakes consumer).took true).wakeConsumer wake.dependency consumer)
      else none
    | _, _ => none
  | .leave => s.leave

/-- A graph as its constructor makes it. -/
def start (artifactPolicies : List ArtifactKindPolicy) : World := { artifactPolicies }

end ModuleServices.Graph
