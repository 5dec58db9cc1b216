import ModuleServices.Graph.Calls
import ModuleServices.Graph.Proof.Nodes

/-!
# A step is a sequence of calls

`Does` lists what one call of a step, or the handling of a queue around it, can do to
the tables, and `step_does` takes every step apart into these. An invariant of the
graph's runs is shown for `Does`; the queues, the phases and the batches do not come up
again.
-/

namespace ModuleServices.Graph.Proof

open World

/-- Only queues, clocks and counters may differ. -/
structure Frame (s s' : World) : Prop where
  artifactPolicies : s'.artifactPolicies = s.artifactPolicies
  nodes : s'.nodes = s.nodes
  versions : s'.versions = s.versions
  versionGenerations : s'.versionGenerations = s.versionGenerations
  reservedGenerations : s'.reservedGenerations = s.reservedGenerations
  nextVersionGeneration : s'.nextVersionGeneration = s.nextVersionGeneration
  versionSignatures : s'.versionSignatures = s.versionSignatures
  versionLeases : s'.versionLeases = s.versionLeases
  generationAliases : s'.generationAliases = s.generationAliases
  refusalReasons : s'.refusalReasons = s.refusalReasons
  waiters : s'.waiters = s.waiters
  exactRecipePins : s'.exactRecipePins = s.exactRecipePins
  exactWaiters : s'.exactWaiters = s.exactWaiters
  liveLeases : s'.liveLeases = s.liveLeases
  nextLease : s'.nextLease = s.nextLease
  builds : s'.slice.builds = s.slice.builds
  running : s'.running = s.running
  completions : s'.completions = s.completions
  ready : s'.slice.readyCompletions = s.slice.readyCompletions
  acceptances : s'.acceptances = s.acceptances
  dispatches : s'.slice.acceptanceDispatches = s.slice.acceptanceDispatches
  readModel : s'.readModel = s.readModel
  dirtyViews : s'.dirtyViews = s.dirtyViews
  /-- What is posted new has no handle yet. -/
  posted : ∀ intent coalescible generation lease,
    .request intent coalescible generation lease ∈ s'.postedIntents →
      .request intent coalescible generation lease ∈ s.postedIntents ∨ generation = 0

/-! ## What a completion does before the moves it ends in -/

/-- A completion has come back and been judged. -/
def landed (s : World) (completion : Completion) (stale : Bool) : World :=
  (s.modifyNode completion.key fun node => { node with buildInFlight := false }).log
    (.judged completion.key completion.generation stale completion.dependencies)

/-- The state a result's submission set puts the version in, and the set it waits for. -/
def readyState (completion : Completion) : ArtifactReadiness × Option Nat :=
  match completion.result.gpuSubmissions with
  | some token =>
    if completion.gpuSubmitted = false then (.cpuReady, some token)
    else if completion.gpuComplete = false then (.uploadSubmitted, some token)
    else (.gpuReady, none)
  | none => (.gpuReady, none)

theorem readyState_begun (completion : Completion) : (readyState completion).1 ≠ .missing := by
  unfold readyState
  cases completion.result.gpuSubmissions with
  | none => exact nofun
  | some token =>
    cases completion.gpuSubmitted with
    | false => exact nofun
    | true => cases completion.gpuComplete <;> exact nofun

/-- The submission set is waited for, or there is none to wait for. -/
def awaiting (s : World) (key : ArtifactKey) (token : Option Nat) : World :=
  match token with
  | some token => s.awaitGpu key token
  | none => s.modifyNode key fun node => { node with waitingGpuSubmissions := none }

/-- A Ready result is applied: the version is produced, stored and announced. -/
def readied (s : World) (node : Node) (completion : Completion) : World :=
  let s := s.queueReclaim (capturedVersions node.resolvedDependencies)
  let s := (s.modifyNode completion.key fun node => produced node completion
    ).pruneCompletedWaiterEdges completion.key
  ((awaiting s completion.key (readyState completion).2).setState completion.key
    (readyState completion).1).reach completion.key

/-- A recipe discovered by a build is installed. -/
def needed (s : World) (key : ArtifactKey) (result : ArtifactBuildResult) : World :=
  let s := (s.modifyNode key fun node => { node with terminalFailure := false }).removeWaiterEdges key
  let s := s.modifyNode key fun node => { node with
    requirements := result.requirements, checkpoint := result.checkpoint, retryAt := none }
  s.installWaiterEdges key []

/-- The error of a build that failed; a cancelled one has none. -/
def noted (s : World) (key : ArtifactKey) : Option String → World
  | some error => s.modifyNode key fun node => { node with error, terminalFailure := true }
  | none => s

def endState : Option String → ArtifactReadiness
  | some _ => .failed
  | none => .cancelled

/-- A build has ended without a result. -/
def ended (s : World) (node : Node) (completion : Completion) (error : Option String) : World :=
  ((((noted s node.key error).setState node.key (endState error)).announceEnd completion node
    (endState error)).storeVersion node.key).wakeWaiters node.key

/-- A set found failed, up to the promotion that follows. -/
def gpuEnded (s : World) (key : ArtifactKey) (error : String) : World :=
  let s := (s.modifyNode key fun node => { node with
    error := if error = "" then "GPU submission failed" else error
    terminalFailure := true, waitingGpuSubmissions := none }).setState key .failed
  ((s.storeVersion key).announceNode key).wakeWaiters key

/-- A set found complete, up to the promotion that follows. -/
def gpuReached (s : World) (key : ArtifactKey) (published : Bool) : World :=
  let s := (s.modifyNode key fun node => { node with waitingGpuSubmissions := none }).setState key
    (if published then .published else .gpuReady)
  ((s.storeVersion key).announceNode key).wakeWaiters key

/-- The drain takes a completion it has collected. -/
def takeCompletion (s : World) (rest : List Completion) : World :=
  { s with slice := { s.slice with readyCompletions := rest } }

/-! ## The calls -/

/-- One call, entered where `Q` holds of it, a part of one, or what a step does around its
calls. -/
inductive Does (Q : World → Call → Prop) (s : World) : World → Prop where
  | frame {s' : World} (h : Frame s s') : Does Q s s'
  /-- The views of the slice are published. -/
  | publish : Does Q s s.publishDirtyViews
  | move {s' : World} (h : Move Begun s s') : Does Q s s'
  | await (operation : PostedAwait) (h : Q s (.await operation)) : Does Q s (s.applyAwait operation)
  | request (a : RequestArgs) (hgeneration : a.preassignedGeneration = 0)
      (hlease : a.preassignedLease = none) (h : Q s (.request a)) : Does Q s (s.requestInternal a)
  | posted {intent : ArtifactIntent} {coalescible : Bool} {generation : Nat} {lease : Option Nat}
      {rest : List PostedRequest} {u : World}
      (hhead : s.postedIntents = .request intent coalescible generation lease :: rest)
      (hu : u = { s with postedIntents := rest }.took false)
      (h : Q u (.request { ofIntent intent coalescible with
        preassignedGeneration := generation, preassignedLease := lease })) :
      Does Q s (u.requestInternal { ofIntent intent coalescible with
        preassignedGeneration := generation, preassignedLease := lease })
  | cancel (key : ArtifactKey) (h : Q s (.cancel key) ∨ Q s (.release key)) :
      Does Q s (s.cancelLocked key)
  | erase {key : ArtifactKey} {node : Node} (hfind : s.nodes.find? key = some node)
      (hdesired : node.desired = false) (hflight : node.buildInFlight = false)
      (hdependents : s.hasNoDependents key = true) : Does Q s (s.eraseNode key)
  | markPublished (v : VersionID) (h : Q s (.markPublished v)) :
      Does Q s (s.markPublishedLocked v)
  /-- A retry is due or a suspension satisfied. -/
  | resume {key : ArtifactKey} {f : Node → Node}
      (hf : ∀ node, f node = { node with
        retryAt := (f node).retryAt, suspension := (f node).suspension }) :
      Does Q s ((s.modifyNode key f).queueNode key)
  | gpuEnded {evaluation : EvaluatedGpu} {node : Node} (h : Q s (.gpu evaluation))
      (hfind : s.nodes.find? evaluation.signal.key = some node)
      (hgeneration : node.generation = evaluation.signal.generation)
      (htoken : node.waitingGpuSubmissions = some evaluation.signal.token) (error : String) :
      Does Q s (gpuEnded s evaluation.signal.key error)
  | gpuSubmitted {evaluation : EvaluatedGpu} {node : Node} (h : Q s (.gpu evaluation))
      (hfind : s.nodes.find? evaluation.signal.key = some node)
      (htoken : node.waitingGpuSubmissions = some evaluation.signal.token)
      (hstate : node.state = .cpuReady) : Does Q s (s.gpuSubmitted evaluation.signal.key)
  | gpuReached {key : ArtifactKey} {node : Node} {token : Nat}
      (hfind : s.nodes.find? key = some node) (htoken : node.waitingGpuSubmissions = some token)
      (hstate : node.state = .uploadSubmitted) : Does Q s (gpuReached s key node.published)
  | prepare {completion : Completion} {rest : List Completion} {dispatch : AcceptanceDispatch}
      (hhead : s.slice.readyCompletions = completion :: rest)
      (hprepare : (takeCompletion s rest).prepareAcceptance completion = some dispatch) :
      Does Q s { takeCompletion s rest with slice := { (takeCompletion s rest).slice with
        acceptanceDispatches := s.slice.acceptanceDispatches ++ [dispatch] } }
  | discard {completion : Completion} {rest : List Completion}
      (hhead : s.slice.readyCompletions = completion :: rest)
      (hfind : s.nodes.find? completion.key = none) : Does Q s (takeCompletion s rest)
  /-- A completion that is stale, or whose result is of another revision, is judged anew. -/
  | stale {completion : Completion} {rest : List Completion} {node : Node} {u : World}
      {key : ArtifactKey}
      (hhead : s.slice.readyCompletions = completion :: rest) (hu : u = takeCompletion s rest)
      (hfind : s.nodes.find? completion.key = some node)
      (hkey : key = completion.key ∨ key = node.key) (h : Q u (.complete completion)) :
      Does Q s ((landed u completion (!u.accepts node completion)).queueNode key)
  | ready {completion : Completion} {rest : List Completion} {node : Node} {u : World}
      (hhead : s.slice.readyCompletions = completion :: rest) (hu : u = takeCompletion s rest)
      (hfind : s.nodes.find? completion.key = some node)
      (haccepts : u.accepts node completion = true) (h : Q u (.complete completion))
      (houtcome : completion.result.outcome = .ready) :
      Does Q s (readied (landed u completion false) { node with buildInFlight := false } completion)
  | needs {completion : Completion} {rest : List Completion} {node : Node} {u : World}
      (hhead : s.slice.readyCompletions = completion :: rest) (hu : u = takeCompletion s rest)
      (hfind : s.nodes.find? completion.key = some node)
      (haccepts : u.accepts node completion = true) (h : Q u (.complete completion))
      (houtcome : completion.result.outcome = .needsDependencies)
      (hrevision : completion.revision = node.desiredRevision) :
      Does Q s (needed (landed u completion false) node.key completion.result)
  | retryAfter {completion : Completion} {rest : List Completion} {node : Node} {u : World}
      (hhead : s.slice.readyCompletions = completion :: rest) (hu : u = takeCompletion s rest)
      (hfind : s.nodes.find? completion.key = some node)
      (haccepts : u.accepts node completion = true) (h : Q u (.complete completion)) :
      Does Q s ((landed u completion false).applyRetryAfter { node with buildInFlight := false }
        completion.result)
  | suspended {completion : Completion} {rest : List Completion} {node : Node} {u : World}
      {suspension : ArtifactSuspension}
      (hhead : s.slice.readyCompletions = completion :: rest) (hu : u = takeCompletion s rest)
      (hfind : s.nodes.find? completion.key = some node)
      (haccepts : u.accepts node completion = true) (h : Q u (.complete completion))
      (houtcome : completion.result.outcome = .suspended)
      (hsuspension : completion.result.suspension = some suspension) :
      Does Q s ((landed u completion false).applySuspended { node with buildInFlight := false }
        completion.result suspension)
  | ended {completion : Completion} {rest : List Completion} {node : Node} {u : World}
      (hhead : s.slice.readyCompletions = completion :: rest) (hu : u = takeCompletion s rest)
      (hfind : s.nodes.find? completion.key = some node)
      (haccepts : u.accepts node completion = true) (h : Q u (.complete completion))
      (error : Option String) :
      Does Q s (ended (landed u completion false) { node with buildInFlight := false } completion
        error)
  | wake (dependency consumer : ArtifactKey) (h : Q s (.wake dependency consumer)) :
      Does Q s (s.wakeWaiter dependency consumer)
  | block {key : ArtifactKey} {node : Node} (hfind : s.nodes.find? key = some node)
      (hstate : node.state = .queued) (hflight : node.buildInFlight = false)
      (hunsatisfied : (s.latchReadyGates key).dependenciesSatisfied
        { node with requirements := node.requirements.map s.latchGate } = false) :
      Does Q s ((s.latchReadyGates key).setState key .blocked)
  | build {key : ArtifactKey} {node : Node} (h : Q s (.build key))
      (hfind : s.nodes.find? key = some node)
      (hstate : node.state = .queued) (hflight : node.buildInFlight = false)
      (hsatisfied : (s.latchReadyGates key).dependenciesSatisfied
        { node with requirements := node.requirements.map s.latchGate } = true) :
      Does Q s ((s.latchReadyGates key).startBuild key
        { node with requirements := node.requirements.map s.latchGate })
  | producerless {key : ArtifactKey} {node : Node} (hfind : s.nodes.find? key = some node)
      (hstate : node.state = .queued) (hflight : node.buildInFlight = false) :
      Does Q s ((s.latchReadyGates key).failProducerless key)
  | dispatch (snapshot : ArtifactSnapshot) : Does Q s (s.dispatchReady snapshot)
  | forget {v : VersionID} (hfind : s.versions.find? v = none) : Does Q s (s.forgetLease v)
  | reclaim {v : VersionID} {snapshot : ArtifactSnapshot} (h : Q s (.reclaim v))
      (hfind : s.versions.find? v = some snapshot) (hreferenced : s.referenced v = false) :
      Does Q s (s.reclaimVersion v snapshot)
  | post (intent : ArtifactIntent) (coalescible : Bool) :
      Does Q s (s.postRequest intent coalescible)
  | dropLease {token : Nat} {v : VersionID} (hfind : s.liveLeases.find? token = some v)
      (hheld : s.leaseHeld token = false) : Does Q s (s.dropLease token v)
  | finishBuild {index : Nat} {context : BuildContext} (hget : s.running[index]? = some context)
      (result : ArtifactBuildResult) : Does Q s (s.finishBuild index context result)
  | finishAcceptance {index : Nat} {dispatch : AcceptanceDispatch}
      (hget : s.acceptances[index]? = some dispatch) (error : Option String) :
      Does Q s (s.finishAcceptance index dispatch error)
  | collect {completion : Completion} {rest : List Completion}
      (hhead : s.completions = completion :: rest) :
      Does Q s { s with
        completions := rest
        slice := { s.slice with
          readyCompletions := s.slice.readyCompletions ++ [s.evaluateCompletion completion] } }
  | handBuild {context : BuildContext} {rest : List BuildContext}
      (hhead : s.slice.builds = context :: rest) :
      Does Q s ({ s with
        running := s.running ++ [context], slice := { s.slice with builds := rest } }.log
          (.handed context))
  | handAcceptance {dispatch : AcceptanceDispatch} {rest : List AcceptanceDispatch}
      (hhead : s.slice.acceptanceDispatches = dispatch :: rest) :
      Does Q s { s with
        acceptances := s.acceptances ++ [dispatch]
        slice := { s.slice with acceptanceDispatches := rest } }

abbrev DoesAll (Q : World → Call → Prop) : World → World → Prop := Relation.ReflTransGen (Does Q)

variable {Q : World → Call → Prop} {s s' : World}

theorem Does.all (h : Does Q s s') : DoesAll Q s s' := .single h

/-- The invariant rule of the calls. -/
theorem DoesAll.invariant {I : World → Prop} (hdoes : ∀ {u v}, Does Q u v → I u → I v)
    (h : DoesAll Q s s') (hinv : I s) : I s' := by
  induction h with
  | refl => exact hinv
  | tail _ hlast ih => exact hdoes hlast ih

theorem Frame.refl (s : World) : Frame s s := by
  constructor <;> first | rfl | exact fun _ _ _ _ => .inl

theorem Frame.trans {s'' : World} (h : Frame s s') (h' : Frame s' s'') : Frame s s'' where
  artifactPolicies := h'.artifactPolicies.trans h.artifactPolicies
  nodes := h'.nodes.trans h.nodes
  versions := h'.versions.trans h.versions
  versionGenerations := h'.versionGenerations.trans h.versionGenerations
  reservedGenerations := h'.reservedGenerations.trans h.reservedGenerations
  nextVersionGeneration := h'.nextVersionGeneration.trans h.nextVersionGeneration
  versionSignatures := h'.versionSignatures.trans h.versionSignatures
  versionLeases := h'.versionLeases.trans h.versionLeases
  generationAliases := h'.generationAliases.trans h.generationAliases
  refusalReasons := h'.refusalReasons.trans h.refusalReasons
  waiters := h'.waiters.trans h.waiters
  exactRecipePins := h'.exactRecipePins.trans h.exactRecipePins
  exactWaiters := h'.exactWaiters.trans h.exactWaiters
  liveLeases := h'.liveLeases.trans h.liveLeases
  nextLease := h'.nextLease.trans h.nextLease
  builds := h'.builds.trans h.builds
  running := h'.running.trans h.running
  completions := h'.completions.trans h.completions
  ready := h'.ready.trans h.ready
  acceptances := h'.acceptances.trans h.acceptances
  dispatches := h'.dispatches.trans h.dispatches
  readModel := h'.readModel.trans h.readModel
  dirtyViews := h'.dirtyViews.trans h.dirtyViews
  posted intent coalescible generation lease hmem :=
    (h'.posted intent coalescible generation lease hmem).elim
      (h.posted intent coalescible generation lease) .inr

theorem frame_all (h : Frame s s') : DoesAll Q s s' := (Does.frame h).all

theorem moves_all (h : Moves Begun s s') : DoesAll Q s s' := by
  induction h with
  | refl => exact .refl
  | tail _ hlast ih => exact ih.tail (.move hlast)

theorem promote_all {key : ArtifactKey} (h : ∀ node, s.nodes.find? key = some node → Begun node) :
    DoesAll Q s (s.promoteSuccessor key) :=
  moves_all (promoteSuccessor_moves s key h)

theorem handOn_all {key : ArtifactKey} (h : ∀ node, s.nodes.find? key = some node → Begun node) :
    DoesAll Q s (s.handOn key) :=
  moves_all (handOn_moves s key (fun _ _ => begun_of_publishable) h)

/-- A node whose state was the last thing set has begun if that state has. -/
theorem begun_of_setState {key : ArtifactKey} (state : ArtifactReadiness) (h : state ≠ .missing)
    (hnodes : s'.nodes = (s.setState key state).nodes) :
    ∀ node, s'.nodes.find? key = some node → Begun node := by
  intro node hfind
  rw [hnodes, setState_nodes, Table.find?_modify, if_pos rfl] at hfind
  obtain ⟨_, _, rfl⟩ := Option.map_eq_some_iff.mp hfind
  exact h

/-! ## The functions as sequences of calls -/

theorem release_does {key : ArtifactKey} (h : Q s (.release key)) :
    DoesAll Q s (s.releaseLocked key) := by
  refine .trans (Does.cancel key (.inr h)).all ?_
  unfold releaseLocked
  simp only
  split
  · exact .refl
  · rename_i node hfind
    split
    · rename_i hguard
      simp only [Bool.and_eq_true, Bool.not_eq_true'] at hguard
      have hdesired : node.desired = false := by
        rw [cancelLocked_nodes, Table.find?_modify, if_pos rfl] at hfind
        obtain ⟨_, _, rfl⟩ := Option.map_eq_some_iff.mp hfind
        rfl
      exact (Does.erase hfind hdesired hguard.1 hguard.2).all
    · exact .refl

theorem suspension_does (s : World) (identity : Nat) :
    DoesAll Q s (s.applySuspensionSatisfied identity) := by
  unfold applySuspensionSatisfied
  split
  · exact frame_all (by constructor <;> first | rfl | exact fun _ _ _ _ => .inl)
  · rename_i version _
    have herase : Frame s { s with
        suspendedByIdentity := s.suspendedByIdentity.erase identity } := by
      constructor <;> first | rfl | exact fun _ _ _ _ => .inl
    simp only
    split
    · exact frame_all herase
    · split
      · exact .head (.frame herase) (Does.resume fun _ => rfl).all
      · exact frame_all herase

theorem retry_does (s : World) (entry : RetryEntry) : DoesAll Q s (s.applyRetry entry) :=
  (Does.resume fun _ => rfl).all

theorem gpuCompleted_does {key : ArtifactKey} {node node' : Node} {token : Nat}
    (hfind : s.nodes.find? key = some node') (htoken : node'.waitingGpuSubmissions = some token)
    (hstate : node'.state = .uploadSubmitted) (hpublished : node'.published = node.published) :
    DoesAll Q s (s.gpuCompleted key node) := by
  unfold gpuCompleted
  rw [← hpublished]
  refine .head (.gpuReached hfind htoken hstate) (.trans (promote_all (begun_of_setState _ ?_ rfl)) (frame_all ?_))
  · split <;> exact nofun
  constructor <;> first | rfl | exact fun _ _ _ _ => .inl

theorem gpu_does {evaluation : EvaluatedGpu} (h : Q s (.gpu evaluation)) :
    DoesAll Q s (s.applyGpu evaluation) := by
  unfold applyGpu
  simp only
  split
  · exact .refl
  rename_i node hfind
  split
  · exact .refl
  rename_i hguard
  obtain ⟨hgeneration, htoken⟩ := not_or.mp hguard
  rw [not_not] at hgeneration htoken
  split
  · unfold gpuFailed
    refine .head (.gpuEnded h hfind hgeneration htoken evaluation.error)
      (.trans (promote_all (begun_of_setState .failed (by decide) rfl)) (frame_all ?_))
    constructor <;> first | rfl | exact fun _ _ _ _ => .inl
  · split
    · rename_i hsubmitted
      refine .head (.gpuSubmitted h hfind htoken hsubmitted.1) ?_
      split
      · have hfind' : (s.gpuSubmitted evaluation.signal.key).nodes.find? evaluation.signal.key
            = some { node with state := .uploadSubmitted } := by
          change (s.nodes.modify _ _).find? _ = _
          rw [Table.find?_modify, if_pos rfl, hfind]
          rfl
        exact gpuCompleted_does hfind' htoken rfl rfl
      · exact handOn_all (begun_of_setState .uploadSubmitted (by decide) rfl)
    · split
      · exact .refl
      · rename_i hstate
        exact gpuCompleted_does hfind htoken (not_not.mp (not_or.mp hstate).1) rfl

theorem build_does {key : ArtifactKey} (h : Q s (.build key)) : DoesAll Q s (s.takePending key) := by
  unfold takePending
  split
  · exact .refl
  rename_i node hfind
  split
  · exact .refl
  rename_i hguard
  obtain ⟨hstate, hflight⟩ := not_or.mp hguard
  rw [not_not] at hstate
  have hflight := Bool.eq_false_iff.mpr hflight
  have hlatched : (s.latchReadyGates key).nodes.find? key
      = some { node with requirements := node.requirements.map s.latchGate } := by
    simp [latchReadyGates, modifyNode, hfind]
  simp only [hlatched]
  split
  · exact (Does.block hfind hstate hflight ‹_›).all
  · rename_i hsatisfied
    split
    · exact (Does.build h hfind hstate hflight (eq_true_of_ne_false hsatisfied)).all
    · exact (Does.producerless hfind hstate hflight).all

theorem reclaim_does {v : VersionID} (h : Q s (.reclaim v)) : DoesAll Q s (s.reclaimCandidate v) := by
  unfold reclaimCandidate
  split
  · exact (Does.forget ‹_›).all
  · split
    · exact .refl
    · exact (Does.reclaim h ‹_› (Bool.eq_false_iff.mpr ‹_›)).all

theorem cleanUp_does (s : World) (key : ArtifactKey) : DoesAll Q s (s.cleanUp key) := by
  unfold cleanUp
  split
  · exact .refl
  · rename_i node hfind
    split
    · rename_i hguard
      simp only [Bool.and_eq_true, Bool.not_eq_true'] at hguard
      exact (Does.erase hfind hguard.1.1 hguard.1.2 hguard.2).all
    · exact .refl

theorem revision_queue_does {completion : Completion} {rest : List Completion} {node : Node}
    (hhead : s.slice.readyCompletions = completion :: rest)
    (hfind : s.nodes.find? completion.key = some node)
    (haccepts : (takeCompletion s rest).accepts node completion = true)
    (h : Q (takeCompletion s rest) (.complete completion)) :
    DoesAll Q s ((landed (takeCompletion s rest) completion false).queueNode node.key) := by
  have hstale := Does.stale hhead rfl hfind (.inr rfl) h
  rw [haccepts] at hstale
  exact hstale.all

/-- A Ready result: produced, then handed on unless its submission is still awaited. -/
theorem applyReady_eq (s : World) (node : Node) (completion : Completion) :
    s.applyReady node completion = readied s node completion
      ∨ s.applyReady node completion = (readied s node completion).handOn completion.key := by
  unfold applyReady readied readyState
  cases completion.result.gpuSubmissions with
  | none => exact .inr rfl
  | some token =>
    cases completion.gpuSubmitted with
    | false => exact .inl rfl
    | true => cases completion.gpuComplete <;> exact .inr rfl

theorem result_does {completion : Completion} {rest : List Completion} {node : Node}
    (hhead : s.slice.readyCompletions = completion :: rest)
    (hfind : s.nodes.find? completion.key = some node)
    (haccepts : (takeCompletion s rest).accepts node completion = true)
    (h : Q (takeCompletion s rest) (.complete completion)) :
    DoesAll Q s ((landed (takeCompletion s rest) completion false).applyResult
      { node with buildInFlight := false } completion
      ((takeCompletion s rest).checkedResult node completion.result)) := by
  have hrevision := revision_queue_does hhead hfind haccepts h
  have hfailed : ∀ error, DoesAll Q s ((landed (takeCompletion s rest) completion false).applyFailed
      { node with buildInFlight := false } completion error) := fun error =>
    .head (.ended hhead rfl hfind haccepts h (some error))
      (promote_all (begun_of_setState .failed nofun rfl))
  unfold checkedResult
  split
  · exact hfailed _
  unfold applyResult
  cases houtcome : completion.result.outcome with
  | ready =>
    have hready := Does.ready hhead rfl hfind haccepts h houtcome
    rcases applyReady_eq (landed (takeCompletion s rest) completion false)
      { node with buildInFlight := false } completion with heq | heq
    · exact heq ▸ hready.all
    · exact heq ▸ .head hready (handOn_all (begun_of_setState _
        (readyState_begun completion) rfl))
  | needsDependencies =>
    simp only
    split
    · exact hrevision
    · exact .head (.needs hhead rfl hfind haccepts h houtcome (not_not.mp ‹_›))
        (moves_all (startVersion_moves _ _))
  | retryAfter =>
    simp only
    split
    · exact hrevision
    · exact (Does.retryAfter hhead rfl hfind haccepts h).all
  | suspended =>
    simp only
    split
    · split
      · exact hrevision
      · exact (Does.suspended hhead rfl hfind haccepts h houtcome ‹_›).all
    · exact hrevision
  | cancelled =>
    exact .head (.ended hhead rfl hfind haccepts h none)
      (promote_all (begun_of_setState .cancelled nofun rfl))
  | failed => exact hfailed _

theorem land_does {completion : Completion} {rest : List Completion}
    (hhead : s.slice.readyCompletions = completion :: rest)
    (h : Q (takeCompletion s rest) (.complete completion)) :
    DoesAll Q s ((takeCompletion s rest).landCompletion completion) := by
  unfold landCompletion
  simp only
  refine .trans ?_ (cleanUp_does _ _)
  split
  · exact (Does.prepare hhead ‹_›).all
  · unfold applyCompletion
    split
    · exact (Does.discard hhead ‹_›).all
    · rename_i node hfind
      simp only
      split
      · rename_i hstale
        exact (Does.stale hhead rfl hfind (.inl rfl) h).all
      · rename_i hstale
        rw [Bool.not_eq_true', Bool.not_eq_false] at hstale
        rw [hstale]
        exact result_does hhead hfind hstale h

/-- A loop is its calls, one after the other. -/
theorem callsOf_does {α : Type} (f : World → α → World) (call : α → Call)
    (hdoes : ∀ u x, Q u (call x) → DoesAll Q u (f u x)) (s : World) (xs : List α)
    (hQ : ∀ entry ∈ callsOf f call s xs, Q entry.1 entry.2) : DoesAll Q s (xs.foldl f s) := by
  induction xs generalizing s with
  | nil => exact .refl
  | cons x xs ih =>
    exact .trans (hdoes s x (hQ _ List.mem_cons_self)) (ih _ fun entry hmem =>
      hQ entry (List.mem_cons_of_mem _ hmem))

theorem revision_does (s : World) (key : ArtifactKey) (revision : Nat)
    (hQ : ∀ entry ∈ s.revisionCalls key revision, Q entry.1 entry.2) :
    DoesAll Q s (s.markPublishedRevisionLocked key revision) := by
  unfold markPublishedRevisionLocked
  unfold revisionCalls at hQ
  simp only [List.mem_append] at hQ
  refine .trans (callsOf_does _ Call.markPublished (fun u v h => (Does.markPublished v h).all) s _
    fun entry hmem => hQ entry (.inl hmem)) ?_
  simp only
  split
  · exact .refl
  rename_i node hfind
  split
  · rename_i hproduced
    refine (Does.markPublished _ (hQ (_, _) (.inr ?_))).all
    simp only [hfind, if_pos hproduced, List.mem_singleton]
  · exact .refl

/-- A mutation that only adds to a queue. -/
theorem posted_frame {queue : List PostedRequest} (h : ∀ p ∈ queue, p ∈ s.postedIntents
    ∨ ∀ intent coalescible generation lease, p = .request intent coalescible generation lease →
      generation = 0) :
    Frame s { s with postedIntents := queue } := by
  constructor <;> first | rfl | skip
  intro intent coalescible generation lease hmem
  exact (h _ hmem).imp id fun hzero => hzero _ _ _ _ rfl

theorem mutation_does (s : World) (m : Mutation)
    (hQ : ∀ entry ∈ s.mutationCalls m, Q entry.1 entry.2) : DoesAll Q s (s.applyMutation m) := by
  cases m with
  | requestBatch intents coalescible =>
    exact callsOf_does _ _ (fun u intent h =>
      (Does.request (ofIntent intent coalescible) rfl rfl h).all) s _ hQ
  | invalidate key revision =>
    refine (Does.request _ ?_ ?_ (hQ (_, _) (List.mem_singleton.mpr rfl))).all <;>
      (unfold invalidateArgs; split <;> first | rfl | (split <;> rfl))
  | cancel key => exact (Does.cancel key (.inl (hQ (_, _) (List.mem_singleton.mpr rfl)))).all
  | release keys => exact callsOf_does releaseLocked Call.release (fun u key h => release_does h) s keys hQ
  | markPublished versions =>
    exact callsOf_does _ _ (fun u v h => (Does.markPublished v h).all) s versions hQ
  | markPublishedRevision key revision => exact revision_does s key revision hQ
  | pumpGpuCompletions =>
    exact (Does.frame (by constructor <;> first | rfl | exact fun _ _ _ _ => .inl)).all
  | addReadyCallback =>
    exact (Does.frame (by constructor <;> first | rfl | exact fun _ _ _ _ => .inl)).all
  | removeReadyCallback =>
    exact (Does.frame (by constructor <;> first | rfl | exact fun _ _ _ _ => .inl)).all
  | observe address subscription =>
    simp only [applyMutation]
    split
    · split
      · exact .refl
      · exact (Does.frame (by constructor <;> first | rfl | exact fun _ _ _ _ => .inl)).all
    · exact .refl

theorem posted_does {posted : PostedRequest} {rest : List PostedRequest} {u : World}
    (hhead : s.postedIntents = posted :: rest)
    (hu : u = { s with postedIntents := rest }.took false)
    (hQ : ∀ entry ∈ u.postedCalls posted, Q entry.1 entry.2) : DoesAll Q s (u.applyPosted posted) := by
  cases posted with
  | request intent coalescible generation lease =>
    exact (Does.posted hhead hu (hQ (_, _) (List.mem_singleton.mpr rfl))).all
  | mutation m =>
    have hframe : Frame s u := by
      subst hu
      constructor <;> first | rfl | skip
      intro intent coalescible generation lease hmem
      exact .inl (hhead ▸ List.mem_cons_of_mem _ hmem)
    exact .head (.frame hframe) (mutation_does u m hQ)

theorem handOver_does (h : s.handOver = some s') : DoesAll Q s s' := by
  unfold handOver at h
  split at h
  · cases h
    exact frame_all (by constructor <;> first | rfl | exact fun _ _ _ _ => .inl)
  · split at h
    · cases h
      exact (Does.handBuild ‹_›).all
    · split at h
      · cases h
        exact (Does.handAcceptance ‹_›).all
      · split at h
        · cases h
          exact frame_all (by constructor <;> first | rfl | exact fun _ _ _ _ => .inl)
        · cases h

/-- The one call whose entry state the phase is part of. -/
theorem itemCalls_complete {completion : Completion} {rest : List Completion}
    (hphase : s.slice.phase = .complete) (hqueue : s.slice.readyCompletions = completion :: rest) :
    s.itemCalls = [({ s with slice := { s.slice with readyCompletions := rest } },
      .complete completion)] := by
  simp only [itemCalls, hphase, hqueue]

theorem complete_does (hphase : s.slice.phase = .complete)
    (hQ : ∀ entry ∈ s.itemCalls, Q entry.1 entry.2) (h : s.item = some s') : DoesAll Q s s' := by
  cases hqueue : s.slice.readyCompletions with
  | nil => simp only [item, hphase, hqueue, reduceCtorEq] at h
  | cons completion rest =>
    have hitem : s.item = some ({ s with slice := { s.slice with readyCompletions := rest }
        }.landCompletion completion) := by
      simp only [item, hphase, hqueue]
    rw [hitem] at h
    cases h
    rw [itemCalls_complete hphase hqueue] at hQ
    exact land_does hqueue (hQ (_, _) (List.mem_singleton.mpr rfl))

theorem item_does (hQ : ∀ entry ∈ s.itemCalls, Q entry.1 entry.2) (h : s.item = some s') :
    DoesAll Q s s' := by
  by_cases hcomplete : s.slice.phase = .complete
  · exact complete_does hcomplete hQ h
  unfold item at h
  unfold itemCalls at hQ
  cases hphase : s.slice.phase <;> simp only [hphase] at h hQ
  case idle => cases h
  case wake => cases h
  case awaits =>
    split at h
    · rename_i hqueue
      simp only [hqueue] at hQ
      split at h
      · cases h
        refine .head (.frame ?_) (Does.await _ (hQ (_, _) (List.mem_singleton.mpr rfl))).all
        constructor <;> first | rfl | exact fun _ _ _ _ => .inl
      · cases h
    · cases h
  case suspensions =>
    split at h
    · rename_i hqueue
      simp only [hqueue] at hQ
      split at h
      · cases h
        refine .head (.frame ?_)
          (suspension_does _ _)
        constructor <;> first | rfl | exact fun _ _ _ _ => .inl
      · cases h
    · cases h
  case requests =>
    split at h
    · rename_i hqueue
      simp only [hqueue] at hQ
      split at h
      · cases h
        exact posted_does ‹_› rfl hQ
      · cases h
    · cases h
  case gpuCollect =>
    split at h
    · split at h
      · cases h
        exact frame_all (by constructor <;> first | rfl | exact fun _ _ _ _ => .inl)
      · cases h
    · cases h
  case gpuRecover =>
    split at h
    · split at h
      · cases h
        unfold recover
        simp only
        split
        · exact frame_all (by constructor <;> first | rfl | exact fun _ _ _ _ => .inl)
        · split <;> exact frame_all (by constructor <;> first | rfl | exact fun _ _ _ _ => .inl)
      · cases h
    · cases h
  case gpuEvaluate =>
    split at h
    · cases h
      exact frame_all (by constructor <;> first | rfl | exact fun _ _ _ _ => .inl)
    · cases h
  case popPublished =>
    split at h
    · split at h
      · cases h
        exact frame_all (by constructor <;> first | rfl | exact fun _ _ _ _ => .inl)
      · cases h
    · cases h
  case popCompletions =>
    split at h
    · split at h
      · cases h
        exact .tail (Does.collect ‹_›).all (.frame (by
          constructor <;> first | rfl | exact fun _ _ _ _ => .inl))
      · cases h
    · cases h
  case gpuApply =>
    split at h
    · rename_i hqueue
      simp only [hqueue] at hQ
      cases h
      refine .head (.frame ?_) (gpu_does (hQ (_, _) (List.mem_singleton.mpr rfl)))
      constructor <;> first | rfl | exact fun _ _ _ _ => .inl
    · cases h
  case retry =>
    split at h
    · rename_i entry hentry
      simp only [hentry] at hQ
      split at h
      · cases h
        exact frame_all (by constructor <;> first | rfl | exact fun _ _ _ _ => .inl)
      · rename_i hstale
        rw [if_neg hstale] at hQ
        split at h
        · cases h
        · cases h
          refine .head (.frame ?_) (retry_does _ _)
          constructor <;> first | rfl | exact fun _ _ _ _ => .inl
    · cases h
  case complete => exact absurd hphase hcomplete
  case build =>
    split at h
    · rename_i hqueue
      simp only [hqueue] at hQ
      cases h
      refine .head (.frame ?_) (build_does (hQ (_, _) (List.mem_singleton.mpr rfl)))
      constructor <;> first | rfl | exact fun _ _ _ _ => .inl
    · cases h
  case dispatch =>
    split at h
    · cases h
      refine .head (.frame ?_) (Does.dispatch _).all
      constructor <;> first | rfl | exact fun _ _ _ _ => .inl
    · cases h
  case reclaim =>
    split at h
    · rename_i hqueue
      simp only [hqueue] at hQ
      split at h
      · cases h
        refine .head (.frame ?_) (reclaim_does (hQ (_, _) (List.mem_singleton.mpr rfl)))
        constructor <;> first | rfl | exact fun _ _ _ _ => .inl
      · cases h
    · cases h
  case retire =>
    split at h
    · cases h
      exact frame_all (by constructor <;> first | rfl | exact fun _ _ _ _ => .inl)
    · cases h
  case callbacks => exact handOver_does h

theorem foldl_frames {β : Type} {f : World → β → World} (hf : ∀ s x, Frame s (f s x))
    (l : List β) (s : World) : Frame s (l.foldl f s) := by
  induction l generalizing s with
  | nil => exact .refl s
  | cons x l ih => exact (hf s x).trans (ih _)

theorem announce_frames (snapshots : List ArtifactSnapshot) (s : World) :
    Frame s (snapshots.foldl announce s) :=
  foldl_frames (fun s snapshot => by
    constructor <;> first | rfl | exact fun _ _ _ _ => .inl) snapshots s

theorem leave_does (h : s.leave = some s') : DoesAll Q s s' := by
  unfold leave at h
  split at h
  · cases h
  split at h
  · cases h
    refine .tail (b := s.betweenPhases) ?_ (.frame (by
      constructor <;> first | rfl | exact fun _ _ _ _ => .inl))
    unfold betweenPhases
    split
    case h_1 =>
      refine frame_all (.trans ?_ (foldl_frames (fun s entry => ?_) _ _))
      · constructor <;> first | rfl | exact fun _ _ _ _ => .inl
      · constructor <;> first | rfl | exact fun _ _ _ _ => .inl
    case h_4 =>
      refine frame_all (.trans ?_ (announce_frames _ _))
      constructor <;> first | rfl | exact fun _ _ _ _ => .inl
    case h_6 =>
      refine frame_all (.trans ?_ (announce_frames _ _))
      constructor <;> first | rfl | exact fun _ _ _ _ => .inl
    case h_7 => exact Does.publish.all
    all_goals exact frame_all (by constructor <;> first | rfl | exact fun _ _ _ _ => .inl)
  · cases h

theorem wake_does {consumer : ArtifactKey} (hQ : ∀ entry ∈ s.wakeCalls consumer, Q entry.1 entry.2)
    (h : step s (.wake consumer) = some s') : DoesAll Q s s' := by
  unfold wakeCalls at hQ
  simp only [step] at h
  split at h
  · rename_i wake wakes hphase hwakes
    simp only [hwakes] at hQ
    split at h
    · cases h
      unfold wakeConsumer
      split
      · exact frame_all (by constructor <;> first | rfl | exact fun _ _ _ _ => .inl)
      · rename_i hfresh
        have hcalls : consumer ∉ s.slice.evaluatedWaiters := hfresh
        rw [if_neg hcalls] at hQ
        refine .head (.frame ?_) (Does.wake _ _ (hQ (_, _) (List.mem_singleton.mpr rfl))).all
        constructor <;> first | rfl | exact fun _ _ _ _ => .inl
    · cases h
  · cases h

/-- **Every step is a sequence of calls.** -/
theorem step_does {a : Action} (hQ : CallsMeet Q s a) (h : step s a = some s') :
    DoesAll Q s s' := by
  cases a with
  | item => exact item_does hQ h
  | leave => exact leave_does h
  | wake consumer => exact wake_does hQ h
  | requestInline intents coalescible =>
    simp only [step] at h
    split at h
    · cases h
      exact .tail (mutation_does s (.requestBatch intents coalescible) hQ) .publish
    · cases h
  | request intent coalescible =>
    cases h
    unfold postSynchronous
    split
    · exact frame_all (by constructor <;> first | rfl | exact fun _ _ _ _ => .inl)
    · refine frame_all (posted_frame fun p hmem => ?_)
      rcases List.mem_append.mp hmem with hold | hnew
      · exact .inl hold
      · rw [List.mem_singleton.mp hnew]
        refine .inr fun _ _ _ _ heq => ?_
        cases heq
        rfl
  | postRequest intent coalescible =>
    cases h
    exact (Does.post intent coalescible).all
  | postIntents intents =>
    cases h
    refine frame_all (posted_frame fun p hmem => ?_)
    rcases List.mem_append.mp hmem with hold | hnew
    · exact .inl hold
    · obtain ⟨intent, _, rfl⟩ := List.mem_map.mp hnew
      refine .inr fun _ _ _ _ heq => ?_
      cases heq
      rfl
  | mutate m =>
    cases h
    refine frame_all (posted_frame fun p hmem => ?_)
    rcases List.mem_append.mp hmem with hold | hnew
    · exact .inl hold
    · rw [List.mem_singleton.mp hnew]
      exact .inr nofun
  | dropLease token =>
    simp only [step] at h
    split at h
    · cases h
    · split at h
      · cases h
      · cases h
        exact (Does.dropLease ‹_› (Bool.eq_false_iff.mpr ‹_›)).all
  | finishBuild index result =>
    obtain ⟨context, hget, rfl⟩ := Option.map_eq_some_iff.mp h
    exact (Does.finishBuild hget result).all
  | finishAcceptance index error =>
    obtain ⟨dispatch, hget, rfl⟩ := Option.map_eq_some_iff.mp h
    exact (Does.finishAcceptance hget error).all
  | notifySuspension identity | awaitExact version milestone lease | drain =>
    simp only [step] at h
    split at h
    · cases h
      try exact frame_all (by constructor <;> first | rfl | exact fun _ _ _ _ => .inl)
    · cases h
      try exact frame_all (by constructor <;> first | rfl | exact fun _ _ _ _ => .inl)
  | unsubscribe | registerProducer | setGpu | notifyGpu | tick =>
    cases h
    exact frame_all (by constructor <;> first | rfl | exact fun _ _ _ _ => .inl)

/-- **The invariant rule of the runs.** What every call preserves holds in every state of a run
whose calls meet `Q`. -/
theorem within_invariant {I : World → Prop} {s₀ : World} (h₀ : I s₀)
    (hdoes : ∀ {u v}, Does Q u v → I u → I v) (h : Run.Within step (CallsMeet Q) s₀ s) : I s :=
  h.invariant h₀ fun _ hinv hmeet hstep => (step_does hmeet hstep).invariant hdoes hinv

end ModuleServices.Graph.Proof
