import ModuleServices.Graph.Proof.CallNodes

/-!
# Who touches the awaiters

The posted operations, the remembered cancellations, the registered waiters, the ones taken for the
slice's dispatches and the callbacks called, as one value (`awaits`). Most of the graph leaves it as
it is, a migration to a canonical identity included: it files waiters elsewhere, but there are as
many of each subscription. What is left is six things a step can do (`Changes`).
-/

namespace ModuleServices.Graph.Proof

open World

structure Awaits where
  posted : List PostedAwait
  cancelled : List Nat
  /-- The waiters of a subscription, under whatever identity. -/
  registered : Nat → Nat
  /-- Settled at the registration, or taken from the table, and to be called in this slice. -/
  leaving : Nat → Nat
  /-- The calls of a callback. -/
  called : Nat → Nat
  next : Nat

def countWaiters (x : Nat) (waiters : List ExactWaiter) : Nat :=
  waiters.countP fun waiter => waiter.subscription == x

def registeredIn (waiters : Table VersionID (List ExactWaiter)) (x : Nat) : Nat :=
  waiters.sum fun _ => countWaiters x

def calledIn (history : List Event) : List Nat :=
  history.filterMap fun
    | .awaited subscription _ => some subscription
    | _ => none

/-- Whose callback the slice has yet to call. -/
def leavingIn (slice : Slice) : List Nat :=
  slice.settledAwaits.map (fun entry => entry.1.subscription)
    ++ slice.exactDispatches.map fun entry => entry.1.subscription

def awaits (s : World) : Awaits where
  posted := s.postedAwaits
  cancelled := s.cancelledAwaitSubscriptions
  registered := registeredIn s.exactWaiters
  leaving x := (leavingIn s.slice).count x
  called x := (calledIn s.history).count x
  next := s.nextSubscription

variable {s s' : World} {key : ArtifactKey}

theorem calledIn_append {event : Event} (history : List Event)
    (h : ∀ subscription outcome, event ≠ .awaited subscription outcome) :
    calledIn (history ++ [event]) = calledIn history := by
  unfold calledIn
  rw [List.filterMap_append]
  cases event with
  | awaited subscription outcome => exact absurd rfl (h subscription outcome)
  | _ => exact List.append_nil _

theorem log_awaits {event : Event} (s : World)
    (h : ∀ subscription outcome, event ≠ .awaited subscription outcome) :
    awaits (s.log event) = awaits s := by
  unfold awaits log
  dsimp only
  rw [calledIn_append s.history h]

theorem foldl_awaits {β : Type} {f : World → β → World} (hf : ∀ s x, awaits (f s x) = awaits s)
    (l : List β) : ∀ s, awaits (l.foldl f s) = awaits s := by
  induction l with
  | nil => exact fun _ => rfl
  | cons x l ih => exact fun s => (ih (f s x)).trans (hf s x)

/-! ## Single writes -/

section
variable (s key)

@[simp] theorem modifyNode_awaits (f : Node → Node) : awaits (s.modifyNode key f) = awaits s := rfl
@[simp] theorem queueReclaim_awaits (versions : List VersionID) :
    awaits (s.queueReclaim versions) = awaits s := rfl
@[simp] theorem announce_awaits (snapshot : ArtifactSnapshot) :
    awaits (s.announce snapshot) = awaits s := rfl
@[simp] theorem propagate_awaits (snapshot : ArtifactSnapshot) :
    awaits (s.propagate snapshot) = awaits s := rfl
@[simp] theorem announceNode_awaits : awaits (s.announceNode key) = awaits s := rfl
@[simp] theorem propagateNode_awaits : awaits (s.propagateNode key) = awaits s := rfl
@[simp] theorem markViewDirty_awaits : awaits (s.markViewDirty key) = awaits s := rfl
@[simp] theorem setDesired_awaits (desired : Bool) : awaits (s.setDesired key desired) = awaits s :=
  rfl
@[simp] theorem setState_awaits (state : ArtifactReadiness) :
    awaits (s.setState key state) = awaits s := rfl
@[simp] theorem pinSuccessor_awaits (successor : RequestedVersion) :
    awaits (s.pinSuccessor key successor) = awaits s := rfl
@[simp] theorem unpinSuccessor_awaits (successor : RequestedVersion) :
    awaits (s.unpinSuccessor key successor) = awaits s := rfl
@[simp] theorem clearSuccessors_awaits : awaits (s.clearSuccessors key) = awaits s := rfl
@[simp] theorem wakeWaiters_awaits : awaits (s.wakeWaiters key) = awaits s := rfl
@[simp] theorem removeWaiterEdges_awaits : awaits (s.removeWaiterEdges key) = awaits s := rfl
@[simp] theorem installWaiterEdges_awaits (prepared : List ArtifactKey) :
    awaits (s.installWaiterEdges key prepared) = awaits s := rfl
@[simp] theorem pruneCompletedWaiterEdges_awaits :
    awaits (s.pruneCompletedWaiterEdges key) = awaits s := rfl
@[simp] theorem latchReadyGates_awaits : awaits (s.latchReadyGates key) = awaits s := rfl
@[simp] theorem storeVersion_awaits : awaits (s.storeVersion key) = awaits s := rfl
@[simp] theorem push_awaits : awaits (s.push key) = awaits s := rfl
@[simp] theorem freshFlag_awaits : awaits s.freshFlag = awaits s := rfl
@[simp] theorem registerVersionLease_awaits (v : VersionID) (token : Option Nat) :
    awaits (s.registerVersionLease v token) = awaits s := rfl
@[simp] theorem acquireVersionLease_awaits (v : VersionID) :
    awaits (s.acquireVersionLease v).1 = awaits s := rfl
@[simp] theorem makeLeaseToken_awaits (v : VersionID) :
    awaits (s.makeLeaseToken v).1 = awaits s := rfl
@[simp] theorem took_awaits (late : Bool) : awaits (s.took late) = awaits s := rfl

end

/-! ## Nodes -/

theorem detectCycle_awaits (s : World) (key : ArtifactKey) :
    awaits (s.detectCycle key).1 = awaits s := by
  obtain ⟨_, _, h⟩ := detectCycle_marks s key
  rw [h]
  rfl

theorem admitNode_awaits (s : World) (key : ArtifactKey) : awaits (s.admitNode key) = awaits s := by
  unfold admitNode
  split
  · rfl
  · split
    · rfl
    · split <;> rfl

theorem queueNode_awaits (s : World) (key : ArtifactKey) : awaits (s.queueNode key) = awaits s := by
  unfold queueNode
  split
  · rfl
  · split
    · rfl
    · exact admitNode_awaits (s.latchReadyGates key) key

theorem failCycleNode_awaits (error : String) (s : World) (key : ArtifactKey) :
    awaits (failCycleNode error s key) = awaits s := by
  unfold failCycleNode
  simp

theorem failCycle_awaits (s : World) (cycle : List ArtifactKey) :
    awaits (s.failCycle cycle) = awaits s :=
  foldl_awaits (fun s key => failCycleNode_awaits _ s key) _ s

theorem startVersion_awaits (s : World) (key : ArtifactKey) :
    awaits (s.startVersion key) = awaits s := by
  unfold startVersion
  dsimp only
  split
  · exact (queueNode_awaits _ key).trans (detectCycle_awaits s key)
  · exact (failCycle_awaits _ _).trans (detectCycle_awaits s key)

theorem installSuccessor_awaits (s : World) (key : ArtifactKey) (node : Node)
    (successor : RequestedVersion) (successors : List RequestedVersion) :
    awaits (s.installSuccessor key node successor successors) = awaits s := by
  have hwaiting (u : World) (gpuWaiting : Nat) : awaits { u with gpuWaiting } = awaits u := rfl
  unfold installSuccessor
  simp only [setState_awaits, queueReclaim_awaits, installWaiterEdges_awaits, freshFlag_awaits,
    modifyNode_awaits, unpinSuccessor_awaits, removeWaiterEdges_awaits, hwaiting,
    storeVersion_awaits]

theorem promoteSuccessor_awaits (s : World) (key : ArtifactKey) :
    awaits (s.promoteSuccessor key) = awaits s := by
  unfold promoteSuccessor
  split
  · rfl
  · split
    · rfl
    · split
      · rfl
      · exact (startVersion_awaits _ key).trans (installSuccessor_awaits s key _ _ _)

theorem queueLatestSuccessor_awaits (s : World) (key : ArtifactKey) :
    awaits (s.queueLatestSuccessor key) = awaits s := by
  unfold queueLatestSuccessor
  split
  · rfl
  · split
    · rfl
    · split
      · exact promoteSuccessor_awaits _ key
      · refine (promoteSuccessor_awaits _ key).trans ?_
        unfold mintLatest
        simp only [pinSuccessor_awaits, modifyNode_awaits, acquireVersionLease_awaits]
        rfl

theorem wakeWaiter_awaits (s : World) (key waiter : ArtifactKey) :
    awaits (s.wakeWaiter key waiter) = awaits s := by
  unfold wakeWaiter
  split
  · rfl
  · dsimp only
    split
    · exact queueLatestSuccessor_awaits s waiter
    · split
      · exact queueNode_awaits _ waiter
      · exact queueNode_awaits s waiter

theorem handOn_awaits (s : World) (key : ArtifactKey) : awaits (s.handOn key) = awaits s := by
  unfold handOn
  split
  · rfl
  · split
    · exact queueLatestSuccessor_awaits s key
    · exact promoteSuccessor_awaits s key

/-! ## Cancel, release, publication -/

theorem cancelLocked_awaits (s : World) (key : ArtifactKey) :
    awaits (s.cancelLocked key) = awaits s := by
  unfold cancelLocked
  split
  · rfl
  · have hlists (u : World) (gpuWaiting : Nat) (pendingCancellations : List Nat) :
        awaits { u with gpuWaiting, pendingCancellations } = awaits u := rfl
    simp only [setState_awaits, modifyNode_awaits, hlists, clearSuccessors_awaits,
      queueReclaim_awaits, setDesired_awaits, removeWaiterEdges_awaits]

theorem eraseNode_awaits (s : World) (key : ArtifactKey) : awaits (s.eraseNode key) = awaits s := by
  unfold eraseNode
  split <;> rfl

theorem releaseLocked_awaits (s : World) (key : ArtifactKey) :
    awaits (s.releaseLocked key) = awaits s := by
  unfold releaseLocked
  dsimp only
  split
  · exact cancelLocked_awaits s key
  · split
    · exact (eraseNode_awaits _ key).trans (cancelLocked_awaits s key)
    · exact cancelLocked_awaits s key

theorem publishArchived_awaits (s : World) (v : VersionID) :
    awaits (s.publishArchived v) = awaits s := by
  unfold publishArchived
  split
  · rfl
  · split
    · rfl
    · split <;> rfl

theorem publishCursor_awaits (s : World) (v : VersionID) :
    awaits (s.publishCursor v) = awaits s := by
  unfold publishCursor
  split
  · rfl
  · split
    · rfl
    · split
      · rfl
      · split
        · rfl
        · dsimp only
          split <;> rfl

theorem markPublishedLocked_awaits (s : World) (v : VersionID) :
    awaits (s.markPublishedLocked v) = awaits s := by
  unfold markPublishedLocked
  split
  · exact (publishCursor_awaits _ _).trans (publishArchived_awaits s _)
  · rfl

theorem markPublishedRevisionLocked_awaits (s : World) (key : ArtifactKey) (revision : Nat) :
    awaits (s.markPublishedRevisionLocked key revision) = awaits s := by
  have hfold := foldl_awaits markPublishedLocked_awaits
    ((s.addressVersions key).filter fun v => v.revision == revision) s
  unfold markPublishedRevisionLocked
  dsimp only
  split
  · exact hfold
  · split
    · exact (markPublishedLocked_awaits _ _).trans hfold
    · exact hfold

/-! ## The registered waiters -/

section
variable {waiters : Table VersionID (List ExactWaiter)} {v : VersionID} {x : Nat}

def waitersAt (waiters : Table VersionID (List ExactWaiter)) (v : VersionID) : List ExactWaiter :=
  (waiters.find? v).getD []

theorem countWaiters_append (x : Nat) (l l' : List ExactWaiter) :
    countWaiters x (l ++ l') = countWaiters x l + countWaiters x l' := List.countP_append

theorem registeredIn_erase (waiters : Table VersionID (List ExactWaiter)) (v : VersionID) (x : Nat) :
    registeredIn (waiters.erase v) x + countWaiters x (waitersAt waiters v)
      = registeredIn waiters x := by
  have herase := Table.sum_erase_add waiters (fun _ => countWaiters x) v
  unfold registeredIn waitersAt
  cases hfind : waiters.find? v with
  | none =>
    rw [hfind] at herase
    exact herase
  | some list =>
    rw [hfind] at herase
    exact herase

theorem registeredIn_insert (waiters : Table VersionID (List ExactWaiter)) (v : VersionID)
    (list : List ExactWaiter) (x : Nat) :
    registeredIn (waiters.insert v list) x + countWaiters x (waitersAt waiters v)
      = registeredIn waiters x + countWaiters x list := by
  have herase := registeredIn_erase waiters v x
  have hinsert : registeredIn (waiters.insert v list) x
      = registeredIn (waiters.erase v) x + countWaiters x list :=
    Table.sum_insert waiters (fun _ => countWaiters x) v list
  omega

/-- A list that is left empty goes. -/
theorem registeredIn_put (waiters : Table VersionID (List ExactWaiter)) (v : VersionID)
    (rest : List ExactWaiter) (x : Nat) :
    registeredIn (if rest = [] then waiters.erase v else waiters.insert v rest) x
        + countWaiters x (waitersAt waiters v)
      = registeredIn waiters x + countWaiters x rest := by
  split
  next hrest =>
    subst hrest
    exact registeredIn_erase waiters v x
  next => exact registeredIn_insert waiters v rest x

/-- What moves to another identity is counted there. -/
theorem registeredIn_migrate {version : VersionID} {waiting : List ExactWaiter}
    (hne : v ≠ version) (hfind : waiters.find? v = some waiting) :
    registeredIn ((waiters.insert version ((waiters.find? version).getD []
      ++ waiting.map fun waiter : ExactWaiter => { waiter with version })).erase v)
      = registeredIn waiters := by
  funext x
  have hmap : countWaiters x (waiting.map fun waiter : ExactWaiter => { waiter with version })
      = countWaiters x waiting := List.countP_map
  have hinsert := registeredIn_insert waiters version (waitersAt waiters version
    ++ waiting.map fun waiter : ExactWaiter => { waiter with version }) x
  have herase := registeredIn_erase (waiters.insert version (waitersAt waiters version
    ++ waiting.map fun waiter : ExactWaiter => { waiter with version })) v x
  have hat : waitersAt (waiters.insert version (waitersAt waiters version
      ++ waiting.map fun waiter : ExactWaiter => { waiter with version })) v = waiting := by
    unfold waitersAt
    rw [Table.find?_insert, if_neg hne, hfind]
    rfl
  rw [countWaiters_append, hmap] at hinsert
  rw [hat] at herase
  unfold waitersAt at hinsert herase
  omega

end

/-! ## Requests -/

/-- The waiters are filed under another identity, and are as many as before. -/
theorem migrateAliasedVersion_awaits (s : World) (predicted version : VersionID) :
    awaits (s.migrateAliasedVersion predicted version) = awaits s := by
  unfold migrateAliasedVersion
  split
  · rfl
  next hne =>
    -- first the waiters, then pins and leases, which are not theirs
    have hrest (u : World) (pins : Table VersionID Nat) :
        awaits { u with exactRecipePins := pins } = awaits u := rfl
    dsimp only
    rw [registerVersionLease_awaits]
    cases hfind : s.exactWaiters.find? predicted with
    | none => dsimp only; split <;> rfl
    | some waiting =>
      have hmove : awaits { s with exactWaiters := (s.exactWaiters.insert version
          ((s.exactWaiters.find? version).getD [] ++ waiting.map
            (fun waiter : ExactWaiter => { waiter with version := version }))).erase predicted }
          = awaits s := by
        unfold awaits
        dsimp only
        rw [registeredIn_migrate hne hfind]
      dsimp only
      split
      · exact hmove
      · exact (hrest _ _).trans hmove

theorem aliasPredicted_awaits (s : World) (requested : VersionKey) (preassigned generation : Nat) :
    awaits (s.aliasPredicted requested preassigned generation) = awaits s := by
  unfold aliasPredicted
  split
  · rfl
  · exact migrateAliasedVersion_awaits _ _ _

theorem rejectPredicted_awaits (s : World) (requested : VersionKey) (status : ArtifactRequestStatus)
    (preassigned generation : Nat) (lease : Option Nat) (createdHere : Bool) :
    awaits (s.rejectPredicted requested status preassigned generation lease createdHere)
      = awaits s := by
  unfold rejectPredicted
  split
  · rfl
  · dsimp only
    split <;> rfl

theorem reserveGeneration_awaits (s : World) (v : VersionKey) :
    awaits (s.reserveGeneration v).1 = awaits s := by
  unfold reserveGeneration
  split <;> rfl

theorem ensureGeneration_awaits (s : World) (a : RequestArgs) :
    awaits (s.ensureGeneration a).1 = awaits s := by
  have hwritten (u : World) (versionGenerations : Table VersionKey Nat) :
      awaits { u with versionGenerations } = awaits u := rfl
  unfold ensureGeneration
  cases s.versionGenerations.find? a.version with
  | some generation => rfl
  | none =>
    dsimp only
    split
    · rfl
    · exact (hwritten _ _).trans (reserveGeneration_awaits s a.version)

theorem ensureNode_awaits (s : World) (key : ArtifactKey) :
    awaits (s.ensureNode key) = awaits s := by
  unfold ensureNode
  dsimp only
  split <;> rfl

theorem coalesceFrom_awaits (key : ArtifactKey) (successors : List RequestedVersion) :
    ∀ s, awaits (coalesceFrom key s successors).1 = awaits s := by
  induction successors with
  | nil => exact fun _ => rfl
  | cons successor rest ih =>
    intro s
    unfold coalesceFrom
    split
    · exact ih _
    · rfl

theorem supersede_awaits (s : World) (key : ArtifactKey) (node : Node) :
    awaits (s.supersede key node) = awaits s := by
  unfold supersede
  dsimp only
  split
  · exact coalesceFrom_awaits key _ _
  · exact coalesceFrom_awaits key _ s

theorem queueSuccessor_awaits (s : World) (a : RequestArgs) (node : Node) (generation lease : Nat) :
    awaits (s.queueSuccessor a node generation lease) = awaits s := by
  have hsupersede : awaits (if a.coalescibleIntent then s.supersede a.key node else s)
      = awaits s := by
    split
    · exact supersede_awaits s a.key node
    · rfl
  unfold queueSuccessor
  generalize (if a.coalescibleIntent then s.supersede a.key node else s) = u at hsupersede
  dsimp only
  split
  · rw [promoteSuccessor_awaits, pinSuccessor_awaits, modifyNode_awaits, hsupersede]
  · rw [pinSuccessor_awaits, modifyNode_awaits, hsupersede]

theorem replaceVersion_awaits (s : World) (a : RequestArgs) (node : Node)
    (generation lease : Nat) : awaits (s.replaceVersion a node generation lease) = awaits s := by
  unfold replaceVersion
  simp only [startVersion_awaits, installWaiterEdges_awaits, setState_awaits, queueReclaim_awaits,
    freshFlag_awaits, modifyNode_awaits, removeWaiterEdges_awaits, storeVersion_awaits]

theorem acceptRequest_awaits (s : World) (a : RequestArgs) (generation : Nat) :
    awaits (s.acceptRequest a generation).1 = awaits s := by
  have hsigned (u : World) (versionSignatures : Table VersionKey VersionSignature) :
      awaits { u with versionSignatures } = awaits u := rfl
  unfold acceptRequest
  dsimp only
  rw [apply_ite awaits, queueSuccessor_awaits, replaceVersion_awaits, ite_self,
    markViewDirty_awaits, modifyNode_awaits, hsigned, acquireVersionLease_awaits,
    registerVersionLease_awaits, aliasPredicted_awaits]

theorem decideRequest_awaits (s : World) (a : RequestArgs) (generation : Nat)
    (createdHere : Bool) : awaits (s.decideRequest a generation createdHere).1 = awaits s := by
  have hreject (status : ArtifactRequestStatus) :
      awaits (s.rejectRequest a status generation createdHere).1 = awaits s :=
    rejectPredicted_awaits s _ _ _ _ _ _
  unfold decideRequest
  dsimp only
  split
  · split
    · exact hreject _
    · split
      · exact hreject _
      · split
        · unfold alreadyDesired
          dsimp only
          rw [acquireVersionLease_awaits, registerVersionLease_awaits, aliasPredicted_awaits]
        · have hrenew : awaits (s.renewGeneration a generation).1 = awaits s := by
            unfold renewGeneration
            split <;> rfl
          exact (acceptRequest_awaits _ _ _).trans hrenew
  · split
    · exact hreject _
    · exact acceptRequest_awaits s a generation

theorem requestInternal_awaits (s : World) (a : RequestArgs) :
    awaits (s.requestInternal a) = awaits s := by
  have hbody : awaits (s.requestBody a).1 = awaits s := by
    unfold requestBody
    split
    · rfl
    · exact ((decideRequest_awaits _ _ _ _).trans (ensureNode_awaits _ _)).trans
        (ensureGeneration_awaits s _)
  unfold requestInternal
  exact (log_awaits _ fun _ _ hno => by cases hno).trans hbody

theorem applyMutation_awaits (s : World) (m : Mutation) : awaits (s.applyMutation m) = awaits s := by
  cases m with
  | requestBatch intents coalescible =>
    exact foldl_awaits (fun s intent => requestInternal_awaits s (ofIntent intent coalescible)) _ s
  | invalidate key desiredRevision => exact requestInternal_awaits s _
  | cancel key => exact cancelLocked_awaits s key
  | release keys => exact foldl_awaits releaseLocked_awaits keys s
  | markPublished versions => exact foldl_awaits markPublishedLocked_awaits versions s
  | markPublishedRevision key revision => exact markPublishedRevisionLocked_awaits s key revision
  | pumpGpuCompletions | addReadyCallback | removeReadyCallback => rfl
  | observe address subscription =>
    unfold applyMutation
    dsimp only
    split
    · split <;> rfl
    · rfl

theorem applyPosted_awaits (s : World) (posted : PostedRequest) :
    awaits (s.applyPosted posted) = awaits s := by
  cases posted with
  | request => exact requestInternal_awaits s _
  | mutation m => exact applyMutation_awaits s m

/-! ## Completions -/

theorem reach_awaits (s : World) (key : ArtifactKey) : awaits (s.reach key) = awaits s := by
  unfold reach
  rw [wakeWaiters_awaits, storeVersion_awaits, announceNode_awaits]

theorem awaitGpu_awaits (s : World) (key : ArtifactKey) (token : Nat) :
    awaits (s.awaitGpu key token) = awaits s := rfl

theorem applyReady_awaits (s : World) (node : Node) (completion : Completion) :
    awaits (s.applyReady node completion) = awaits s := by
  unfold applyReady
  dsimp only
  split
  · split
    · simp only [reach_awaits, setState_awaits, awaitGpu_awaits, pruneCompletedWaiterEdges_awaits,
        modifyNode_awaits, queueReclaim_awaits]
    · split <;> simp only [handOn_awaits, reach_awaits, setState_awaits, awaitGpu_awaits,
        pruneCompletedWaiterEdges_awaits, modifyNode_awaits, queueReclaim_awaits]
  · simp only [handOn_awaits, reach_awaits, setState_awaits, pruneCompletedWaiterEdges_awaits,
      modifyNode_awaits, queueReclaim_awaits]

theorem applyNeeds_awaits (s : World) (key : ArtifactKey) (result : ArtifactBuildResult) :
    awaits (s.applyNeeds key result) = awaits s := by
  unfold applyNeeds
  simp only [startVersion_awaits, installWaiterEdges_awaits, modifyNode_awaits,
    removeWaiterEdges_awaits]

theorem applyRetryAfter_awaits (s : World) (node : Node) (result : ArtifactBuildResult) :
    awaits (s.applyRetryAfter node result) = awaits s := by
  have hretries (u : World) (retries : List RetryEntry) :
      awaits { u with retries } = awaits u := rfl
  unfold applyRetryAfter
  simp only [hretries, setState_awaits, modifyNode_awaits]

theorem applySuspended_awaits (s : World) (node : Node) (result : ArtifactBuildResult)
    (suspension : ArtifactSuspension) :
    awaits (s.applySuspended node result suspension) = awaits s := by
  have hsatisfied (u : World) (satisfiedSuspensions : List Nat) :
      awaits { u with satisfiedSuspensions } = awaits u := rfl
  have hsuspended (u : World) (suspendedByIdentity : Table Nat VersionID) :
      awaits { u with suspendedByIdentity } = awaits u := rfl
  unfold applySuspended
  dsimp only
  split
  · simp only [queueNode_awaits, modifyNode_awaits, installWaiterEdges_awaits,
      removeWaiterEdges_awaits, setState_awaits]
  · split
    · simp only [announceNode_awaits, modifyNode_awaits, setState_awaits]
    · split
      · simp only [queueNode_awaits, modifyNode_awaits, hsatisfied, setState_awaits]
      · simp only [hsuspended, setState_awaits, modifyNode_awaits]

theorem announceEnd_awaits (s : World) (completion : Completion) (node : Node)
    (state : ArtifactReadiness) : awaits (s.announceEnd completion node state) = awaits s := rfl

theorem applyResult_awaits (s : World) (node : Node) (completion : Completion)
    (result : ArtifactBuildResult) :
    awaits (s.applyResult node completion result) = awaits s := by
  unfold applyResult
  split
  · exact applyReady_awaits s node _
  · split
    · exact queueNode_awaits s node.key
    · exact applyNeeds_awaits s node.key result
  · split
    · exact queueNode_awaits s node.key
    · exact applyRetryAfter_awaits s node result
  · split
    · split
      · exact queueNode_awaits s node.key
      · exact applySuspended_awaits s node result _
    · exact queueNode_awaits s node.key
  · unfold applyCancelled
    simp only [promoteSuccessor_awaits, wakeWaiters_awaits, storeVersion_awaits, announceEnd_awaits,
      setState_awaits]
  · unfold applyFailed
    simp only [promoteSuccessor_awaits, wakeWaiters_awaits, storeVersion_awaits, announceEnd_awaits,
      setState_awaits, modifyNode_awaits]

theorem applyCompletion_awaits (s : World) (completion : Completion) :
    awaits (s.applyCompletion completion) = awaits s := by
  have hlog (u : World) (stale : Bool) : awaits (u.log (.judged completion.key
      completion.generation stale completion.dependencies)) = awaits u :=
    log_awaits u fun _ _ hno => by cases hno
  unfold applyCompletion
  split
  · rfl
  · dsimp only
    split
    · rw [queueNode_awaits, hlog, modifyNode_awaits]
    · rw [applyResult_awaits, hlog, modifyNode_awaits]

theorem landCompletion_awaits (s : World) (completion : Completion) :
    awaits (s.landCompletion completion) = awaits s := by
  have hclean (u : World) (key : ArtifactKey) : awaits (u.cleanUp key) = awaits u := by
    unfold cleanUp
    split
    · rfl
    · split
      · exact eraseNode_awaits u key
      · rfl
  unfold landCompletion
  dsimp only
  rw [hclean]
  split
  · rfl
  · exact applyCompletion_awaits s completion

/-! ## Submission sets, retries, suspensions -/

theorem gpuFailed_awaits (s : World) (key : ArtifactKey) (error : String) :
    awaits (s.gpuFailed key error) = awaits s := by
  have hwaiting (u : World) (gpuWaiting : Nat) : awaits { u with gpuWaiting } = awaits u := rfl
  unfold gpuFailed
  simp only [hwaiting, promoteSuccessor_awaits, wakeWaiters_awaits, announceNode_awaits,
    storeVersion_awaits, setState_awaits, modifyNode_awaits]

theorem gpuSubmitted_awaits (s : World) (key : ArtifactKey) :
    awaits (s.gpuSubmitted key) = awaits s := by
  unfold gpuSubmitted
  rw [wakeWaiters_awaits, announceNode_awaits, storeVersion_awaits, setState_awaits]

theorem gpuCompleted_awaits (s : World) (key : ArtifactKey) (node : Node) :
    awaits (s.gpuCompleted key node) = awaits s := by
  have hwaiting (u : World) (gpuWaiting : Nat) : awaits { u with gpuWaiting } = awaits u := rfl
  unfold gpuCompleted
  simp only [hwaiting, promoteSuccessor_awaits, wakeWaiters_awaits, announceNode_awaits,
    storeVersion_awaits, setState_awaits, modifyNode_awaits]

theorem applyGpu_awaits (s : World) (evaluation : EvaluatedGpu) :
    awaits (s.applyGpu evaluation) = awaits s := by
  unfold applyGpu
  dsimp only
  split
  · rfl
  · split
    · rfl
    · split
      · exact gpuFailed_awaits s _ _
      · split
        · split
          · rw [gpuCompleted_awaits, gpuSubmitted_awaits]
          · rw [handOn_awaits, gpuSubmitted_awaits]
        · split
          · rfl
          · exact gpuCompleted_awaits s _ _

theorem applyRetry_awaits (s : World) (entry : RetryEntry) :
    awaits (s.applyRetry entry) = awaits s := by
  unfold applyRetry
  rw [queueNode_awaits, modifyNode_awaits]

theorem applySuspensionSatisfied_awaits (s : World) (identity : Nat) :
    awaits (s.applySuspensionSatisfied identity) = awaits s := by
  have hsuspended (u : World) (suspendedByIdentity : Table Nat VersionID) :
      awaits { u with suspendedByIdentity } = awaits u := rfl
  unfold applySuspensionSatisfied
  split
  · rfl
  · dsimp only
    split
    · rfl
    · split
      · rw [queueNode_awaits, modifyNode_awaits, hsuspended]
      · rfl

/-! ## Builds, reclamation, views -/

theorem startBuild_awaits (s : World) (key : ArtifactKey) (node : Node) :
    awaits (s.startBuild key node) = awaits s := by
  obtain ⟨u, hleases, heq⟩ := startBuild_eq s key node
  obtain ⟨_, _, _, rfl⟩ := hleases
  rw [heq]
  rfl

theorem takePending_awaits (s : World) (key : ArtifactKey) :
    awaits (s.takePending key) = awaits s := by
  unfold takePending
  split
  · rfl
  · split
    · rfl
    · dsimp only
      split
      · rfl
      · split
        · rfl
        · split
          · exact startBuild_awaits _ key _
          · unfold failProducerless
            rw [announceNode_awaits, setState_awaits, modifyNode_awaits, latchReadyGates_awaits]

theorem reclaimCandidate_awaits (s : World) (v : VersionID) :
    awaits (s.reclaimCandidate v) = awaits s := by
  have hforget (u : World) : awaits (u.forgetLease v) = awaits u := rfl
  unfold reclaimCandidate
  split
  · rfl
  · split
    · rfl
    · unfold reclaimVersion
      rw [log_awaits _ fun _ _ hno => (by cases hno), hforget]
      rfl

theorem postRequest_awaits (s : World) (intent : ArtifactIntent) (coalescible : Bool) :
    awaits (s.postRequest intent coalescible) = awaits s := by
  have hposted (u : World) (postedIntents : List PostedRequest) (v : VersionID) (lease : Nat) :
      awaits { u with postedIntents, history := u.history ++ [.posted v lease] } = awaits u := by
    unfold awaits
    dsimp only
    rw [calledIn_append u.history fun _ _ hno => by cases hno]
  unfold postRequest
  dsimp only
  split
  · exact log_awaits s fun _ _ hno => by cases hno
  · rw [hposted, makeLeaseToken_awaits, reserveGeneration_awaits]

/-! ## One operation, one announcement -/

/-- An operation taken from the queue is applied; `rest` is what it leaves there. Where the drain is
not `disciplined`, a cancellation may be remembered for nothing. -/
inductive Applied (disciplined : Prop) (A : Awaits) (operation : PostedAwait)
    (rest : List PostedAwait) : Awaits → Prop where
  /-- A registered waiter is removed. -/
  | removed {registered : Nat → Nat} (hcancel : operation.cancel = true)
      (hless : registered operation.subscription < A.registered operation.subscription)
      (hother : ∀ x ≠ operation.subscription, registered x = A.registered x) :
      Applied disciplined A operation rest { A with posted := rest, registered }
  /-- A cancellation that found no waiter is remembered. -/
  | remembered (hcancel : operation.cancel = true)
      (hlater : disciplined → ∃ later ∈ rest,
        later.cancel = false ∧ later.subscription = operation.subscription) :
      Applied disciplined A operation rest { A with
        posted := rest
        cancelled := if operation.subscription ∈ A.cancelled then A.cancelled
          else A.cancelled ++ [operation.subscription] }
  /-- A registration that was cancelled before it came is dropped. -/
  | dropped (hcancel : operation.cancel = false) (hmem : operation.subscription ∈ A.cancelled) :
      Applied disciplined A operation rest { A with
        posted := rest, cancelled := A.cancelled.erase operation.subscription }
  /-- The milestone is reached already. -/
  | settled {leaving : Nat → Nat} (hcancel : operation.cancel = false)
      (hmem : operation.subscription ∉ A.cancelled)
      (hone : leaving operation.subscription = A.leaving operation.subscription + 1)
      (hother : ∀ x ≠ operation.subscription, leaving x = A.leaving x) :
      Applied disciplined A operation rest { A with posted := rest, leaving }
  | registered {registered : Nat → Nat} (hcancel : operation.cancel = false)
      (hmem : operation.subscription ∉ A.cancelled)
      (hone : registered operation.subscription = A.registered operation.subscription + 1)
      (hother : ∀ x ≠ operation.subscription, registered x = A.registered x) :
      Applied disciplined A operation rest { A with posted := rest, registered }

/-- The cancellation an action asks for. -/
def Unsubscribes : Action → Nat → Prop
  | .unsubscribe subscription _, x => subscription = x
  | _, _ => False

/-- What a step can do to the awaiters, where it posts the cancellations of `asks`. -/
inductive Changes (disciplined : Prop) (asks : Nat → Prop) (A : Awaits) : Awaits → Prop where
  | same : Changes disciplined asks A A
  | register {operation : PostedAwait} (hcancel : operation.cancel = false)
      (hnext : operation.subscription = A.next + 1) :
      Changes disciplined asks A { A with posted := A.posted ++ [operation], next := A.next + 1 }
  | unsubscribe {operation : PostedAwait} (hcancel : operation.cancel = true)
      (hasks : asks operation.subscription) :
      Changes disciplined asks A { A with posted := A.posted ++ [operation] }
  | apply {operation : PostedAwait} {rest : List PostedAwait} {A' : Awaits}
      (hhead : A.posted = operation :: rest) (h : Applied disciplined A operation rest A') :
      Changes disciplined asks A A'
  /-- The awaiters of an announced version are taken for the slice. -/
  | taken {registered leaving : Nat → Nat}
      (htaken : ∀ x, registered x + leaving x = A.registered x + A.leaving x) :
      Changes disciplined asks A { A with registered, leaving }
  /-- The callbacks of awaiters that were leaving are called. -/
  | called {leaving called : Nat → Nat}
      (hcalled : ∀ x, leaving x + called x = A.leaving x + A.called x) :
      Changes disciplined asks A { A with leaving, called }

/-- What a cancellation cancels is yet to come, or registered under the canonical identity of the
awaiter's version. -/
def CancelsLive (s : World) : Call → Prop
  | .await operation => operation.cancel = true →
    (∃ later ∈ s.postedAwaits, later.cancel = false
      ∧ later.subscription = operation.subscription)
    ∨ ∃ waiter ∈ (s.exactWaiters.find? (s.canonical operation.version)).getD [],
      waiter.subscription = operation.subscription
  | _ => True

theorem countWaiters_pos {x : Nat} {l : List ExactWaiter} :
    0 < countWaiters x l ↔ ∃ waiter ∈ l, waiter.subscription = x := by
  unfold countWaiters
  rw [List.countP_pos_iff]
  simp only [beq_iff_eq]

theorem countWaiters_remove (x y : Nat) (l : List ExactWaiter) :
    countWaiters x (l.filter fun waiter => waiter.subscription != y)
      = if x = y then 0 else countWaiters x l := by
  unfold countWaiters
  rw [List.countP_filter]
  split
  next hxy =>
    subst hxy
    rw [List.countP_eq_zero]
    intro waiter hmem
    simp
  next hxy =>
    refine List.countP_congr fun waiter hmem => ?_
    simp only [Bool.and_eq_true, beq_iff_eq, bne_iff_ne, and_iff_left_iff_imp]
    rintro rfl
    exact hxy

theorem snapshotExact_awaits (s : World) (v : VersionID) :
    awaits (s.snapshotExact v).1 = awaits s := by
  unfold snapshotExact
  dsimp only
  split
  · rfl
  · split
    · rfl
    · split
      · rfl
      · split
        · rfl
        · split <;> rfl

theorem dispatchExactOutcome_awaits (s : World) (subscription : Nat)
    (snapshot : ArtifactSnapshot) :
    awaits (s.dispatchExactOutcome subscription snapshot)
      = { awaits s with called := fun x => (awaits s).called x + [subscription].count x } := by
  unfold awaits dispatchExactOutcome log calledIn
  dsimp only
  rw [List.filterMap_append]
  simp only [List.count_append]
  rfl

/-- The calls of a batch. -/
theorem dispatchSettled_awaits (entries : List (PostedAwait × ArtifactSnapshot)) :
    ∀ s, awaits (entries.foldl
        (fun s entry => s.dispatchExactOutcome entry.1.subscription entry.2) s)
      = { awaits s with called := fun x => (awaits s).called x
            + (entries.map fun entry => entry.1.subscription).count x } := by
  induction entries with
  | nil => exact fun _ => rfl
  | cons entry entries ih =>
    intro s
    have hsum (x : Nat) : (awaits s).called x + [entry.1.subscription].count x
          + (entries.map fun entry => entry.1.subscription).count x
        = (awaits s).called x
          + ((entry :: entries).map fun entry => entry.1.subscription).count x := by
      simp only [List.map_cons, List.count_cons, List.count_nil]
      omega
    rw [List.foldl_cons, ih, dispatchExactOutcome_awaits]
    exact congrArg (fun called : Nat → Nat => { awaits s with called }) (funext hsum)

/-- A waiter more. -/
theorem register_registered (waiters : Table VersionID (List ExactWaiter)) (v : VersionID)
    (waiter : ExactWaiter) (x : Nat) :
    registeredIn (waiters.insert v ((waiters.find? v).getD [] ++ [waiter])) x
      = registeredIn waiters x + if waiter.subscription = x then 1 else 0 := by
  have hinsert := registeredIn_insert waiters v (waitersAt waiters v ++ [waiter]) x
  have hone : countWaiters x [waiter] = if waiter.subscription = x then 1 else 0 := by
    unfold countWaiters
    rw [List.countP_singleton]
    simp only [beq_iff_eq]
  rw [countWaiters_append, hone] at hinsert
  unfold waitersAt at hinsert
  omega

/-- The waiters of a subscription leave one identity. -/
theorem unregister_registered (waiters : Table VersionID (List ExactWaiter)) (v : VersionID)
    (subscription x : Nat) :
    registeredIn (if ((waiters.find? v).getD []).filter
          (fun waiter => waiter.subscription != subscription) = [] then waiters.erase v
        else waiters.insert v (((waiters.find? v).getD []).filter
          fun waiter => waiter.subscription != subscription)) x
      + (if x = subscription then countWaiters x (waitersAt waiters v) else 0)
      = registeredIn waiters x := by
  have hput := registeredIn_put waiters v (((waiters.find? v).getD []).filter
    fun waiter => waiter.subscription != subscription) x
  rw [countWaiters_remove] at hput
  unfold waitersAt at hput ⊢
  by_cases hx : x = subscription
  · rw [if_pos hx] at hput ⊢
    omega
  · rw [if_neg hx] at hput ⊢
    omega

/-- The drain without the operation it has taken. -/
abbrev popped (s : World) (rest : List PostedAwait) : World :=
  { s with postedAwaits := rest }.took false

/-- One operation of `ApplyPostedAwaits`. -/
theorem applyAwait_applied {disciplined : Prop} (s : World) (operation : PostedAwait)
    (rest : List PostedAwait)
    (hlive : disciplined → CancelsLive (popped s rest) (.await operation)) :
    Applied disciplined (awaits s) operation rest
      (awaits ((popped s rest).applyAwait operation)) := by
  have hpopped : awaits (popped s rest) = { awaits s with posted := rest } := rfl
  unfold applyAwait
  dsimp only
  cases hcancel : operation.cancel with
  | true =>
    rw [if_pos rfl]
    unfold cancelAwait
    dsimp only
    split
    next hany =>
      obtain ⟨waiter, hwaiter, heq⟩ := List.any_eq_true.mp hany
      have hpos : 0 < countWaiters operation.subscription
          (waitersAt s.exactWaiters (s.canonical operation.version)) :=
        countWaiters_pos.mpr ⟨waiter, hwaiter, beq_iff_eq.mp heq⟩
      have hrest := unregister_registered s.exactWaiters (s.canonical operation.version)
        operation.subscription
      refine .removed hcancel ?_ fun x hx => ?_
      · have hself := hrest operation.subscription
        rw [if_pos rfl] at hself
        change _ < registeredIn s.exactWaiters operation.subscription
        rw [← hself]
        exact Nat.lt_add_of_pos_right hpos
      · have hother := hrest x
        rw [if_neg hx] at hother
        exact hother
    next hany =>
      refine .remembered hcancel fun hdisciplined => ?_
      obtain hlater | ⟨waiter, hwaiter, heq⟩ := hlive hdisciplined hcancel
      · exact hlater
      · refine absurd (List.any_eq_true.mpr ⟨waiter, hwaiter, ?_⟩) hany
        exact beq_iff_eq.mpr heq
  | false =>
    rw [if_neg (by simp)]
    split
    next hmem => exact .dropped hcancel hmem
    next hmem =>
      have hsnapshot := (snapshotExact_awaits (popped s rest) operation.version).trans hpopped
      split
      · generalize ((popped s rest).snapshotExact operation.version).1 = t at hsnapshot
        have hleft (x : Nat) : (leavingIn t.slice).count x = (leavingIn s.slice).count x :=
          congrFun (congrArg Awaits.leaving hsnapshot) x
        have hkept (settledAwaits : List (PostedAwait × ArtifactSnapshot)) :
            awaits { t with slice := { t.slice with settledAwaits } } = { awaits s with
              posted := rest
              leaving := fun x => (leavingIn { t.slice with settledAwaits }).count x } :=
          congrArg (fun A : Awaits => { A with
            leaving := fun x => (leavingIn { t.slice with settledAwaits }).count x }) hsnapshot
        rw [hkept]
        refine .settled hcancel hmem ?_ fun x hx => ?_
        · refine Eq.trans ?_ (congrArg (· + 1) (hleft _))
          unfold leavingIn
          simp only [List.map_append, List.count_append, List.map_cons, List.map_nil,
            List.count_singleton_self]
          omega
        · refine Eq.trans ?_ (hleft x)
          unfold leavingIn
          simp only [List.map_append, List.count_append, List.map_cons, List.map_nil,
            List.count_singleton, beq_iff_eq, if_neg (Ne.symm hx)]
          omega
      · have hcount (x : Nat) := congrFun (congrArg Awaits.registered hsnapshot) x
        generalize ((popped s rest).snapshotExact operation.version).1 = t at hsnapshot hcount
        have hfiled (waiters : Table VersionID (List ExactWaiter)) (count : Nat) :
            awaits { t with exactWaiters := waiters, exactWaiterCount := count }
              = { awaits s with posted := rest, registered := registeredIn waiters } :=
          congrArg (fun A : Awaits => { A with registered := registeredIn waiters }) hsnapshot
        rw [hfiled]
        refine .registered hcancel hmem ?_ fun x hx => ?_
        · rw [register_registered, if_pos rfl]
          exact congrArg (· + 1) (hcount _)
        · rw [register_registered, if_neg (Ne.symm hx)]
          exact hcount x

/-- Some waiters of one identity are taken. -/
theorem taken_registered {waiters : Table VersionID (List ExactWaiter)} {v : VersionID}
    {list : List ExactWaiter} (hfind : waiters.find? v = some list) (settled : ExactWaiter → Bool)
    (x : Nat) :
    registeredIn (if (list.filter fun waiter => !settled waiter) = [] then waiters.erase v
        else waiters.insert v (list.filter fun waiter => !settled waiter)) x
      + ((list.filter settled).map ExactWaiter.subscription).count x
      = registeredIn waiters x := by
  have hput := registeredIn_put waiters v (list.filter fun waiter => !settled waiter) x
  have hlist : waitersAt waiters v = list := by
    unfold waitersAt
    rw [hfind]
    rfl
  have hparts : countWaiters x list = countWaiters x (list.filter settled)
      + countWaiters x (list.filter fun waiter => !settled waiter) :=
    List.countP_eq_countP_filter_add list _ settled
  have hcount : ((list.filter settled).map ExactWaiter.subscription).count x
      = countWaiters x (list.filter settled) := List.countP_map
  rw [hlist] at hput
  omega

/-- The awaiters one announced snapshot settles. -/
theorem dispatchReady_changes {disciplined : Prop} {asks : Nat → Prop} (s : World)
    (snapshot : ArtifactSnapshot) :
    Changes disciplined asks (awaits s) (awaits (s.dispatchReady snapshot)) := by
  unfold dispatchReady
  split
  · exact .same
  next list hfind =>
    refine Changes.taken (A := awaits s) fun x => ?_
    have htaken := taken_registered hfind (fun waiter =>
      snapshot.generation == waiter.version.generation && settles snapshot waiter.milestone) x
    unfold leavingIn
    simp only [List.map_append, List.map_map, List.count_append]
    change _ + (_ + (_ + (List.map ExactWaiter.subscription _).count x)) = registeredIn _ x + _
    rw [← htaken]
    unfold awaits leavingIn
    simp only [List.count_append]
    omega

theorem Changes.of_eq {disciplined : Prop} {asks : Nat → Prop} (h : awaits s' = awaits s) :
    Changes disciplined asks (awaits s) (awaits s') := h ▸ .same

theorem handOver_changes {disciplined : Prop} {asks : Nat → Prop} (h : s.handOver = some s') :
    Changes disciplined asks (awaits s) (awaits s') := by
  unfold handOver at h
  split at h
  · cases h
    exact .of_eq rfl
  · split at h
    · cases h
      exact .of_eq (log_awaits _ fun _ _ hno => by cases hno)
    · split at h
      · cases h
        exact .of_eq rfl
      · split at h
        next waiter snapshot rest hhead =>
          cases h
          rw [dispatchExactOutcome_awaits]
          refine Changes.called (A := awaits s) fun x => ?_
          unfold awaits leavingIn
          dsimp only
          simp only [hhead, List.map_cons, List.count_append, List.count_cons, List.count_nil]
          omega
        next => cases h

theorem item_changes {disciplined : Prop} {asks : Nat → Prop} (h : s.item = some s')
    (hlive : disciplined → ∀ entry ∈ s.itemCalls, CancelsLive entry.1 entry.2) :
    Changes disciplined asks (awaits s) (awaits s') := by
  unfold item at h
  unfold itemCalls at hlive
  cases hphase : s.slice.phase with
  | idle | wake =>
    rw [hphase] at h
    cases h
  | awaits =>
    rw [hphase] at h hlive
    dsimp only at h hlive
    cases hposted : s.postedAwaits with
    | nil =>
      rw [hposted] at h
      cases h
    | cons operation rest =>
      rw [hposted] at h hlive
      dsimp only at h hlive
      split at h
      · cases h
        exact .apply hposted (applyAwait_applied s operation rest fun hdisciplined =>
          hlive hdisciplined _ List.mem_cons_self)
      · cases h
  | suspensions | requests | gpuCollect | popPublished | popCompletions | reclaim =>
    rw [hphase] at h
    dsimp only at h
    split at h
    · split at h
      · cases h
        refine .of_eq ?_
        first
          | rfl
          | exact applySuspensionSatisfied_awaits _ _
          | exact applyPosted_awaits _ _
          | exact reclaimCandidate_awaits _ _
      · cases h
    · cases h
  | gpuRecover =>
    rw [hphase] at h
    dsimp only at h
    split at h
    · split at h
      · cases h
        refine .of_eq ?_
        unfold recover
        split
        · rfl
        · dsimp only
          split <;> rfl
      · cases h
    · cases h
  | gpuEvaluate | gpuApply | complete | build | retire =>
    rw [hphase] at h
    dsimp only at h
    split at h
    · cases h
      refine .of_eq ?_
      first
        | rfl
        | exact applyGpu_awaits _ _
        | exact landCompletion_awaits _ _
        | exact takePending_awaits _ _
    · cases h
  | retry =>
    rw [hphase] at h
    dsimp only at h
    split at h
    · split at h
      · cases h
        exact .of_eq rfl
      · split at h
        · cases h
        · cases h
          exact .of_eq (applyRetry_awaits _ _)
    · cases h
  | dispatch =>
    rw [hphase] at h
    dsimp only at h
    split at h
    · cases h
      exact dispatchReady_changes (s.took false) _
    · cases h
  | callbacks =>
    rw [hphase] at h
    exact handOver_changes h

theorem betweenPhases_changes {disciplined : Prop} {asks : Nat → Prop} (s : World) :
    Changes disciplined asks (awaits s) (awaits s.betweenPhases) := by
  unfold betweenPhases
  split
  case h_1 =>
    rw [dispatchSettled_awaits]
    refine Changes.called (A := awaits s) fun x => ?_
    unfold awaits leavingIn
    dsimp only
    rw [List.map_nil, List.nil_append, List.count_append]
    omega
  case h_4 | h_6 => exact .of_eq (foldl_awaits (fun s snapshot => announce_awaits s snapshot) _ _)
  all_goals exact .of_eq rfl

theorem step_changes {a : Action} {disciplined : Prop} (h : step s a = some s')
    (hlive : disciplined → CallsMeet CancelsLive s a) :
    Changes disciplined (Unsubscribes a) (awaits s) (awaits s') := by
  cases a with
  | request intent coalescible =>
    cases h
    unfold postSynchronous
    split
    · exact .of_eq (log_awaits s fun _ _ hno => by cases hno)
    · exact .of_eq rfl
  | requestInline intents coalescible =>
    simp only [step] at h
    split at h
    · cases h
      exact .of_eq (applyMutation_awaits s _)
    · cases h
  | postRequest intent coalescible =>
    cases h
    exact .of_eq (postRequest_awaits s intent coalescible)
  | awaitExact version milestone lease =>
    simp only [step] at h
    split at h
    · cases h
      exact Changes.register rfl rfl
    · cases h
  | unsubscribe subscription version =>
    cases h
    exact Changes.unsubscribe rfl rfl
  | notifySuspension | drain =>
    simp only [step] at h
    split at h <;> cases h
    exact .of_eq rfl
  | dropLease token =>
    simp only [step] at h
    split at h
    · cases h
    · split at h <;> cases h
      exact .of_eq rfl
  | finishBuild index result | finishAcceptance index error =>
    obtain ⟨_, _, rfl⟩ := Option.map_eq_some_iff.mp h
    exact .of_eq rfl
  | postIntents | mutate | registerProducer | setGpu | notifyGpu | tick =>
    cases h
    exact .of_eq rfl
  | item => exact item_changes h hlive
  | wake consumer =>
    simp only [step] at h
    split at h
    · split at h
      · cases h
        unfold wakeConsumer
        split
        · exact .of_eq rfl
        · exact .of_eq (wakeWaiter_awaits _ _ _)
      · cases h
    · cases h
  | leave =>
    simp only [step, leave] at h
    split at h
    · cases h
    · split at h
      · cases h
        exact betweenPhases_changes s
      · cases h

end ModuleServices.Graph.Proof
