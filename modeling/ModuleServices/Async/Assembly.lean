import ModuleServices.Async.Exchange
import Mathlib

/-!
# Revision assembly, one access at a time

A revision names one fragment a slot and is published once every fragment it names is
ready. Fragments settle on any thread: the calls of `Resolve` and `Fail` are `calls`, the
coordinator's `Seal` or `Collect` in progress is `coordinator`, and what the frame owner
does is the consumer of the exchange. A step is one access of an atomic, or what a thread
does alone until its next one. A fragment is called by the order of construction, a
revision by its sequence; a stack is the list of its nodes from the head on.
-/

namespace ModuleServices.Assembly

/-- `RevisionFragment::State`. -/
inductive FragmentState where
  | pending | ready | failed
  deriving DecidableEq, Repr

/-- `RevisionFragment::Requirement`. Either fragment may be null. -/
structure Requirement where
  slot : Nat
  fragment : Option Nat
  deriving DecidableEq, Repr

/-- `RevisionFragment`, but for its requirements. -/
structure Fragment (α ε : Type) where
  claimed : Bool := false
  state : FragmentState := .pending
  value : Option α := none
  error : Option ε := none
  /-- The revisions that wait, or none once the list is `Closed`. -/
  waiters : Option (List Nat) := some []
  /-- The call that has claimed the fragment. -/
  settler : Option Nat := none

/-- `PendingRevision`. -/
structure Revision (ε : Type) where
  slots : List (Option Nat) := []
  remaining : Nat := 0
  failed : Bool := false
  error : Option ε := none
  /-- The counts that are still to come: of a fragment, or the seal's own. -/
  owing : List (Option Nat) := []

/-- `AssembledRevision`. -/
structure Assembled where
  sequence : Nat
  slots : List (Option Nat)
  deriving DecidableEq, Repr

/-- The next access of `SettleWaiter` and `CountDown`. -/
inductive Counting where
  | readState
  | exchangeFailed
  | writeError
  | countDown
  | push
  | notify
  deriving DecidableEq, Repr

/-- The next access of `Settle`. -/
inductive SettlePhase where
  | claim
  | write
  | storeState
  | exchangeWaiters
  | walk (rest : List Nat)
  | counting (revision : Nat) (phase : Counting) (rest : List Nat)
  | returned (result : Bool)
  deriving DecidableEq, Repr

/-- A call of `Resolve` or `Fail`. -/
structure Call (α ε : Type) where
  fragment : Nat
  outcome : Except ε α
  phase : SettlePhase := .claim

structure Stats where
  sealed : Nat := 0
  published : Nat := 0
  failed : Nat := 0
  superseded : Nat := 0
  abandoned : Nat := 0
  deriving DecidableEq, Repr

/-- `RevisionAssembler::Failure`. -/
structure Failure (ε : Type) where
  sequence : Nat
  error : Option ε
  deriving DecidableEq, Repr

/-- The coordinator's next access. `due` are the revisions whose fragments had all been resolved when
`Collect` began. -/
inductive Coordinator (ε : Type) where
  | idle
  -- `Seal`, at one of the fragments to attach to or at a count
  | attachLoad (revision fragment : Nat) (rest : List Nat)
  | attachExchange (revision fragment : Nat) (rest : List Nat)
  | counting (revision : Nat) (fragment : Option Nat) (phase : Counting) (rest : List Nat)
  -- `Collect`
  | reclaiming (due : List Nat)
  | walk (due taken : List Nat) (newest : Option Nat) (failures : List (Failure ε))
  | replacing (due : List Nat) (sequence : Nat) (failures : List (Failure ε))

/-- What a `Collect` returned and left behind. -/
structure Collected (ε : Type) where
  published : Nat
  failures : List (Failure ε)
  due : List Nat
  lastPublished : Nat
  stats : Stats
  pending : Nat

/-- `RevisionAssembler::Draft`. -/
structure Draft where
  base : Nat := 0
  slots : List (Option Nat) := []
  deriving DecidableEq, Repr

structure World (α ε : Type) where
  /-- The requirements of the fragments constructed so far. -/
  requirements : List (List Requirement) := []
  fragment : Nat → Fragment α ε := fun _ => {}
  revision : Nat → Revision ε := fun _ => {}
  calls : List (Call α ε) := []
  /-- `RevisionShared::completed`. -/
  completed : List Nat := []
  exchange : Exchange.World Assembled := {}
  latest : List (Option Nat) := []
  latestSequence : Nat := 0
  publishedSequence : Nat := 0
  pending : List Nat := []
  held : Option Assembled := none
  stats : Stats := {}
  coordinator : Coordinator ε := .idle
  -- what has happened: which revisions were pushed as complete, notified and abandoned, what the
  -- collects left behind, and what the frame owner selected
  completions : List Nat := []
  notifications : List Nat := []
  abandoned : List Nat := []
  collects : List (Collected ε) := []
  selections : List Assembled := []

namespace World

variable {α ε : Type}

/-- `RevisionAssembler` over so many slots. -/
def start (slots : Nat) : World α ε := { latest := List.replicate slots none }

def requirementsOf (w : World α ε) (f : Nat) : List Requirement := w.requirements.getD f []

def setFragment (w : World α ε) (f : Nat) (fragment : Fragment α ε) : World α ε :=
  { w with fragment := Function.update w.fragment f fragment }

def setRevision (w : World α ε) (r : Nat) (revision : Revision ε) : World α ε :=
  { w with revision := Function.update w.revision r revision }

/-- `Begin`. -/
def begin (w : World α ε) : Draft := ⟨w.latestSequence, w.latest⟩

/-- One access of `SettleWaiter` for `fragment`, or of the seal's own `CountDown`, and the next one.
`answer` is whether a compare-exchange succeeds. -/
def settleWaiter (w : World α ε) (answer : Bool) (r : Nat) (fragment : Option Nat) :
    Counting → World α ε × Option Counting
  | .readState =>
    match fragment.map fun f => (w.fragment f).state with
    | some .failed => (w, some .exchangeFailed)
    | _ => (w, some .countDown)
  | .exchangeFailed =>
    if (w.revision r).failed then (w, some .countDown)
    else (w.setRevision r { w.revision r with failed := true }, some .writeError)
  | .writeError =>
    (w.setRevision r { w.revision r with error := fragment.bind fun f => (w.fragment f).error },
      some .countDown)
  | .countDown =>
    (w.setRevision r { w.revision r with
        remaining := (w.revision r).remaining - 1, owing := (w.revision r).owing.erase fragment },
      if (w.revision r).remaining = 1 then some .push else none)
  | .push =>
    if answer then
      ({ w with completed := r :: w.completed, completions := w.completions ++ [r] }, some .notify)
    else (w, some .push)
  | .notify => ({ w with notifications := w.notifications ++ [r] }, none)

/-! ## Settling a fragment -/

def goto (w : World α ε) (id : Nat) (call : Call α ε) (phase : SettlePhase) : World α ε :=
  { w with calls := w.calls.set id { call with phase } }

/-- The state `Settle` stores. -/
def stored : Except ε α → FragmentState
  | .ok _ => .ready
  | .error _ => .failed

/-- The next access of `Settle`. Whether somebody else still holds a revision that is no longer
pending, so that it can be locked, is left open: `answer`. -/
def settle (w : World α ε) (id : Nat) (answer : Bool) (call : Call α ε) : World α ε :=
  let f := call.fragment
  match call.phase with
  | .claim =>
    if (w.fragment f).claimed then w.goto id call (.returned false)
    else
      (w.setFragment f { w.fragment f with claimed := true, settler := some id }).goto id call
        .write
  | .write =>
    (w.setFragment f { w.fragment f with
      value := call.outcome.toOption
      error := match call.outcome with
        | .ok _ => none
        | .error error => some error }).goto id call .storeState
  | .storeState =>
    (w.setFragment f { w.fragment f with state := stored call.outcome }).goto id call
      .exchangeWaiters
  | .exchangeWaiters =>
    (w.setFragment f { w.fragment f with waiters := none }).goto id call
      (.walk ((w.fragment f).waiters.getD []))
  | .walk [] => w.goto id call (.returned true)
  | .walk (r :: rest) =>
    if r ∈ w.pending ∨ answer = true then w.goto id call (.counting r .readState rest)
    else w.goto id call (.walk rest)
  | .counting r phase rest =>
    let (w', next) := w.settleWaiter answer r (some f) phase
    match next with
    | some phase => w'.goto id call (.counting r phase rest)
    | none => w'.goto id call (.walk rest)
  | .returned _ => w

/-! ## Sealing -/

/-- A fragment's required versions are exactly in their slots. -/
def closed (w : World α ε) (slots : List (Option Nat)) : Bool :=
  slots.all fun fragment =>
    match fragment with
    | some f => (w.requirementsOf f).all fun q => slots[q.slot]? = some q.fragment
    | none => true

def attach (r : Nat) : List Nat → Coordinator ε
  | [] => .counting r none .countDown []
  | f :: rest => .attachLoad r f rest

/-- `Seal`, up to its first access of a fragment; it throws for a draft that is stale or not closed.
The count is of as many fragments as there are and one more. -/
def sealDraft (w : World α ε) (draft : Draft) : World α ε :=
  if draft.base ≠ w.latestSequence ∨ w.closed draft.slots = false then w
  else
    let distinct := draft.slots.reduceOption.eraseDups
    let r := w.latestSequence + 1
    let revision : Revision ε :=
      { slots := draft.slots, remaining := distinct.length + 1, owing := none :: distinct.map some }
    { w.setRevision r revision with
      latestSequence := r
      latest := draft.slots
      pending := w.pending ++ [r]
      stats := { w.stats with sealed := w.stats.sealed + 1 }
      coordinator := attach r distinct }

/-! ## Collecting -/

/-- A `Resolve` of the fragment has returned true. -/
def resolved (w : World α ε) (f : Nat) : Bool :=
  w.calls.any fun call =>
    call.fragment = f && call.phase = .returned true && stored call.outcome = .ready

def due (w : World α ε) : List Nat :=
  (List.range' 1 w.latestSequence).filter fun r =>
    (w.revision r).slots.reduceOption.all fun f => w.resolved f

def exchangeStep (w : World α ε) (a : Exchange.Action Assembled) : Option (World α ε) :=
  (Exchange.step w.exchange a).map fun exchange => { w with exchange }

def lastPublished (w : World α ε) : Nat :=
  (w.exchange.published.getLast?.map Assembled.sequence).getD 0

def finish (w : World α ε) (due : List Nat) (published : Nat) (failures : List (Failure ε)) :
    World α ε :=
  { w with
    coordinator := .idle
    collects := w.collects ++
      [{ published, failures, due, lastPublished := w.lastPublished, stats := w.stats
         pending := w.pending.length }] }

/-- `Collect` looks at a completed revision. One abandoned meanwhile was counted then. -/
def collectOne (w : World α ε) (due : List Nat) (r : Nat) (taken : List Nat) (newest : Option Nat)
    (failures : List (Failure ε)) : World α ε :=
  if r ∉ w.pending then { w with coordinator := .walk due taken newest failures }
  else
    let w := { w with pending := w.pending.filter (· ≠ r) }
    let stats := w.stats
    if (w.revision r).failed then
      { w with
        stats := { stats with failed := stats.failed + 1 }
        coordinator := .walk due taken newest (failures ++ [⟨r, (w.revision r).error⟩]) }
    else if r ≤ w.publishedSequence ∨ (∃ n ∈ newest, r < n) then
      { w with
        stats := { stats with superseded := stats.superseded + 1 }
        coordinator := .walk due taken newest failures }
    else
      { w with
        stats := { stats with
          superseded := if newest.isSome then stats.superseded + 1 else stats.superseded }
        coordinator := .walk due taken (some r) failures }

/-- The newest complete revision is the next to be handed over, and older pending ones are abandoned.
Nobody looks at the slots that are moved out of it. -/
def assemble (w : World α ε) : Option Nat → World α ε
  | none => w
  | some r =>
    let pending := w.pending.filter fun p => ¬ p < r
    { w with
      publishedSequence := r
      held := some ⟨r, (w.revision r).slots⟩
      pending
      stats := { w.stats with
        published := w.stats.published + 1
        abandoned := w.stats.abandoned + (w.pending.length - pending.length) }
      abandoned := w.abandoned ++ w.pending.filter fun p => p < r }

/-- The last part of `Collect`, where what is held is offered to the frame. -/
def offer (w : World α ε) (due : List Nat) (failures : List (Failure ε)) : Option (World α ε) :=
  match w.held with
  | none => some (w.finish due 0 failures)
  | some held =>
    { w with coordinator := .replacing due held.sequence failures }.exchangeStep
      (.call (.tryReplace (some held)))

/-- The coordinator's next access. A call of the exchange is stepped through until it returns. -/
def coordinate (w : World α ε) (answer : Bool) : Coordinator ε → Option (World α ε)
  | .idle => none
  | .attachLoad r f rest =>
    match (w.fragment f).waiters with
    | none => some { w with coordinator := .counting r (some f) .readState rest }
    | some _ => some { w with coordinator := .attachExchange r f rest }
  | .attachExchange r f rest =>
    match (w.fragment f).waiters with
    | none => some { w with coordinator := .counting r (some f) .readState rest }
    | some waiters =>
      if answer then
        some { w.setFragment f { w.fragment f with waiters := some (r :: waiters) } with
          coordinator := attach r rest }
      else some w
  | .counting r fragment phase rest =>
    let (w', next) := w.settleWaiter answer r fragment phase
    match next with
    | some phase => some { w' with coordinator := .counting r fragment phase rest }
    | none =>
      some { w' with
        coordinator := if fragment.isSome then attach r rest else .idle }
  | .reclaiming due =>
    if w.exchange.producer.isSome then w.exchangeStep .producer
    else some { w with completed := [], coordinator := .walk due w.completed none [] }
  | .walk due (r :: taken) newest failures => some (w.collectOne due r taken newest failures)
  | .walk due [] newest failures => (w.assemble newest).offer due failures
  | .replacing due sequence failures =>
    if w.exchange.producer.isSome then w.exchangeStep .producer
    else if (w.exchange.returned.getLast?.map Prod.snd).getD false then
      some ({ w with held := none }.finish due sequence failures)
    else some (w.finish due 0 failures)

/-- What the frame owner's predicate accepts in this access, read from the exchange. -/
def accepted (w : World α ε) (accepts : Bool) : Option Assembled :=
  match w.exchange.consumer with
  | .accept i => if accepts then (w.exchange.slot i).value else none
  | _ => none

end World

inductive Action (α ε : Type) where
  /-- A fragment is constructed. -/
  | create (requirements : List Requirement)
  /-- `Resolve` or `Fail`. -/
  | settle (fragment : Nat) (outcome : Except ε α)
  | access (id : Nat) (answer : Bool)
  | sealDraft (draft : Draft)
  | collect
  | coordinator (answer : Bool)
  | trySelect
  | consumer (accepts : Bool)
  | acquireActive

variable {α ε : Type}

def step (w : World α ε) : Action α ε → Option (World α ε)
  | .create requirements => some { w with requirements := w.requirements ++ [requirements] }
  | .settle fragment outcome =>
    if fragment < w.requirements.length then
      some { w with calls := w.calls ++ [{ fragment, outcome }] }
    else none
  | .access id answer => w.calls[id]?.map fun call => w.settle id answer call
  | .sealDraft draft =>
    match w.coordinator with
    | .idle =>
      if draft.slots.reduceOption.all (· < w.requirements.length) then some (w.sealDraft draft)
      else none
    | _ => none
  | .collect =>
    match w.coordinator with
    | .idle =>
      { w with coordinator := .reclaiming w.due }.exchangeStep (.call .reclaimRetired)
    | _ => none
  | .coordinator answer => w.coordinate answer w.coordinator
  | .trySelect => w.exchangeStep .trySelect
  | .consumer accepts =>
    { w with selections := w.selections ++ (w.accepted accepts).toList }.exchangeStep
      (.consumer accepts)
  | .acquireActive => w.exchangeStep .acquireActive

/-! ## What the assembler promises -/

def Sealed (w : World α ε) (r : Nat) : Prop := 0 < r ∧ r ≤ w.latestSequence

/-- `Seal` has the revision in hand. -/
def Sealing (w : World α ε) (r : Nat) : Prop :=
  match w.coordinator with
  | .attachLoad r' _ _ | .attachExchange r' _ _ | .counting r' _ _ _ => r' = r
  | _ => False

/-- The `Resolve` or `Fail` that settled the fragment has returned. -/
def Settled (w : World α ε) (f : Nat) : Prop :=
  ∃ call ∈ w.calls, call.fragment = f ∧ call.phase = .returned true

/-- Every fragment is ready and what it requires is exactly in its slot. -/
def Whole (w : World α ε) (slots : List (Option Nat)) : Prop :=
  ∀ f, some f ∈ slots → (w.fragment f).state = .ready
    ∧ ∀ q ∈ w.requirementsOf f, slots[q.slot]? = some q.fragment

def SelectsWhole (w : World α ε) : Prop := ∀ a ∈ w.selections, Whole w a.slots

def SelectsNewer (w : World α ε) : Prop :=
  (w.selections.map Assembled.sequence).Pairwise (· < ·)

/-- What a `Collect` leaves published is no older than what was due when it began. -/
def Unstarved (w : World α ε) : Prop :=
  ∀ c ∈ w.collects, ∀ r ∈ c.due, r ≤ c.lastPublished

/-- A revision completes and notifies once at most, with its fragments settled, and if it is not
abandoned it has done so when the calls that settle its fragments have returned. -/
def CompletesOnce (w : World α ε) : Prop :=
  w.completions.Nodup ∧ w.notifications.Nodup
    ∧ (∀ r ∈ w.completions, Sealed w r ∧
        ∀ f, some f ∈ (w.revision r).slots → (w.fragment f).state ≠ .pending)
    ∧ ∀ r, Sealed w r → r ∉ w.abandoned → ¬ Sealing w r →
        (∀ f, some f ∈ (w.revision r).slots → Settled w f) →
          r ∈ w.completions ∧ r ∈ w.notifications

/-- What becomes of a sealed revision is counted. -/
def Accounted (w : World α ε) : Prop :=
  ∀ c ∈ w.collects, c.stats.sealed = c.stats.published + c.stats.failed + c.stats.superseded
    + c.stats.abandoned + c.pending

end ModuleServices.Assembly
