import ModuleServices.Lib.Run
import Mathlib.Logic.Function.Basic
import Mathlib.Tactic.Common

/-!
# The publication exchange, one atomic step at a time

`PublicationExchange` hands immutable values from one producer to one consumer through
three slots and one index. The two sides' calls in progress are `producer` and
`consumer`, and a step is one access of an atomic or of a slot's value. What a candidate
is called by is the order in which candidates were published (`published`), not its
value: the same value may be published twice.
-/

namespace ModuleServices.Exchange

/-- `PublicationExchange::State`. -/
inductive SlotState where
  | empty | ready | active | retired
  deriving DecidableEq, Repr

structure Slot (α : Type) where
  value : Option α := none
  state : SlotState := .empty

/-- The producer's calls. A candidate may be null. -/
inductive Call (α : Type) where
  | tryPublish (candidate : Option α)
  | tryReplace (candidate : Option α)
  | reclaimRetired
  deriving DecidableEq, Repr

def Call.candidate {α : Type} : Call α → Option α
  | .tryPublish candidate | .tryReplace candidate => candidate
  | .reclaimRetired => none

/-- The producer's next access. -/
inductive ProducerPhase where
  | exchangeReady
  /-- A ready successor has been taken back. -/
  | storeTaken (slot : Fin 3)
  | loadReady
  -- `ReclaimRetired`, slot by slot
  | loadRetired (slot : Fin 3)
  | resetValue (slot : Fin 3)
  | storeEmpty (slot : Fin 3)
  -- the search for a free slot, and the publication
  | loadEmpty (slot : Fin 3)
  | moveValue (slot : Fin 3)
  | storeState (slot : Fin 3)
  | storeReady (slot : Fin 3)
  deriving DecidableEq, Repr

/-- The consumer's next access. -/
inductive ConsumerPhase where
  | idle
  /-- The acceptance predicate looks at the slot. -/
  | accept (slot : Fin 3)
  | storeRejected (slot : Fin 3)
  | storeActive (slot : Fin 3) (previous : Option (Fin 3))
  | storePrevious (slot : Fin 3)
  deriving DecidableEq, Repr

structure World (α : Type) where
  slot : Fin 3 → Slot α := fun _ => {}
  ready : Option (Fin 3) := none
  active : Option (Fin 3) := none
  producer : Option (Call α × ProducerPhase) := none
  consumer : ConsumerPhase := .idle
  -- what has happened: the candidates published, which of them a slot has had last, and which
  -- were taken back or selected
  published : List α := []
  serial : Fin 3 → Nat := fun _ => 0
  takenBack : List Nat := []
  selected : List Nat := []
  /-- The producer's calls that have returned. -/
  returned : List (Call α × Bool) := []

namespace World

variable {α : Type}

def setValue (w : World α) (i : Fin 3) (value : Option α) : World α :=
  { w with slot := Function.update w.slot i { w.slot i with value } }

def setState (w : World α) (i : Fin 3) (state : SlotState) : World α :=
  { w with slot := Function.update w.slot i { w.slot i with state } }

def goto (w : World α) (call : Call α) (phase : ProducerPhase) : World α :=
  { w with producer := some (call, phase) }

def answer (w : World α) (call : Call α) (result : Bool) : World α :=
  { w with producer := none, returned := w.returned ++ [(call, result)] }

/-- The slot after this one, in the loops over the slots. -/
def next (i : Fin 3) : Option (Fin 3) := if h : i.val + 1 < 3 then some ⟨i.val + 1, h⟩ else none

/-- `ReclaimRetired` goes on to the next slot, or its caller goes on after it. -/
def reclaimed (w : World α) (call : Call α) (i : Fin 3) : World α :=
  match next i with
  | some j => w.goto call (.loadRetired j)
  | none =>
    match call with
    | .reclaimRetired => w.answer call true
    | _ => w.goto call (.loadEmpty 0)

/-- One access of the producer. -/
def produce (w : World α) (call : Call α) : ProducerPhase → World α
  | .exchangeReady =>
    if call.candidate.isNone then w.answer call false
    else
      match w.ready with
      | some i =>
        { w with ready := none, takenBack := w.takenBack ++ [w.serial i] }.goto call (.storeTaken i)
      | none => w.goto call .loadReady
  | .storeTaken i => (w.setState i .retired).goto call .loadReady
  | .loadReady =>
    if call.candidate.isNone ∨ w.ready.isSome then w.answer call false
    else w.goto call (.loadRetired 0)
  | .loadRetired i =>
    if (w.slot i).state = .retired then w.goto call (.resetValue i) else w.reclaimed call i
  | .resetValue i => (w.setValue i none).goto call (.storeEmpty i)
  | .storeEmpty i => (w.setState i .empty).reclaimed call i
  | .loadEmpty i =>
    if (w.slot i).state = .empty then w.goto call (.moveValue i)
    else
      match next i with
      | some j => w.goto call (.loadEmpty j)
      | none => w.answer call false
  | .moveValue i => (w.setValue i call.candidate).goto call (.storeState i)
  | .storeState i => (w.setState i .ready).goto call (.storeReady i)
  | .storeReady i =>
    { w with
      ready := some i
      published := w.published ++ call.candidate.toList
      serial := Function.update w.serial i w.published.length }.answer call true

/-- One access of the consumer's call in progress; `accepts` is what the predicate answers. -/
def consume (w : World α) (accepts : Bool) : ConsumerPhase → Option (World α)
  | .idle => none
  | .accept i =>
    if accepts then
      some { w with
        active := some i, consumer := .storeActive i w.active
        selected := w.selected ++ [w.serial i] }
    else some { w with consumer := .storeRejected i }
  | .storeRejected i => some { w.setState i .retired with consumer := .idle }
  | .storeActive i previous =>
    some { w.setState i .active with
      consumer := match previous with
        | some j => .storePrevious j
        | none => .idle }
  | .storePrevious i => some { w.setState i .retired with consumer := .idle }

/-- `AcquireActive`, and `Active` for what it points at. -/
def acquireActive (w : World α) : Option α := w.active.bind fun i => (w.slot i).value

end World

inductive Action (α : Type) where
  /-- The producer calls. -/
  | call (call : Call α)
  | producer
  /-- The consumer calls `TrySelect` or `ClearActive`, the first access included, or reads the active
  value. -/
  | trySelect
  | clearActive
  | acquireActive
  | consumer (accepts : Bool)
  deriving DecidableEq, Repr

variable {α : Type}

/-- Where a producer's call begins. -/
def firstPhase : Call α → ProducerPhase
  | .tryPublish _ => .loadReady
  | .tryReplace _ => .exchangeReady
  | .reclaimRetired => .loadRetired 0

def step (w : World α) : Action α → Option (World α)
  | .call call => if w.producer.isSome then none else some (w.goto call (firstPhase call))
  | .producer => w.producer.map fun (call, phase) => w.produce call phase
  | .trySelect =>
    if w.consumer ≠ .idle then none
    else
      match w.ready with
      | some i => some { w with ready := none, consumer := .accept i }
      | none => some w
  | .clearActive =>
    if w.consumer ≠ .idle then none
    else
      match w.active with
      | some i => some { w with active := none, consumer := .storePrevious i }
      | none => some w
  | .acquireActive => if w.consumer ≠ .idle then none else some w
  | .consumer accepts => w.consume accepts w.consumer

/-! ## What the exchange promises -/

/-- The slot the producer has named to nobody yet, or not any more. -/
def held (w : World α) : Option (Fin 3) :=
  match w.producer with
  | some (_, .storeTaken i) | some (_, .storeReady i) => some i
  | _ => none

/-- The slot the consumer has taken and not decided about, or not stored its decision. -/
def examined (w : World α) : Option (Fin 3) :=
  match w.consumer with
  | .accept i | .storeRejected i => some i
  | _ => none

/-- The slot that was active and is about to be retired. -/
def outgoing (w : World α) : Option (Fin 3) :=
  match w.consumer with
  | .storeActive _ previous => previous
  | .storePrevious i => some i
  | _ => none

/-- The slots somebody has the index of. -/
def named (w : World α) : List (Fin 3) :=
  w.ready.toList ++ (held w).toList ++ (examined w).toList ++ w.active.toList
    ++ (outgoing w).toList

inductive Role where
  | empty | ready | selecting | active | retired
  deriving DecidableEq, Repr

/-- A slot has a role: its state says so, and so does who has its index. -/
def HasRole (w : World α) (i : Fin 3) : Role → Prop
  | .empty => (w.slot i).state = .empty ∧ i ∉ named w
  | .ready => (w.slot i).state = .ready ∧ (w.ready = some i ∨ held w = some i)
  | .selecting => (w.slot i).state = .ready ∧ examined w = some i
  | .active => ((w.slot i).state = .active ∨ (w.slot i).state = .ready)
      ∧ (w.active = some i ∨ outgoing w = some i)
  | .retired => (w.slot i).state = .retired ∧ i ∉ named w

/-- How many accesses a producer's call has left at most. -/
def remaining (w : World α) : Nat :=
  match w.producer with
  | none => 0
  | some (_, .exchangeReady) => 18
  | some (_, .storeTaken _) => 17
  | some (_, .loadReady) => 16
  | some (_, .loadRetired i) => 15 - 3 * i.val
  | some (_, .resetValue i) => 14 - 3 * i.val
  | some (_, .storeEmpty i) => 13 - 3 * i.val
  | some (_, .loadEmpty i) => 6 - i.val
  | some (_, .moveValue _) => 3
  | some (_, .storeState _) => 2
  | some (_, .storeReady _) => 1

/-- Every `TryReplace` of a candidate that has returned has succeeded. -/
def ReplaceSucceeds (w : World α) : Prop :=
  ∀ candidate result, (.tryReplace (some candidate), result) ∈ w.returned → result = true

/-- The producer's call in progress ends, whatever the consumer does in between: it can always take
its next access and has fewer left after it, and the consumer's accesses leave it where it is. -/
def ProducerProceeds (w : World α) : Prop :=
  (w.producer ≠ none → ∃ w', step w .producer = some w' ∧ remaining w' < remaining w)
    ∧ ∀ a w', a ≠ .producer → (∀ call, a ≠ .call call) → step w a = some w' →
      w'.producer = w.producer

/-- What is selected was not taken back, and the selections are in the order of publication, each
once. -/
def SelectsInOrder (w : World α) : Prop :=
  w.selected.Pairwise (· < ·) ∧ ∀ n ∈ w.selected, n < w.published.length ∧ n ∉ w.takenBack

/-- The slots the consumer reads have the value that was published in them, and no access of the
producer changes it. -/
def ConsumerUndisturbed (w : World α) : Prop :=
  ∀ i, w.active = some i ∨ examined w = some i →
    (w.slot i).value.isSome = true ∧ (w.slot i).value = w.published[w.serial i]?
      ∧ ∀ w', step w .producer = some w' → (w'.slot i).value = (w.slot i).value

def OneRole (w : World α) : Prop := ∀ i, ∃! role, HasRole w i role

end ModuleServices.Exchange
