import ModuleServices.Lib.Run
import Mathlib.Logic.Function.Basic

/-!
# The task pump, one access of its word at a time

`SerializedTaskPump` keeps the consumer's state and the requested epoch in one word (the
epoch is a number here, the source has 62 bits for it). A call in progress is at a
`Phase`, and a step is one access of the word, or one call of the submitter or the
drain. Calls are named by a number, not by a thread: a drain that notifies its own pump,
or a submitter that runs the task before it returns, is another call beside this one.
-/

namespace ModuleServices.Pump

/-- `SerializedTaskPump::State`. -/
inductive State where
  | idle | scheduled | running | stopping
  deriving DecidableEq, Repr

structure Word where
  state : State
  epoch : Nat
  deriving DecidableEq, Repr

inductive HandoffMode where
  | inline | resubmit
  deriving DecidableEq, Repr

/-- What `Configure` installs: whether there is a submitter and a drain, and the mode. -/
structure Config where
  submit : Bool := true
  drain : Bool := true
  handoffMode : HandoffMode := .inline
  deriving DecidableEq, Repr

inductive Phase where
  -- `Notify`
  | notifyLoad
  | notifyExchange (word : Word)
  -- `m_submit`, for the request of that epoch or for the next pass
  | submit (request : Option Nat)
  | accepted (request : Option Nat)
  -- `TryRunInline`
  | inlineLoad
  | inlineExchange (word : Word)
  -- `Run`
  | runLoad
  | runExchange (word : Word)
  -- `RunOwned`
  | ownedLoad
  | drainBegin (observedEpoch : Nat)
  | drain (observedEpoch : Nat)
  | storeDrained (observedEpoch : Nat)
  | exitLoad (observedEpoch : Nat)
  | exitExchange (observedEpoch : Nat) (word : Word)
  | fail
  deriving DecidableEq, Repr

/-- What has happened, in order. -/
inductive Event where
  /-- The request of this epoch took effect. -/
  | requested (epoch : Nat)
  /-- A drain began that had observed this epoch. -/
  | began (observedEpoch : Nat)
  deriving DecidableEq, Repr

structure World where
  word : Word := ⟨.idle, 0⟩
  drainedEpoch : Nat := 0
  call : Nat → Option Phase := fun _ => none
  /-- The tasks the submitter has accepted and not begun to run. -/
  outstanding : Nat := 0
  history : List Event := []
  /-- The requests whose `Notify` has returned true. -/
  notified : List Nat := []

namespace World

def goto (w : World) (id : Nat) (phase : Phase) : World :=
  { w with call := Function.update w.call id (some phase) }

def done (w : World) (id : Nat) : World := { w with call := Function.update w.call id none }

/-- `Notify` looks at the word it has. -/
def notifyCheck (config : Config) (w : World) (id : Nat) (word : Word) : World :=
  if word.state = .stopping ∨ config.submit = false ∨ config.drain = false then w.done id
  else w.goto id (.notifyExchange word)

def inlineCheck (config : Config) (w : World) (id : Nat) (word : Word) : World :=
  if word.state = .stopping ∨ word.state = .running ∨ config.drain = false then w.done id
  else w.goto id (.inlineExchange word)

def runCheck (w : World) (id : Nat) (word : Word) : World :=
  if word.state = .stopping ∨ word.state = .running then w.done id
  else w.goto id (.runExchange word)

/-- The consumer looks at the word it has after a drain. -/
def exitCheck (config : Config) (w : World) (id observedEpoch : Nat) (word : Word) : World :=
  if word.state = .stopping then w.done id
  else if word.epoch ≠ observedEpoch ∧ config.handoffMode = .inline then w.goto id .ownedLoad
  else w.goto id (.exitExchange observedEpoch word)

/-- The call's next access. `answer` is what it meets: whether a weak compare-exchange of an equal
word succeeds, the submitter accepts, the drain returns and does not throw. -/
def advance (config : Config) (w : World) (id : Nat) (answer : Bool) : Phase → World
  | .notifyLoad => w.notifyCheck config id w.word
  | .notifyExchange word =>
    if answer = true ∧ w.word = word then
      let epoch := word.epoch + 1
      let next := { w with
        word := ⟨if word.state = State.idle then State.scheduled else word.state, epoch⟩
        history := w.history ++ [Event.requested epoch] }
      if word.state = .idle then next.goto id (.submit (some epoch))
      else { next.done id with notified := w.notified ++ [epoch] }
    else w.notifyCheck config id w.word
  | .submit request =>
    if answer = true ∧ config.submit = true then
      { w with outstanding := w.outstanding + 1 }.goto id (.accepted request)
    else w.goto id .fail
  | .accepted request => { w.done id with notified := w.notified ++ request.toList }
  | .inlineLoad => w.inlineCheck config id w.word
  | .inlineExchange word =>
    if answer = true ∧ w.word = word then
      { w with word := ⟨.running, word.epoch + 1⟩ }.goto id .ownedLoad
    else w.inlineCheck config id w.word
  | .runLoad => w.runCheck id w.word
  | .runExchange word =>
    if answer = true ∧ w.word = word then
      { w with word := ⟨.running, word.epoch⟩ }.goto id .ownedLoad
    else w.runCheck id w.word
  | .ownedLoad =>
    if w.word.state = .stopping then w.done id else w.goto id (.drainBegin w.word.epoch)
  | .drainBegin observedEpoch =>
    { w with history := w.history ++ [Event.began observedEpoch] }.goto id (.drain observedEpoch)
  | .drain observedEpoch =>
    if answer = true ∧ config.drain = true then w.goto id (.storeDrained observedEpoch)
    else w.goto id .fail
  | .storeDrained observedEpoch =>
    { w with drainedEpoch := observedEpoch }.goto id (.exitLoad observedEpoch)
  | .exitLoad observedEpoch => w.exitCheck config id observedEpoch w.word
  | .exitExchange observedEpoch word =>
    if answer = true ∧ w.word = word then
      if word.epoch = observedEpoch then { w with word := ⟨.idle, observedEpoch⟩ }.done id
      else { w with word := ⟨.scheduled, word.epoch⟩ }.goto id (.submit none)
    else w.exitCheck config id observedEpoch w.word
  | .fail => { w with word := ⟨.stopping, w.word.epoch⟩ }.done id

end World

inductive Action where
  | notify (id : Nat)
  | tryRunInline (id : Nat)
  /-- The submitter runs a task it has accepted. -/
  | run (id : Nat)
  /-- A task is run once more, or when its work has long been done. -/
  | rerun (id : Nat)
  | stop
  | advance (id : Nat) (answer : Bool)
  deriving DecidableEq, Repr

def step (config : Config) (w : World) : Action → Option World
  | .notify id => if (w.call id).isSome then none else some (w.goto id .notifyLoad)
  | .tryRunInline id => if (w.call id).isSome then none else some (w.goto id .inlineLoad)
  | .run id =>
    if (w.call id).isSome ∨ w.outstanding = 0 then none
    else some ({ w with outstanding := w.outstanding - 1 }.goto id .runLoad)
  | .rerun id => if (w.call id).isSome then none else some (w.goto id .runLoad)
  | .stop => some { w with word := ⟨.stopping, w.word.epoch⟩ }
  | .advance id answer => (w.call id).map (w.advance config id answer)

/-- One drain runs at a time. -/
def OneDrain (w : World) : Prop :=
  ∀ i j observed observed', w.call i = some (.drain observed) →
    w.call j = some (.drain observed') → i = j

/-- After the `i`-th event a drain began that had observed the epoch `n`. -/
def Followed (history : List Event) (i n : Nat) : Prop :=
  ∃ (j observed : Nat), i < j ∧ history[j]? = some (Event.began observed) ∧ n ≤ observed

/-- No call is in progress, no task is left to run, and the pump was not stopped. -/
structure Quiescent (w : World) : Prop where
  calls : ∀ id, w.call id = none
  tasks : w.outstanding = 0
  open_ : w.word.state ≠ .stopping

/-- A pump at rest is idle, its last drain had observed the last request, and each request whose
`Notify` returned true took effect once and was followed by a drain. -/
def NothingLost (w : World) : Prop :=
  Quiescent w → w.word.state = .idle ∧ w.drainedEpoch = w.word.epoch
    ∧ ∀ n ∈ w.notified, ∃ i, (∀ k, w.history[k]? = some (Event.requested n) ↔ k = i)
      ∧ Followed w.history i n

end ModuleServices.Pump
