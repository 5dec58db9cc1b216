import ModuleServices.Lib.Run
import Mathlib.Logic.Function.Basic

/-!
# `NotifyAfter`, one critical section at a time

The delayed half of `SerializedTaskPump`: the armed deadline and its generation under the
delayed mutex, the timers the delayed submitter has accepted, and the calls between their
critical sections. The immediate half is one step here, a `Notify`; what a `Notify` then
does is `Pump`'s.
-/

namespace ModuleServices.Delayed

/-- A timer the delayed submitter has accepted and not run. -/
structure Timer where
  generation : Nat
  due : Int
  deriving DecidableEq, Repr

/-- A `NotifyAfter` that counts on a `Notify`: its deadline, and how many there had been. -/
structure Promise where
  due : Int
  notified : Nat
  deriving DecidableEq, Repr

inductive Phase where
  -- `NotifyAfter`
  | arm (due : Int)
  | submit (generation : Nat) (promise : Promise)
  | accepted (promise : Promise)
  | refused (generation : Nat)
  | reject
  -- `FireDelayed`
  | fire (generation : Nat)
  | notify
  deriving DecidableEq, Repr

structure World where
  /-- `m_delayedDue`. -/
  delayedDue : Option Int := none
  /-- `m_delayedGeneration`. -/
  delayedGeneration : Nat := 0
  /-- The word is `Stopping`. -/
  stopped : Bool := false
  call : Nat → Option Phase := fun _ => none
  timers : List Timer := []
  /-- How often `Notify` has been called. -/
  notified : Nat := 0
  /-- The calls of `NotifyAfter` that have returned true. -/
  promised : List Promise := []
  staleDelayed : Nat := 0
  rejected : Nat := 0

namespace World

def goto (w : World) (id : Nat) (phase : Phase) : World :=
  { w with call := Function.update w.call id (some phase) }

def done (w : World) (id : Nat) : World := { w with call := Function.update w.call id none }

/-- The first critical section of `NotifyAfter`. -/
def arm (submitDelayed : Bool) (w : World) (id : Nat) (due : Int) : World :=
  if w.stopped ∨ submitDelayed = false then w.done id
  else if w.delayedDue.any (fun armed => armed ≤ due) then
    { w.done id with promised := w.promised ++ [{ due, notified := w.notified }] }
  else
    let generation := w.delayedGeneration + 1
    { w with delayedGeneration := generation, delayedDue := some due }.goto id
      (.submit generation { due, notified := w.notified })

/-- The critical section of `FireDelayed`. -/
def fire (w : World) (id : Nat) (generation : Nat) : World :=
  if w.stopped then w.done id
  else if w.delayedDue = none ∨ generation ≠ w.delayedGeneration then
    { w.done id with staleDelayed := w.staleDelayed + 1 }
  else { w with delayedDue := none }.goto id .notify

/-- The call's next step. `answer` is the delayed submitter's. -/
def advance (submitDelayed : Bool) (w : World) (id : Nat) (answer : Bool) : Phase → World
  | .arm due => w.arm submitDelayed id due
  | .submit generation promise =>
    if answer then
      { w with timers := w.timers ++ [Timer.mk generation promise.due] }.goto id (.accepted promise)
    else w.goto id (.refused generation)
  | .accepted promise => { w.done id with promised := w.promised ++ [promise] }
  | .refused generation =>
    if w.delayedGeneration = generation then { w with delayedDue := none }.goto id .reject
    else w.goto id .reject
  | .reject => { w.done id with rejected := w.rejected + 1 }
  | .fire generation => w.fire id generation
  | .notify => { w.done id with notified := w.notified + 1 }

end World

inductive Action where
  /-- A `NotifyAfter` of a positive delay begins, its deadline read off the clock. -/
  | notifyAfter (id : Nat) (due : Int)
  /-- The submitter runs the timer at this place of its list. -/
  | timer (id place : Nat)
  | step (id : Nat) (answer : Bool)
  /-- A `Notify`, also of a `NotifyAfter` without a delay. -/
  | notify
  /-- `Stop` or `Fail` stores `Stopping`. -/
  | stop
  /-- The critical section of `Stop`. -/
  | disarm
  deriving DecidableEq, Repr

/-- `submitDelayed`: whether `Configure` installed one. -/
def step (submitDelayed : Bool) (w : World) : Action → Option World
  | .notifyAfter id due => if w.call id = none then some (w.goto id (.arm due)) else none
  | .timer id place =>
    match w.call id, w.timers[place]? with
    | none, some timer =>
      some ({ w with timers := w.timers.eraseIdx place }.goto id (.fire timer.generation))
    | _, _ => none
  | .step id answer => (w.call id).map fun phase => w.advance submitDelayed id answer phase
  | .notify => some { w with notified := w.notified + 1 }
  | .stop => some { w with stopped := true }
  | .disarm =>
    if w.stopped then
      some { w with delayedGeneration := w.delayedGeneration + 1, delayedDue := none }
    else none

end ModuleServices.Delayed
