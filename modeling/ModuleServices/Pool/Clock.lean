import ModuleServices.Lib.Run
import Mathlib

/-!
# The retirement clock, one access at a time

`RetirementClock` wakes whoever waits for a point once the point has retired. A call in
progress, and a wake's own calls like any other, is at a `Phase`; a step is one access of
`m_completed`, `m_waiters` or `m_waiting`, or one wake. The stack is the list of its
waiters from the head on: a push that finds the head it linked to puts its waiters before
the others.
-/

namespace ModuleServices.RetirementClock

abbrev Point := Fin (2 ^ 64)

/-- `UINT64_MAX`. -/
def kMax : Point := Fin.last _

/-- `RetirementClock::Waiter`. The wake is its number: it is called once for each subscription. -/
structure Waiter where
  wake : Nat
  point : Point
  deriving DecidableEq, Repr

/-- A wake that has run, and what it was called with. -/
structure Woken where
  waiter : Waiter
  completed : Point
  deriving DecidableEq, Repr

inductive Phase where
  | returned
  -- `Advance`
  | advanceLoad (completed : Point)
  | advanceExchange (completed current : Point)
  -- `Subscribe`: reached already, or counted, pushed and checked again
  | checkReached (waiter : Waiter)
  | inlineCompleted (waiter : Waiter)
  | inlineWake (waiter : Waiter) (completed : Point)
  | countWaiting (waiter : Waiter)
  | push (waiter : Waiter)
  | recheckReached (point : Point)
  -- `RunReached`
  | take
  | readCompleted (list : List Waiter)
  | walk (completed lowestKept : Point) (list kept : List Waiter)
  | wake (completed lowestKept : Point) (waiter : Waiter) (list kept : List Waiter)
  | keep (lowestKept : Point) (kept : List Waiter)
  | checkKept (lowestKept : Point)
  deriving DecidableEq, Repr

structure World where
  completed : Point := 0
  /-- `m_waiters`, from the head on. -/
  waiters : List Waiter := []
  waiting : Nat := 0
  /-- The calls in the order they began. -/
  calls : List Phase := []
  -- what has happened: who subscribed, which values advanced, which wakes ran
  subscribed : List Waiter := []
  advanced : List Point := []
  woken : List Woken := []

namespace World

def goto (w : World) (id : Nat) (phase : Phase) : World := { w with calls := w.calls.set id phase }

/-- `Advance` looks at the value it has. -/
def advanceCheck (w : World) (id : Nat) (completed current : Point) : World :=
  if current < completed then w.goto id (.advanceExchange completed current)
  else { w with advanced := w.advanced ++ [completed] }.goto id .take

/-- The call's next access; `answer` is whether a weak compare-exchange of an equal value
succeeds. -/
def advance (w : World) (id : Nat) (answer : Bool) : Phase → World
  | .returned => w
  | .advanceLoad completed => w.advanceCheck id completed w.completed
  | .advanceExchange completed current =>
    if answer = true ∧ w.completed = current then
      { w with completed, advanced := w.advanced ++ [completed] }.goto id .take
    else w.advanceCheck id completed w.completed
  | .checkReached waiter =>
    if waiter.point ≤ w.completed then w.goto id (.inlineCompleted waiter)
    else w.goto id (.countWaiting waiter)
  | .inlineCompleted waiter => w.goto id (.inlineWake waiter w.completed)
  | .inlineWake waiter completed =>
    { w with woken := w.woken ++ [Woken.mk waiter completed] }.goto id .returned
  | .countWaiting waiter => { w with waiting := w.waiting + 1 }.goto id (.push waiter)
  | .push waiter =>
    if answer = true then
      { w with waiters := waiter :: w.waiters }.goto id (.recheckReached waiter.point)
    else w
  | .recheckReached point =>
    if point ≤ w.completed then w.goto id .take else w.goto id .returned
  | .take =>
    if w.waiters = [] then w.goto id .returned
    else { w with waiters := [] }.goto id (.readCompleted w.waiters)
  | .readCompleted list => w.goto id (.walk w.completed kMax list [])
  | .walk _ lowestKept [] kept =>
    if kept = [] then w.goto id .returned else w.goto id (.keep lowestKept kept)
  | .walk completed lowestKept (waiter :: list) kept =>
    if waiter.point ≤ completed then
      { w with waiting := w.waiting - 1 }.goto id (.wake completed lowestKept waiter list kept)
    else w.goto id (.walk completed (min waiter.point lowestKept) list (waiter :: kept))
  | .wake completed lowestKept waiter list kept =>
    { w with woken := w.woken ++ [Woken.mk waiter completed] }.goto id
      (.walk completed lowestKept list kept)
  | .keep lowestKept kept =>
    if answer = true then { w with waiters := kept ++ w.waiters }.goto id (.checkKept lowestKept)
    else w
  | .checkKept lowestKept =>
    if w.completed < lowestKept then w.goto id .returned else w.goto id .take

end World

inductive Action where
  | advance (completed : Point)
  /-- `Subscribe`, with an empty wake or not. -/
  | subscribe (point : Point) (wake : Bool)
  | access (id : Nat) (answer : Bool)
  deriving DecidableEq, Repr

def step (w : World) : Action → Option World
  | .advance completed => some { w with calls := w.calls ++ [Phase.advanceLoad completed] }
  | .subscribe point wake =>
    if wake = false then some w
    else
      let waiter := Waiter.mk w.subscribed.length point
      some { w with
        calls := w.calls ++ [Phase.checkReached waiter], subscribed := w.subscribed ++ [waiter] }
  | .access id answer =>
    match w.calls[id]? with
    | none | some .returned => none
    | some phase => some (w.advance id answer phase)

/-- No call is in progress. -/
def AtRest (w : World) : Prop := ∀ phase ∈ w.calls, phase = .returned

/-- `Completed` is the greatest value advanced, or zero before any. -/
def Greatest (w : World) : Prop := IsGreatest {point | point = 0 ∨ point ∈ w.advanced} w.completed

/-- A wake runs once at most, with a point that had retired and is not before its own. -/
def WakesOnce (w : World) : Prop :=
  (w.woken.map fun run => run.waiter.wake).Nodup ∧
    ∀ run ∈ w.woken, run.waiter ∈ w.subscribed ∧ run.waiter.point ≤ run.completed
      ∧ run.completed ≤ w.completed

/-- At rest nobody whose point has retired waits, whoever waits is counted, and whoever does not was
woken. -/
def NobodyLeft (w : World) : Prop :=
  AtRest w → (∀ waiter ∈ w.waiters, w.completed < waiter.point) ∧ w.waiting = w.waiters.length
    ∧ ∀ waiter ∈ w.subscribed, waiter ∈ w.waiters ∨ ∃ run ∈ w.woken, run.waiter = waiter

end ModuleServices.RetirementClock
