import Mathlib

/-!
# Growth and shrink policies

`GrowthPolicy::Next` sizes a capacity upward, `ShrinkWindow::Observe` says when a
run of low asks lets it go back down. Both compute in 64 bits; the one product
that can pass them is reduced as the machine reduces it.
-/

namespace ModuleServices

/-- `(std::numeric_limits<std::uint64_t>::max)()`. -/
def kMax : Nat := 2 ^ 64 - 1

/-- `(std::numeric_limits<std::uint32_t>::max)()`. -/
def kMax32 : Nat := 2 ^ 32 - 1

namespace GrowthPolicy

inductive Kind where
  | doubling
  | headroom
  deriving DecidableEq, Repr

end GrowthPolicy

structure GrowthPolicy where
  kind : GrowthPolicy.Kind := .doubling
  percent : Nat := 0
  minimum : Nat := 1
  deriving DecidableEq, Repr

namespace GrowthPolicy

/-- `GrowthPolicy::Doubling()`. -/
def doublingPolicy : GrowthPolicy := { kind := .doubling, percent := 0, minimum := 1 }

def lengthError : String := "GrowthPolicy: a capacity past 64 bits"

/-- The doubling loop. Sixty-four rounds are enough: past them the guard has thrown. -/
def double (needed : Nat) : Nat → Nat → Except String Nat
  | 0, capacity => .ok capacity
  | fuel + 1, capacity =>
    if capacity < needed then
      if capacity > kMax / 2 then .error lengthError else double needed fuel (capacity * 2)
    else .ok capacity

/-- `GrowthPolicy::Next`. -/
def next (policy : GrowthPolicy) (current needed : Nat) : Except String Nat :=
  let capacity := if current > policy.minimum then current else policy.minimum
  if capacity ≥ needed then .ok capacity
  else
    match policy.kind with
    | .headroom =>
      let extra := (needed / 100 * policy.percent + needed % 100 * policy.percent / 100) % 2 ^ 64
      if extra > kMax - needed then .error lengthError
      else .ok (if needed + extra > policy.minimum then needed + extra else policy.minimum)
    | .doubling => double needed 64 (if capacity = 0 then 1 else capacity)

end GrowthPolicy

structure ShrinkPolicy where
  usedPercent : Nat := 0
  settle : Int := 0
  observations : Nat := 1
  deriving DecidableEq, Repr

/-- `ShrinkPolicy::Shrinks`. -/
def ShrinkPolicy.shrinks (policy : ShrinkPolicy) : Bool := policy.usedPercent != 0

structure ShrinkWindow where
  peak : Nat := 0
  seen : Nat := 0
  since : Int := 0
  deriving DecidableEq, Repr

namespace ShrinkWindow

/-- `ShrinkWindow::Reset`. -/
def reset (window : ShrinkWindow) : ShrinkWindow := { window with peak := 0, seen := 0 }

/-- `ShrinkWindow::Observe`: the smaller capacity when one is due, and the window after. -/
def observe (window : ShrinkWindow) (policy : ShrinkPolicy) (growth : GrowthPolicy)
    (capacity need : Nat) (now : Int) : Except String (Option Nat × ShrinkWindow) :=
  if !policy.shrinks || capacity == 0 then .ok (none, window)
  else
    let bound :=
      (capacity / 100 * policy.usedPercent + capacity % 100 * policy.usedPercent / 100) % 2 ^ 64
    if need > bound then .ok (none, window.reset)
    else
      let opened :=
        if window.seen = 0 then { window with since := now, peak := need }
        else if need > window.peak then { window with peak := need }
        else window
      let counted := { opened with
        seen := if opened.seen < kMax32 then opened.seen + 1 else opened.seen }
      if counted.seen < policy.observations ∨ now - counted.since < policy.settle then
        .ok (none, counted)
      else do
        let target ← if counted.peak ≠ 0 then growth.next 0 counted.peak else .ok 0
        if target ≥ capacity then .ok (none, counted.reset)
        else .ok (some target, counted.reset)

end ShrinkWindow

end ModuleServices
