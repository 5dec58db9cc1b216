import ModuleServices.Growth.Policy

/-!
# A capacity that follows its need both ways

`FitCapacity` grows a capacity past the need at once and lets `ShrinkWindow` take it back down.
The type the capacity is held in is its greatest value, `limit`.
-/

namespace ModuleServices

/-- `GrowthPolicy::NextAs`. -/
def GrowthPolicy.nextAs (policy : GrowthPolicy) (limit current needed : Nat) : Except String Nat :=
  match policy.next current needed with
  | .error what => .error what
  | .ok capacity =>
    if capacity > limit then .error "GrowthPolicy: a capacity past its type" else .ok capacity

namespace ShrinkWindow

/-- `ShrinkWindow::Due`. -/
def due (window : ShrinkWindow) (policy : ShrinkPolicy) (now : Int) : Bool :=
  policy.shrinks && window.seen != 0
    && decide ((window.seen + 1) % 2 ^ 32 ≥ policy.observations)
    && decide (now - window.since ≥ policy.settle)

/-- The window with one more low ask, as `Observe` leaves it when the policy throws. -/
def count (window : ShrinkWindow) (need : Nat) (now : Int) : ShrinkWindow :=
  let opened :=
    if window.seen = 0 then { window with since := now, peak := need }
    else if need > window.peak then { window with peak := need }
    else window
  { opened with seen := if opened.seen < kMax32 then opened.seen + 1 else opened.seen }

end ShrinkWindow

structure ElasticCapacity where
  value : Nat := 0
  window : ShrinkWindow := {}
  deriving DecidableEq, Repr

namespace ElasticCapacity

/-- `ElasticCapacity::Fit`: whether the value moved, or what was thrown, and the capacity after. -/
def fit (elastic : ElasticCapacity) (limit need : Nat) (growth : GrowthPolicy)
    (shrink : ShrinkPolicy) (now : Int) : Except String Bool × ElasticCapacity :=
  if need > elastic.value then
    match growth.nextAs limit elastic.value need with
    | .error what => (.error what, elastic)
    | .ok value => (.ok (value != elastic.value), { value, window := elastic.window.reset })
  else
    match elastic.window.observe shrink growth elastic.value need now with
    -- only the policy throws, after the ask was counted
    | .error what => (.error what, { elastic with window := elastic.window.count need now })
    | .ok (some target, window) => (.ok true, { value := target % (limit + 1), window })
    | .ok (none, window) => (.ok false, { elastic with window })

/-- What one call of `Fit` brings. -/
structure Ask where
  need : Nat
  now : Int
  deriving DecidableEq, Repr

/-- The capacity after a run of asks, those that throw included. -/
def after (limit : Nat) (growth : GrowthPolicy) (shrink : ShrinkPolicy) (start : ElasticCapacity)
    (asks : List Ask) : ElasticCapacity :=
  asks.foldl (fun elastic ask => (elastic.fit limit ask.need growth shrink ask.now).2) start

end ElasticCapacity

end ModuleServices
