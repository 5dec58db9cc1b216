import ModuleServices.Pool.Custody

/-!
# Claims against binding consumers' pins

`Custody` again, with the accesses it takes together: `TryClaim` publishes `retired`,
reads `bindingConsumers` and puts `retired` back unless the backing goes, and `Pin` counts
itself, reads `retired` and takes its count back where the pool has claimed the backing.
Pins are taken and given back at any time, also in the middle of a claim.
-/

namespace ModuleServices.Pool.Pins

open Custody (Phase Operation)

inductive PinPhase where
  /-- Counted, and about to read `retired`. -/
  | check
  /-- Found the backing claimed, and about to take its count back. -/
  | undo
  | held
  | thrown
  | gone
  deriving DecidableEq, Repr

/-- A call of `Pin`, and the pin it returned. -/
structure Pin where
  backing : Nat
  phase : PinPhase
  deriving DecidableEq, Repr

/-- A pin in the consumer count. -/
def Pin.counted (pin : Pin) : Bool := pin.phase == .check || pin.phase == .undo || pin.phase == .held

inductive Stage where
  | read
  /-- The backing stays, or is reused: `retired` is put back. -/
  | clear
  deriving DecidableEq, Repr

/-- A `TryClaim` in progress, with the pins that were held on the backing when it began. -/
structure Claim where
  backing : Nat
  stage : Stage
  held : List Nat
  deriving DecidableEq, Repr

/-- A claim that has succeeded. -/
structure Won where
  backing : Nat
  released : Bool
  held : List Nat
  deriving DecidableEq, Repr

structure World where
  pool : Custody.World
  claim : Option Claim := none
  pins : List Pin := []
  won : List Won := []

/-- The backing the acquirer's next access claims, and whether to release it. -/
def claims : Phase → Option (Nat × Bool)
  | .reuse (g :: _) _ => some (g, false)
  | .release _ (g :: _) => some (g, true)
  | .claimBound g => some (g, false)
  | _ => none

namespace World

def setRetired (w : World) (g : Nat) (retired : Bool) : World :=
  { w with pool := w.pool.modify g fun b => { b with retired } }

/-- The pins held on a backing. -/
def heldOn (w : World) (g : Nat) : List Nat :=
  (List.range w.pins.length).filter fun id => w.pins[id]? == some ⟨g, .held⟩

/-- The acquirer's next access. -/
def advance (w : World) (operation : Operation) (phase : Phase) : World :=
  match w.claim, claims phase with
  | some ⟨g, .clear, _⟩, _ => { w.setRetired g false with claim := none }
  | some ⟨g, .read, held⟩, some (_, released) =>
    let next := { w with pool := w.pool.advance operation phase }
    if w.pool.claims g then
      { next with
        claim := if released then none else some ⟨g, .clear, held⟩
        won := w.won ++ [⟨g, released, held⟩] }
    else { next with claim := some ⟨g, .clear, held⟩ }
  | none, some (g, _) => { w.setRetired g true with claim := some ⟨g, .read, w.heldOn g⟩ }
  | _, none => { w with pool := w.pool.advance operation phase }

/-- A pin goes on; `consumers` is what it makes of the count. -/
def setPin (w : World) (id g : Nat) (phase : PinPhase) (consumers : Nat → Nat) : World :=
  { w with
    pins := w.pins.set id ⟨g, phase⟩
    pool := w.pool.modify g fun b => { b with bindingConsumers := consumers b.bindingConsumers } }

end World

inductive Action where
  /-- Anything of the pool's but the acquirer's accesses and the pins. -/
  | pool (action : Custody.Action)
  | acquirer
  /-- `Pin` counts itself. -/
  | pin (backing : Nat)
  /-- A pin's next access: the check, the way back, or its end. -/
  | advance (id : Nat)
  deriving DecidableEq, Repr

def step (w : World) : Action → Option World
  | .pool .acquirer | .pool (.pin _) | .pool (.unpin _) => none
  | .pool (.acquire call) =>
    if w.claim.isSome then none
    else (Custody.step w.pool (.acquire call)).map fun pool => { w with pool }
  | .pool .trim =>
    if w.claim.isSome then none
    else (Custody.step w.pool .trim).map fun pool => { w with pool }
  | .pool action => (Custody.step w.pool action).map fun pool => { w with pool }
  | .acquirer =>
    match w.pool.acquirer, w.claim with
    | some (operation, phase), _ => some (w.advance operation phase)
    | none, some ⟨g, .clear, _⟩ => some { w.setRetired g false with claim := none }
    | none, _ => none
  | .pin g =>
    if g < w.pool.nextGeneration then
      some { w with
        pins := w.pins ++ [⟨g, .check⟩]
        pool := w.pool.modify g fun b => { b with bindingConsumers := b.bindingConsumers + 1 } }
    else none
  | .advance id =>
    match w.pins[id]? with
    | some ⟨g, .check⟩ =>
      some (w.setPin id g (if (w.pool.backing g).retired then .undo else .held) fun n => n)
    | some ⟨g, .undo⟩ => some (w.setPin id g .thrown fun n => n - 1)
    | some ⟨g, .held⟩ => some (w.setPin id g .gone fun n => n - 1)
    | _ => none

def start (config : Config) : World := { pool := Custody.start config }

/-! ## What the two sides promise each other -/

/-- A claim succeeds only when every pin that was held as it began has gone. -/
def ClaimsRespectPins (w : World) : Prop :=
  ∀ won ∈ w.won, ∀ id ∈ won.held, w.pins[id]? = some ⟨won.backing, .gone⟩

/-- The consumer count is that of the pins held and the calls in progress: a `Pin` that has thrown
has left nothing in it. -/
def CountsPins (w : World) : Prop :=
  ∀ g < w.pool.nextGeneration,
    (w.pool.backing g).bindingConsumers = w.pins.countP fun pin => pin.backing == g && pin.counted

/-- A backing released is out of the pool, held by nobody, and whoever pins it will throw. -/
def NeverBoth (w : World) : Prop :=
  ∀ won ∈ w.won, won.released = true →
    won.backing ∉ w.pool.all ∧ (w.pool.backing won.backing).retired = true
      ∧ ∀ pin ∈ w.pins, pin.backing = won.backing → pin.phase ≠ .held

end ModuleServices.Pool.Pins
