import ModuleServices.Pool.Step

/-!
# Who holds a backing

The pool again, with what `Step` leaves out: `Trim`, the census, the classes last asked
for, and the two atomics between a release's last decrement and its push. The acquirer's
two bodies, `Acquire` and `Trim`, advance one access at a time. Releases, lease copies,
binds, the clock and pins that go come in between; a pin is taken while no body runs.
The availability wakes move no backing and stand in `Step`.
-/

namespace ModuleServices.Pool.Custody

/-- How `Allocate` ends: the hook or the tagging after it may throw, the latter with the generation
already taken. -/
inductive Allocation where
  | made | hookThrows | tagThrows
  deriving DecidableEq, Repr

structure Call where
  request : BackingRequest
  preferEpoch : Nat := kMax
  allocation : Allocation := .made
  deriving DecidableEq, Repr

inductive Operation where
  | acquire (call : Call)
  | trim
  deriving DecidableEq, Repr

/-- `State::Active`: the class last asked for a key. -/
structure Active where
  key : Key := {}
  capacityClass : Nat := 0
  deriving DecidableEq, Repr

/-- The acquirer's next access. `found` is what the pass over the free list has taken for reusable,
`release` what is to go. -/
inductive Phase where
  | takeReturned
  | readClock
  | scan (completed : Nat) (active : Active) (actives : List Active) (todo found release : List Nat)
  /-- `Acquire`'s loop over the class, the nearest contents first. -/
  | reuse (same release : List Nat)
  | release (chosen : Option Nat) (rest : List Nat)
  | choose
  | scanBound (todo : List Nat) (bound : Option Nat)
  | claimBound (backing : Nat)
  /-- The chosen backing leaves the free list and is leased; `bound` says that `reuseBound` chose it. -/
  | lease (backing : Nat) (bound : Bool)
  deriving DecidableEq, Repr

structure World where
  config : Config := {}
  backing : Nat → Backing := fun _ => {}
  /-- Every backing the pool holds, by generation. -/
  all : List Nat := []
  free : List Nat := []
  active : List Active := []
  nextGeneration : Nat := 1
  returned : List Nat := []
  /-- Releases between the last decrement and `free`'s increment, and from there to the push. -/
  dropped : List Nat := []
  pushing : List Nat := []
  -- the census
  liveCount : Nat := 0
  freeCount : Nat := 0
  byteCount : Nat := 0
  completed : Nat := 0
  acquirer : Option (Operation × Phase) := none

/-- `ByteCapacity`, as the backing keeps it. -/
def byteCapacity (backing : Backing) : Nat :=
  if backing.key.stride = 0 then backing.capacityClass else backing.capacityClass * backing.key.stride

namespace World

def modify (w : World) (backing : Nat) (f : Backing → Backing) : World :=
  { w with backing := fun g => if g = backing then f (w.backing g) else w.backing g }

def goto (w : World) (operation : Operation) (phase : Phase) : World :=
  { w with acquirer := some (operation, phase) }

/-- The body returns. -/
def done (w : World) : World := { w with acquirer := none }

/-- `Acquire` records the class asked for its key. -/
def ask (actives : List Active) (active : Active) : List Active :=
  if actives.any fun other => other.key == active.key then
    actives.map fun other => if other.key = active.key then active else other
  else actives ++ [active]

/-- `ReleaseBacking`. -/
def releaseBacking (w : World) (g : Nat) : World :=
  { w with
    free := w.free.filter (· != g)
    all := w.all.filter (· != g)
    freeCount := w.freeCount - 1
    liveCount := w.liveCount - 1
    byteCount := w.byteCount - byteCapacity (w.backing g) }

/-- `Allocate`, past the hooks. -/
def allocate (w : World) (request : BackingRequest) : World :=
  let made : Backing := { key := keyOf request, capacityClass := request.capacityClass, leases := 1 }
  { w with
    backing := fun g => if g = w.nextGeneration then made else w.backing g
    all := w.all ++ [w.nextGeneration]
    nextGeneration := w.nextGeneration + 1
    liveCount := w.liveCount + 1
    byteCount := w.byteCount + byteCapacity made }

/-- How many backings of a key's class the pool holds. -/
def perClass (w : World) (key : Key) (capacityClass : Nat) : Nat :=
  w.all.countP fun g => (w.backing g).key == key && (w.backing g).capacityClass == capacityClass

/-- `maxPerClass` is set and reached. -/
def full (w : World) (request : BackingRequest) : Bool :=
  w.config.maxPerClass != 0
    && decide (w.config.maxPerClass ≤ w.perClass (keyOf request) request.capacityClass)

/-- `TryClaim` finds no binding consumer. -/
def claims (w : World) (g : Nat) : Bool := (w.backing g).bindingConsumers == 0

/-- `Trim`'s loop over the candidates of an active key: the class's first spares stay. -/
def surplus (w : World) (active : Active) : Nat → List Nat → List Nat
  | _, [] => []
  | spares, g :: rest =>
    if (w.backing g).capacityClass = active.capacityClass ∧ spares < w.config.spareFree then
      w.surplus active (spares + 1) rest
    else g :: w.surplus active spares rest

/-- The selection loop of `reuseBound`: the free backing of the class bound longest ago. -/
def betterBound (w : World) (request : BackingRequest) (g : Nat) (bound : Option Nat) : Option Nat :=
  let backing := w.backing g
  if !fits backing request || backing.leases != 0 || backing.readbackPins != 0
      || backing.bindingConsumers != 0 then bound
  else
    match bound with
    | none => some g
    | some best => if backing.safeAt < (w.backing best).safeAt then some g else some best

/-- `nearer` as the order the candidates are sorted by. -/
def byEpoch (w : World) (preferEpoch : Nat) (found : List Nat) : List Nat :=
  found.insertionSort fun a b =>
    nearer preferEpoch (w.backing b).contentEpoch (w.backing a).contentEpoch = false

/-- The pass for the next active key of `Trim`, or its releases. -/
def nextActive (w : World) (completed : Nat) (release : List Nat) : List Active → Phase
  | [] => .release none release
  | active :: actives => .scan completed active actives w.free [] release

/-- The pass over the free list is over. -/
def scanned (w : World) (completed : Nat) (active : Active) (actives : List Active)
    (found release : List Nat) : Operation → Phase
  | .acquire call =>
    let (same, other) := found.partition fun g =>
      (w.backing g).capacityClass == call.request.capacityClass
    .reuse (w.byEpoch call.preferEpoch same) other
  | .trim =>
    w.nextActive completed (release ++ w.surplus active 0 (w.byEpoch kMax found)) actives

/-- `Allocate` as `Acquire` ends with it. -/
def allocation (w : World) (call : Call) : World :=
  match call.allocation with
  | .made => w.allocate call.request
  | .hookThrows => w
  | .tagThrows => { w with nextGeneration := w.nextGeneration + 1 }

/-- One access of the acquirer. -/
def advance (w : World) (operation : Operation) : Phase → World
  | .takeReturned =>
    let w := { w with
      returned := []
      free := w.free ++ w.returned.filter fun g => w.all.contains g }
    match operation with
    | .acquire call =>
      { w with active := ask w.active ⟨keyOf call.request, call.request.capacityClass⟩ }.goto
        operation .readClock
    | .trim => w.goto operation .readClock
  | .readClock =>
    match operation with
    | .acquire call => w.goto operation
        (.scan w.completed ⟨keyOf call.request, call.request.capacityClass⟩ [] w.free [] [])
    | .trim => w.goto operation (w.nextActive w.completed [] w.active)
  | .scan completed active actives (g :: todo) found release =>
    let taken := (w.backing g).key == active.key && reusable (w.backing g) completed
    w.goto operation
      (.scan completed active actives todo (if taken then found ++ [g] else found) release)
  | .scan completed active actives [] found release =>
    w.goto operation (w.scanned completed active actives found release operation)
  | .reuse (g :: same) release =>
    if w.claims g then
      w.goto operation (.release (some g) (release ++ same.drop w.config.spareFree))
    else w.goto operation (.reuse same release)
  | .reuse [] release => w.goto operation (.release none release)
  | .release chosen (g :: rest) =>
    let w := if w.claims g then
        (w.modify g fun b => { b with retired := true }).releaseBacking g
      else w
    w.goto operation (.release chosen rest)
  | .release (some g) [] => w.goto operation (.lease g false)
  | .release none [] =>
    match operation with
    | .acquire _ => w.goto operation .choose
    | .trim => w.done
  | .choose =>
    match operation with
    | .acquire call =>
      if w.full call.request then
        if w.config.reuseBound then w.goto operation (.scanBound w.free none) else w.done
      else (w.allocation call).done
    | .trim => w.done
  | .scanBound (g :: todo) bound =>
    match operation with
    | .acquire call => w.goto operation (.scanBound todo (w.betterBound call.request g bound))
    | .trim => w.done
  | .scanBound [] (some g) => w.goto operation (.claimBound g)
  | .scanBound [] none => w.done
  | .claimBound g => if w.claims g then w.goto operation (.lease g true) else w.done
  | .lease g _ =>
    ({ w with free := w.free.filter (· != g), freeCount := w.freeCount - 1 }.modify g fun b =>
      { b with leases := b.leases + 1 }).done

end World

inductive Action where
  | acquire (call : Call)
  | trim
  /-- The next access of the body in progress. -/
  | acquirer
  | copyLease (backing : Nat)
  /-- A lease moved to another owner. -/
  | moveLease (backing : Nat)
  | bind (backing safeAt : Nat)
  /-- A release's decrement, its increment of `free` and its push. -/
  | releaseLease (backing : Nat)
  | countFree (backing : Nat)
  | push (backing : Nat)
  /-- The lease holder sets the contents. -/
  | fill (backing contentEpoch : Nat)
  /-- A capture pins a leased backing for its readback, which ends whenever it ends. -/
  | capture (backing : Nat)
  | readBack (backing : Nat)
  | pin (backing : Nat)
  | unpin (backing : Nat)
  | advance (completed : Nat)
  deriving DecidableEq, Repr

def step (w : World) : Action → Option World
  | .acquire call => if w.acquirer.isSome then none else some (w.goto (.acquire call) .takeReturned)
  | .trim => if w.acquirer.isSome then none else some (w.goto .trim .takeReturned)
  | .acquirer => w.acquirer.map fun (operation, phase) => w.advance operation phase
  | .copyLease g =>
    if (w.backing g).leases = 0 then none
    else some (w.modify g fun b => { b with leases := b.leases + 1 })
  | .moveLease g => if (w.backing g).leases = 0 then none else some w
  | .bind g safeAt =>
    if (w.backing g).leases = 0 then none
    else some (w.modify g fun b => { b with safeAt := max b.safeAt safeAt })
  | .releaseLease g =>
    if (w.backing g).leases = 0 then none
    else
      some ({ w with
        dropped := if (w.backing g).leases = 1 then g :: w.dropped else w.dropped }.modify g fun b =>
        { b with leases := b.leases - 1 })
  | .countFree g =>
    if g ∈ w.dropped then
      some { w with
        dropped := w.dropped.erase g, pushing := g :: w.pushing, freeCount := w.freeCount + 1 }
    else none
  | .push g =>
    if g ∈ w.pushing then
      some { w with pushing := w.pushing.erase g, returned := g :: w.returned }
    else none
  | .fill g contentEpoch =>
    if (w.backing g).leases = 0 then none else some (w.modify g fun b => { b with contentEpoch })
  | .capture g =>
    if (w.backing g).leases = 0 then none
    else some (w.modify g fun b => { b with readbackPins := b.readbackPins + 1 })
  | .readBack g =>
    if (w.backing g).readbackPins = 0 then none
    else some (w.modify g fun b => { b with readbackPins := b.readbackPins - 1 })
  | .pin g =>
    if w.acquirer.isSome ∨ (w.backing g).retired = true then none
    else some (w.modify g fun b => { b with bindingConsumers := b.bindingConsumers + 1 })
  | .unpin g =>
    if (w.backing g).bindingConsumers = 0 then none
    else some (w.modify g fun b => { b with bindingConsumers := b.bindingConsumers - 1 })
  | .advance completed => some { w with completed := max w.completed completed }

/-- A pool as `Create` makes it. -/
def start (config : Config) : World := { config }

/-! ## What the pool promises -/

/-- The places a backing is in: leased, on its way back, on the return stack, free. -/
def places (w : World) (g : Nat) : Nat :=
  (if 0 < (w.backing g).leases then 1 else 0) + (w.dropped ++ w.pushing).count g
    + w.returned.count g + w.free.count g

/-- The backing the acquirer's next access hands out, and whether `reuseBound` chose it. -/
def handsOut (w : World) : Option (Nat × Bool) :=
  match w.acquirer with
  | some (_, .lease g bound) => some (g, bound)
  | some (.acquire call, .choose) =>
    if !w.full call.request && call.allocation == .made then some (w.nextGeneration, false) else none
  | _ => none

/-- No body runs and no release is under way. -/
def Quiet (w : World) : Prop := w.acquirer = none ∧ w.dropped = [] ∧ w.pushing = []

/-- The census agrees with the backings. -/
structure CensusExact (w : World) : Prop where
  live : w.liveCount = w.all.length
  free : w.freeCount = w.all.countP fun g => (w.backing g).leases == 0
  bytes : w.byteCount = (w.all.map fun g => byteCapacity (w.backing g)).sum

end ModuleServices.Pool.Custody
