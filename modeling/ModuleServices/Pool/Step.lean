import ModuleServices.Buffers.Version
import ModuleServices.Lib.Run
import Mathlib.Data.List.Sort

/-!
# The backing pool, one atomic step at a time

`BackingPool` has one acquirer at a time; leases and pins go, and the retirement clock
moves, on any thread. What the threads share are atomics, so the model is a machine
whose steps are single atomic accesses: the acquirer's progress is `acquirer`, every
other call in progress is a list of instructions in `threads`. A push onto a Treiber
stack or a maximum taken by a compare-exchange loop is one step, the one in which the
loop succeeds.

What only the acquirer touches (`all`, `free`, a free backing's `safeAt` and lease
count) is read together with the access it stands next to.
-/

namespace ModuleServices.Pool

/-- `State::Key`. -/
structure Key where
  stride : Nat := 0
  flags : BackingFlags := {}
  compatibility : Nat := 0
  deriving DecidableEq, Repr

/-- `State::KeyOf` of a request. -/
def keyOf (request : BackingRequest) : Key :=
  { stride := request.stride, flags := request.flags, compatibility := request.compatibility }

/-- A pooled allocation, as the pool's steps see it. -/
structure Backing where
  key : Key := {}
  capacityClass : Nat := 0
  contentEpoch : Nat := 0
  safeAt : Nat := 0
  leases : Nat := 0
  retired : Bool := false
  readbackPins : Nat := 0
  bindingConsumers : Nat := 0
  /-- The pins whose `Pin` call has returned and that are still held. -/
  pinsHeld : Nat := 0
  deriving DecidableEq, Repr

structure Config where
  maxPerClass : Nat := 0
  spareFree : Nat := 1
  reuseBound : Bool := false
  deriving DecidableEq, Repr

/-- One call of `Acquire` and what its caller does with an empty result. -/
structure Call where
  request : BackingRequest
  preferEpoch : Nat := kMax
  /-- Whether the allocation hook would succeed. -/
  allocates : Bool := true
  /-- The identity subscribed when the result is empty. -/
  subscriber : Option Nat := none
  deriving DecidableEq, Repr

/-- `BackingHome::Waiter`, with the request that failed. -/
structure Waiter where
  identity : Nat
  request : BackingRequest
  deriving DecidableEq, Repr

/-- `Reusable`. -/
def reusable (backing : Backing) (completed : Nat) : Bool :=
  backing.leases == 0 && decide (backing.safeAt ≤ completed) && backing.readbackPins == 0
    && backing.bindingConsumers == 0

/-- A backing of the request's key and class. -/
def fits (backing : Backing) (request : BackingRequest) : Bool :=
  backing.key == keyOf request && backing.capacityClass == request.capacityClass

/-- `nearer`: the highest epoch at or below `preferEpoch` first, then the lowest past it. -/
def nearer (preferEpoch ea eb : Nat) : Bool :=
  let ua := decide (ea ≤ preferEpoch)
  let ub := decide (eb ≤ preferEpoch)
  if ua != ub then ua else if ua then decide (eb < ea) else decide (ea < eb)

/-- Where a `TryClaim` stands in `Acquire`, and what is left to do there. -/
inductive Claim where
  /-- The loop over the same class, `release` being what the first loop set aside. -/
  | reuse (same release : List Nat)
  /-- The loop over the backings to release. -/
  | release (chosen : Option Nat) (rest : List Nat)
  /-- `reuseBound`'s backing. -/
  | bound
  deriving DecidableEq, Repr

/-- The acquirer's next access. `completed` is `Acquire`'s local. -/
inductive AcquirePhase where
  | loadEvents
  | storeScanEvents (events : Nat)
  | takeReturned
  | readClock
  | scan (completed : Nat) (todo same release : List Nat)
  | claimSet (completed : Nat) (claim : Claim) (backing : Nat)
  | claimRead (completed : Nat) (claim : Claim) (backing : Nat)
  | claimUndo (completed : Nat) (claim : Claim) (backing : Nat)
  | claimed (completed : Nat) (claim : Claim) (backing : Nat)
  | leaseBacking (backing : Nat)
  | choose (completed : Nat)
  | scanBound (completed : Nat) (todo : List Nat) (bound : Option Nat)
  | armClock (completed : Nat)
  | armLoad (point : Nat)
  | armTry (point armed : Nat)
  /-- Inside the clock's `Subscribe`, which runs as a thread of its own here. -/
  | subscribing
  deriving DecidableEq, Repr

/-- The accesses of the other calls, and of the wakes they run. -/
inductive Instr where
  | returnPush (backing : Nat)
  | countEvent
  | takeWaiters
  | wake (waiter : Waiter)
  | pinCheck (backing : Nat)
  | pinUndo (backing : Nat)
  | clockSubscribe (point : Nat)
  | clockPush (point : Nat)
  | clockRecheck (point : Nat)
  | runTake
  | runClock (list : List Nat)
  | runKeep (kept : List Nat)
  | runCheck (lowest : Nat)
  | armFired (point : Nat)
  | endAcquire (call : Call)
  | subscribePush (waiter : Waiter)
  | subscribeLoad (waiter : Waiter)
  | subscribeCompare (waiter : Waiter) (events : Nat)
  deriving DecidableEq, Repr

structure World where
  config : Config := {}
  backing : Nat → Backing := fun _ => {}
  /-- Every backing the pool holds, by generation. -/
  all : List Nat := []
  free : List Nat := []
  nextGeneration : Nat := 1
  returned : List Nat := []
  waiters : List Waiter := []
  events : Nat := 0
  scanEvents : Nat := 0
  armedAt : Nat := 0
  completed : Nat := 0
  clockWaiters : List Nat := []
  acquirer : Option (Call × AcquirePhase) := none
  threads : List (List Instr) := []
  woken : List Waiter := []

namespace World

def modify (w : World) (backing : Nat) (f : Backing → Backing) : World :=
  { w with backing := fun g => if g = backing then f (w.backing g) else w.backing g }

/-- The acquirer's next phase. -/
def goto (w : World) (call : Call) (phase : AcquirePhase) : World :=
  { w with acquirer := some (call, phase) }

def spawn (w : World) (program : List Instr) : World :=
  { w with threads := w.threads ++ [program] }

end World

/-- The subscription that follows an empty result, if the caller makes one. -/
def subscription (call : Call) : List Instr :=
  match call.subscriber with
  | some identity => [.subscribePush { identity, request := call.request }]
  | none => []

/-- Where `Acquire` goes once a claim is dealt with. -/
def next (completed : Nat) : Claim → AcquirePhase
  | .reuse (backing :: same) release => .claimSet completed (.reuse same release) backing
  | .reuse [] (backing :: rest) => .claimSet completed (.release none rest) backing
  | .reuse [] [] => .choose completed
  | .release chosen (backing :: rest) => .claimSet completed (.release chosen rest) backing
  | .release (some backing) [] => .leaseBacking backing
  | .release none [] => .choose completed
  | .bound => .armClock completed

/-- The clock point at which a free backing may come back, 0 when the clock does not hold it. -/
def armAt (w : World) (g : Nat) : Nat :=
  let backing := w.backing g
  if backing.safeAt > w.completed then backing.safeAt
  else if backing.readbackPins ≠ 0 then w.completed + 1
  else 0

/-- The loop of `ArmAvailability` over the free backings of the class: the earliest point. -/
def armPoint (w : World) (request : BackingRequest) : Nat :=
  (w.free.filter fun g => fits (w.backing g) request).foldl (fun point g =>
    if armAt w g ≠ 0 ∧ (point = 0 ∨ armAt w g < point) then armAt w g else point) 0

/-- `Acquire` returns empty. -/
def finishEmpty (w : World) (call : Call) : World :=
  { w with acquirer := none }.spawn (subscription call)

/-- `armedAt` read, by the load or by a compare-exchange that failed: an earlier point armed
already does for this one too. -/
def armLoaded (w : World) (call : Call) (point : Nat) : World :=
  if w.armedAt ≠ 0 ∧ w.armedAt ≤ point then finishEmpty w call
  else w.goto call (.armTry point w.armedAt)

/-- `Allocate`. -/
def allocate (w : World) (request : BackingRequest) : World :=
  { w with
    backing := fun g =>
      if g = w.nextGeneration then
        { key := keyOf request, capacityClass := request.capacityClass, leases := 1 }
      else w.backing g
    all := w.all ++ [w.nextGeneration]
    nextGeneration := w.nextGeneration + 1
    acquirer := none }

/-- The selection loop of `reuseBound`: the free backing of the class bound longest ago. -/
def betterBound (w : World) (request : BackingRequest) (g : Nat) (bound : Option Nat) : Option Nat :=
  let backing := w.backing g
  if !fits backing request || backing.leases != 0 || backing.readbackPins != 0
      || backing.bindingConsumers != 0 then bound
  else
    match bound with
    | none => some g
    | some best => if backing.safeAt < (w.backing best).safeAt then some g else some best

/-- One access of `Acquire`. -/
def acquireStep (w : World) (call : Call) : AcquirePhase → World
  | .loadEvents => w.goto call (.storeScanEvents w.events)
  | .storeScanEvents events => { w with scanEvents := events }.goto call .takeReturned
  | .takeReturned =>
    { w with
      returned := []
      free := w.free ++ w.returned.filter fun g => w.all.contains g }.goto call .readClock
  | .readClock => w.goto call (.scan w.completed w.free [] [])
  | .scan completed (g :: todo) same release =>
    let backing := w.backing g
    if backing.key != keyOf call.request || !reusable backing completed then
      w.goto call (.scan completed todo same release)
    else if backing.capacityClass = call.request.capacityClass then
      w.goto call (.scan completed todo (same ++ [g]) release)
    else w.goto call (.scan completed todo same (release ++ [g]))
  | .scan completed [] same release =>
    let sorted := same.insertionSort fun a b =>
      nearer call.preferEpoch (w.backing b).contentEpoch (w.backing a).contentEpoch = false
    w.goto call (next completed (.reuse sorted release))
  | .claimSet completed claim g =>
    (w.modify g fun b => { b with retired := true }).goto call (.claimRead completed claim g)
  | .claimRead completed claim g =>
    if (w.backing g).bindingConsumers ≠ 0 then w.goto call (.claimUndo completed claim g)
    else w.goto call (.claimed completed claim g)
  | .claimUndo completed claim g =>
    (w.modify g fun b => { b with retired := false }).goto call (next completed claim)
  | .claimed completed (.reuse same release) g =>
    (w.modify g fun b => { b with retired := false }).goto call
      (next completed (.release (some g) (release ++ same.drop w.config.spareFree)))
  | .claimed completed (.release chosen rest) g =>
    { w with all := w.all.filter (· != g), free := w.free.filter (· != g) }.goto call
      (next completed (.release chosen rest))
  | .claimed _ .bound g =>
    (w.modify g fun b => { b with retired := false }).goto call (.leaseBacking g)
  | .leaseBacking g =>
    { w with free := w.free.filter (· != g), acquirer := none }.modify g fun b =>
      { b with leases := b.leases + 1 }
  | .choose completed =>
    let classCount := (w.all.filter fun g => fits (w.backing g) call.request).length
    if w.config.maxPerClass ≠ 0 ∧ classCount ≥ w.config.maxPerClass then
      if w.config.reuseBound then w.goto call (.scanBound completed w.free none)
      else w.goto call (.armClock completed)
    else if call.allocates then allocate w call.request
    else { w with acquirer := none }
  | .scanBound completed (g :: todo) bound =>
    w.goto call (.scanBound completed todo (betterBound w call.request g bound))
  | .scanBound completed [] (some g) => w.goto call (.claimSet completed .bound g)
  | .scanBound completed [] none => w.goto call (.armClock completed)
  | .armClock _ =>
    let point := armPoint w call.request
    if point = 0 then finishEmpty w call else w.goto call (.armLoad point)
  | .armLoad point => armLoaded w call point
  | .armTry point armed =>
    if w.armedAt = armed then
      ({ w with armedAt := point }.goto call .subscribing).spawn
        [.clockSubscribe point, .endAcquire call]
    else armLoaded w call point
  | .subscribing => w

/-- One access of another call: the state after it, and what the call does next. -/
def instrStep (w : World) : Instr → World × List Instr
  | .returnPush g => ({ w with returned := g :: w.returned }, [.countEvent])
  | .countEvent => ({ w with events := w.events + 1 }, [.takeWaiters])
  | .takeWaiters => ({ w with waiters := [] }, w.waiters.map .wake)
  | .wake waiter => ({ w with woken := w.woken ++ [waiter] }, [])
  | .pinCheck g =>
    if (w.backing g).retired then (w, [.pinUndo g])
    else (w.modify g fun b => { b with pinsHeld := b.pinsHeld + 1 }, [])
  | .pinUndo g =>
    (w.modify g fun b => { b with bindingConsumers := b.bindingConsumers - 1 },
      if (w.backing g).bindingConsumers = 1 then [.countEvent] else [])
  | .clockSubscribe point =>
    (w, if point ≤ w.completed then [.armFired point] else [.clockPush point])
  | .clockPush point => ({ w with clockWaiters := point :: w.clockWaiters }, [.clockRecheck point])
  | .clockRecheck point => (w, if point ≤ w.completed then [.runTake] else [])
  | .runTake =>
    if w.clockWaiters = [] then (w, [])
    else ({ w with clockWaiters := [] }, [.runClock w.clockWaiters])
  | .runClock list =>
    (w, (list.filter fun point => decide (point ≤ w.completed)).map .armFired
      ++ [.runKeep (list.filter fun point => decide (w.completed < point)).reverse])
  | .runKeep kept =>
    if kept = [] then (w, [])
    else ({ w with clockWaiters := kept ++ w.clockWaiters }, [.runCheck (kept.foldl min kMax)])
  | .runCheck lowest => (w, if lowest ≤ w.completed then [.runTake] else [])
  | .armFired point =>
    ({ w with armedAt := if w.armedAt = point then 0 else w.armedAt }, [.countEvent])
  | .endAcquire call => ({ w with acquirer := none }, subscription call)
  | .subscribePush waiter => ({ w with waiters := waiter :: w.waiters }, [.subscribeLoad waiter])
  | .subscribeLoad waiter => (w, [.subscribeCompare waiter w.events])
  | .subscribeCompare _ events => (w, if events ≠ w.scanEvents then [.countEvent] else [])

inductive Action where
  /-- A call of `Acquire` begins; the pool has one acquirer at a time. -/
  | acquire (call : Call)
  /-- The acquirer's next access. -/
  | acquirer
  /-- The next access of a call in progress. -/
  | run (thread : Nat)
  /-- A lease copied, bound or released. -/
  | copyLease (backing : Nat)
  | bindLease (backing safeAt : Nat)
  | resetLease (backing : Nat)
  /-- The lease holder sets the contents, or a capture pins them for readback. -/
  | setContent (backing contentEpoch readbackPins : Nat)
  /-- A binding consumer pins, or lets a held pin go. -/
  | pin (backing : Nat)
  | unpin (backing : Nat)
  | advance (completed : Nat)
  deriving DecidableEq, Repr

def step (w : World) : Action → Option World
  | .acquire call => if w.acquirer.isSome then none else some (w.goto call .loadEvents)
  | .acquirer =>
    match w.acquirer with
    | none => none
    | some (_, .subscribing) => none
    | some (call, phase) => some (acquireStep w call phase)
  | .run thread =>
    match w.threads[thread]? with
    | some (instr :: rest) =>
      let (w', program) := instrStep w instr
      some { w' with threads := w'.threads.set thread (program ++ rest) }
    | _ => none
  | .copyLease g =>
    if (w.backing g).leases = 0 then none
    else some (w.modify g fun b => { b with leases := b.leases + 1 })
  | .bindLease g safeAt =>
    if (w.backing g).leases = 0 then none
    else some (w.modify g fun b => { b with safeAt := max b.safeAt safeAt })
  | .resetLease g =>
    if (w.backing g).leases = 0 then none
    else
      some ((w.modify g fun b => { b with leases := b.leases - 1 }).spawn
        (if (w.backing g).leases = 1 then [.returnPush g] else []))
  | .setContent g contentEpoch readbackPins =>
    if (w.backing g).leases = 0 then none
    else some (w.modify g fun b => { b with contentEpoch, readbackPins })
  | .pin g =>
    some ((w.modify g fun b => { b with bindingConsumers := b.bindingConsumers + 1 }).spawn
      [.pinCheck g])
  | .unpin g =>
    if (w.backing g).pinsHeld = 0 then none
    else
      some ((w.modify g fun b => { b with
        pinsHeld := b.pinsHeld - 1, bindingConsumers := b.bindingConsumers - 1 }).spawn
        (if (w.backing g).bindingConsumers = 1 then [.countEvent] else []))
  | .advance completed =>
    some ({ w with completed := max w.completed completed }.spawn [.runTake])

/-- A pool as `Create` makes it. -/
def start (config : Config) : World := { config }

/-! ## What the pool promises its waiters -/

/-- No call is in progress and no wake undelivered. -/
def Quiescent (w : World) : Prop := w.acquirer = none ∧ ∀ program ∈ w.threads, program = []

/-- No waiter still subscribed asked for a backing the pool could hand out now. -/
def NoLostWake (w : World) : Prop :=
  Quiescent w → ∀ waiter ∈ w.waiters, ∀ g ∈ w.all, fits (w.backing g) waiter.request = true →
    reusable (w.backing g) w.completed = false

/-! ## The two moments that can lose a wake -/

/-- Some instruction still to run satisfies `p`. -/
def Has (w : World) (p : Instr → Prop) : Prop := ∃ program ∈ w.threads, ∃ instr ∈ program, p instr

/-- The instruction is certain to count an event. -/
def Instr.Raises : Instr → Prop
  | .returnPush _ | .countEvent | .armFired _ => True
  | _ => False

/-- The instruction carries a clock waiter for the point. -/
def Instr.Carries (point : Nat) : Instr → Prop
  | .clockSubscribe p | .clockPush p => p = point
  | .runClock list | .runKeep list => point ∈ list
  | _ => False

/-- A wake is asked of the clock for the point, and has not fired. -/
def ClockPending (w : World) (point : Nat) : Prop :=
  point ∈ w.clockWaiters ∨ Has w (Instr.Carries point)

/-- Something stands between a backing and its reuse that will raise an event when it goes, or an
event is about to be counted. -/
def Attended (w : World) (g : Nat) : Prop :=
  0 < (w.backing g).leases ∨ 0 < (w.backing g).bindingConsumers ∨ (w.backing g).readbackPins ≠ 0
    ∨ Has w Instr.Raises ∨ ∃ point ≤ (w.backing g).safeAt, ClockPending w point

/-- Every backing the pool holds for the request is attended. -/
def ClassAttended (w : World) (request : BackingRequest) : Prop :=
  ∀ g ∈ w.all, fits (w.backing g) request = true → Attended w g

/-- The instruction belongs to a subscription for the request that is not compared yet. -/
def Instr.Subscribes (request : BackingRequest) : Instr → Prop
  | .endAcquire call => call.subscriber.isSome ∧ call.request = request
  | .subscribePush waiter | .subscribeLoad waiter | .subscribeCompare waiter _ =>
    waiter.request = request
  | _ => False

/-- The acquirer is at neither of the two moments: it refreshes `scanEvents` while an earlier
caller, whose class has an idle backing by now, has not compared its events yet; or it reads the
clock to arm a wake after the clock has passed a free backing its search took for still bound. -/
def KeepsWakes (w : World) : Action → Prop
  | .acquirer =>
    match w.acquirer with
    | some (_, .loadEvents) =>
      ∀ request, Has w (Instr.Subscribes request) → ClassAttended w request
    | some (call, .armClock completed) =>
      w.events ≠ w.scanEvents ∨ ∀ g ∈ w.free, fits (w.backing g) call.request = true →
        completed < (w.backing g).safeAt → (w.backing g).safeAt ≤ w.completed → Attended w g
    | _ => True
  | _ => True

end ModuleServices.Pool
