import ModuleServices.Pool.Step

/-!
# No lost availability wake

A subscribed waiter is owed a wake as soon as a backing of its class can be reused. The
invariant behind it is `Attended`: while a backing is leased, pinned or under readback,
or a clock wake is asked for at or before its `safeAt`, the end of that state raises an
event. So every step either leaves the backings attended or counts an event, and an
event counted wakes whoever is subscribed by then.

Whoever is not — a caller between its empty `Acquire` and the comparison in
`SubscribeAvailability` — is covered in another way: an event counted since leaves
`scanEvents` behind `events` (`Behind`), and the comparison sees that. Only another
`Acquire` can bring `scanEvents` level again, which is where the first condition comes
from. The second comes from the search itself: it judges the free backings by one
reading of the clock and arms the wake by a later one.
-/

namespace ModuleServices.Pool.Proof

open ModuleServices ModuleServices.Pool World

/-! ## Instructions still to run -/

theorem has_spawn {w : World} {program : List Instr} {p : Instr → Prop} :
    Has (w.spawn program) p ↔ Has w p ∨ ∃ instr ∈ program, p instr := by
  unfold Has spawn
  constructor
  · rintro ⟨t, ht, i, hi, hp⟩
    rcases List.mem_append.mp ht with ht | ht
    · exact .inl ⟨t, ht, i, hi, hp⟩
    · rw [List.mem_singleton.mp ht] at hi
      exact .inr ⟨i, hi, hp⟩
  · rintro (⟨t, ht, i, hi, hp⟩ | ⟨i, hi, hp⟩)
    · exact ⟨t, List.mem_append_left _ ht, i, hi, hp⟩
    · exact ⟨program, List.mem_append_right _ List.mem_cons_self, i, hi, hp⟩

/-- One instruction of a thread run, and replaced by what it leads to. -/
structure Ran (w w' : World) (instr : Instr) (program : List Instr) : Prop where
  had : ∀ p, p instr → Has w p
  new : ∀ p, (∃ i ∈ program, p i) → Has w' p
  keep : ∀ p, Has w p → p instr ∨ Has w' p
  only : ∀ p, Has w' p → Has w p ∨ ∃ i ∈ program, p i

theorem ran_set {w w' : World} {thread : Nat} {instr : Instr} {rest program : List Instr}
    (h : w.threads[thread]? = some (instr :: rest))
    (hw : w'.threads = w.threads.set thread (program ++ rest)) : Ran w w' instr program := by
  have hlt : thread < w.threads.length := by
    by_contra hge
    rw [List.getElem?_eq_none (by omega)] at h
    cases h
  have hmem : instr :: rest ∈ w.threads := List.mem_of_getElem? h
  have hset : program ++ rest ∈ w'.threads := by
    rw [hw]
    exact List.mem_set hlt _
  refine ⟨fun p hp => ⟨_, hmem, instr, List.mem_cons_self, hp⟩, fun p ⟨i, hi, hp⟩ =>
    ⟨_, hset, i, List.mem_append_left _ hi, hp⟩, fun p ⟨t, ht, i, hi, hp⟩ => ?_,
    fun p ⟨t, ht, i, hi, hp⟩ => ?_⟩
  · obtain ⟨n, hn⟩ := List.mem_iff_getElem?.mp ht
    by_cases hnt : n = thread
    · subst hnt
      rw [h] at hn
      cases hn
      rcases List.mem_cons.mp hi with rfl | hi
      · exact .inl hp
      · exact .inr ⟨_, hset, i, List.mem_append_right _ hi, hp⟩
    · refine .inr ⟨t, List.mem_of_getElem? (i := n) ?_, i, hi, hp⟩
      rw [hw, List.getElem?_set_ne (Ne.symm hnt)]
      exact hn
  · rw [hw] at ht
    rcases List.mem_or_eq_of_mem_set ht with ht | rfl
    · exact .inl ⟨t, ht, i, hi, hp⟩
    · rcases List.mem_append.mp hi with hi | hi
      · exact .inr ⟨i, hi, hp⟩
      · exact .inl ⟨_, hmem, i, List.mem_cons_of_mem _ hi, hp⟩

/-! ## The invariant -/

/-- `scanEvents` is behind `events`, and the acquirer is not about to bring it level. -/
def Behind (w : World) : Prop :=
  w.events ≠ w.scanEvents
    ∧ ∀ call events, w.acquirer = some (call, .storeScanEvents events) → w.events ≠ events

/-- A caller that has found nothing will compare its events and find them moved, or has every
backing of its class attended. -/
def Covered (w : World) (request : BackingRequest) : Prop := Behind w ∨ ClassAttended w request

/-- A subscribed waiter is about to be taken, or covered, or its own comparison will wake it. -/
def Subscribed (w : World) (waiter : Waiter) : Prop :=
  Has w (· = .takeWaiters) ∨ ClassAttended w waiter.request
    ∨ (Has w (· = .subscribeLoad waiter) ∧ Behind w)
    ∨ ∃ events, Has w (· = .subscribeCompare waiter events) ∧ events ≠ w.scanEvents
      ∧ ∀ call e, w.acquirer = some (call, .storeScanEvents e) → events ≠ e

/-- The backings a claim's loop has left to look at, or has passed over as still bound. -/
def ClaimLeft (w : World) (completed : Nat) (claim : Claim) (g : Nat) : Prop :=
  match claim with
  | .release (some _) _ => True
  | .reuse same _ => g ∈ w.free ∧ (g ∈ same ∨ completed < (w.backing g).safeAt)
  | .release none _ | .bound => g ∈ w.free ∧ completed < (w.backing g).safeAt

/-- The backings of the class the acquirer has yet to judge, or has judged still bound. -/
def Open (w : World) (phase : AcquirePhase) (g : Nat) : Prop :=
  match phase with
  | .loadEvents | .storeScanEvents _ | .takeReturned | .leaseBacking _ | .subscribing => True
  | .readClock => g ∈ w.free
  | .scan completed todo same _ =>
    g ∈ w.free ∧ (g ∈ todo ∨ g ∈ same ∨ completed < (w.backing g).safeAt)
  | .claimSet completed claim x | .claimRead completed claim x =>
    ClaimLeft w completed claim g ∨ (∃ same release, claim = .reuse same release) ∧ g = x
  | .claimUndo completed claim _ => ClaimLeft w completed claim g
  | .claimed completed (.release none rest) _ => ClaimLeft w completed (.release none rest) g
  | .claimed _ _ _ => True
  | .choose completed | .scanBound completed _ _ | .armClock completed =>
    g ∈ w.free ∧ completed < (w.backing g).safeAt
  | .armLoad point | .armTry point _ => point ≤ (w.backing g).safeAt

/-- What the acquirer knows of the class it searches. -/
def Searching (w : World) (call : Call) (phase : AcquirePhase) : Prop :=
  Behind w ∨ ∀ g ∈ w.all, fits (w.backing g) call.request = true →
    Attended w g ∨ Open w phase g

/-- The counters, and where an unleased backing is. -/
structure Bookkeeping (w : World) : Prop where
  scanned : w.scanEvents ≤ w.events
  loaded : ∀ call events, w.acquirer = some (call, .storeScanEvents events) → events ≤ w.events
  placed : ∀ g ∈ w.all, (w.backing g).leases = 0 →
    g ∈ w.free ∨ g ∈ w.returned ∨ Has w (· = .returnPush g)

/-- The armed point has a clock waiter, and no reached one lies on the stack unnoticed. -/
structure ClockKept (w : World) : Prop where
  armed : w.armedAt ≠ 0 → ClockPending w w.armedAt ∨ Has w (· = .armFired w.armedAt)
  reached : ∀ point ∈ w.clockWaiters, w.completed < point ∨ Has w (· = .runTake)
    ∨ Has w (· = .clockRecheck point) ∨ ∃ lowest ≤ point, Has w (· = .runCheck lowest)

/-- Whoever looks for a backing is told of it. -/
structure WakesOwed (w : World) : Prop where
  searching : ∀ call phase, w.acquirer = some (call, phase) → Searching w call phase
  unsubscribed : ∀ request, Has w (Instr.Subscribes request) → Covered w request
  subscribed : ∀ waiter ∈ w.waiters, Subscribed w waiter

structure Inv (w : World) : Prop where
  books : Bookkeeping w
  clock : ClockKept w
  wakes : WakesOwed w

theorem inv_start (config : Config) : Inv (start config) := by
  refine ⟨⟨Nat.le_refl _, ?_, ?_⟩, ⟨?_, ?_⟩, ⟨?_, ?_, ?_⟩⟩
  · exact fun _ _ h => by cases h
  · exact fun _ h => absurd h List.not_mem_nil
  · exact fun h => absurd rfl h
  · exact fun _ h => absurd h List.not_mem_nil
  · exact fun _ _ h => by cases h
  · rintro _ ⟨_, ht, _⟩
    exact absurd ht List.not_mem_nil
  · exact fun _ h => absurd h List.not_mem_nil

/-! ## Steps that count no event -/

/-- What a step must keep for the wakes owed to stay owed: the search's backings stay where they
are, attended ones stay attended, and `scanEvents` is not brought level. -/
structure Quiet (w w' : World) : Prop where
  all : ∀ g ∈ w'.all, g ∈ w.all
  fits : ∀ g ∈ w'.all, ∀ request, fits (w'.backing g) request = fits (w.backing g) request
  attended : ∀ g ∈ w'.all, Attended w g → Attended w' g
  behind : Behind w → Behind w'

theorem Quiet.classAttended {w w' : World} (h : Quiet w w') {request : BackingRequest}
    (hc : ClassAttended w request) : ClassAttended w' request := by
  intro g hg hf
  rw [h.fits g hg] at hf
  exact h.attended g hg (hc g (h.all g hg) hf)

theorem Quiet.covered {w w' : World} (h : Quiet w w') {request : BackingRequest}
    (hc : Covered w request) : Covered w' request :=
  hc.imp h.behind h.classAttended

/-- The search goes on as long as what is open stays open, or gets attended. -/
theorem Quiet.searching {w w' : World} (h : Quiet w w') {call : Call}
    {phase phase' : AcquirePhase} (hs : Searching w call phase)
    (hopen : ∀ g ∈ w'.all, Open w phase g → Attended w' g ∨ Open w' phase' g) :
    Searching w' call phase' := by
  rcases hs with hb | hs
  · exact .inl (h.behind hb)
  · refine .inr fun g hg hf => ?_
    rw [h.fits g hg] at hf
    rcases hs g (h.all g hg) hf with ha | ho
    · exact .inl (h.attended g hg ha)
    · exact hopen g hg ho

/-- A backing as far as `Attended` and the search read it. -/
structure SameBacking (b b' : Backing) : Prop where
  key : b'.key = b.key
  capacityClass : b'.capacityClass = b.capacityClass
  leases : b'.leases = b.leases
  readbackPins : b'.readbackPins = b.readbackPins
  bindingConsumers : b'.bindingConsumers = b.bindingConsumers
  safeAt : b'.safeAt = b.safeAt

theorem SameBacking.rfl' {b : Backing} : SameBacking b b := ⟨rfl, rfl, rfl, rfl, rfl, rfl⟩

theorem SameBacking.fits {b b' : Backing} (h : SameBacking b b') (request : BackingRequest) :
    fits b' request = fits b request := by
  unfold Pool.fits
  rw [h.key, h.capacityClass]

/-- A step of the acquirer that reads, or writes only `retired`. -/
structure Reads (w w' : World) : Prop where
  all : w'.all = w.all
  free : w'.free = w.free
  returned : w'.returned = w.returned
  waiters : w'.waiters = w.waiters
  events : w'.events = w.events
  scanEvents : w'.scanEvents = w.scanEvents
  armedAt : w'.armedAt = w.armedAt
  completed : w'.completed = w.completed
  clockWaiters : w'.clockWaiters = w.clockWaiters
  threads : w'.threads = w.threads
  backing : ∀ g, SameBacking (w.backing g) (w'.backing g)

theorem has_congr {w w' : World} (h : w'.threads = w.threads) {p : Instr → Prop} :
    Has w' p ↔ Has w p := by
  unfold Has
  rw [h]

theorem Reads.attended {w w' : World} (h : Reads w w') {g : Nat} :
    Attended w' g ↔ Attended w g := by
  unfold Attended ClockPending
  have hb := h.backing g
  rw [hb.leases, hb.bindingConsumers, hb.readbackPins, hb.safeAt, h.clockWaiters]
  simp only [has_congr h.threads]

theorem Reads.behind {w w' : World} (h : Reads w w')
    (hstore : ∀ call events, w'.acquirer = some (call, .storeScanEvents events) →
      w.acquirer = some (call, .storeScanEvents events)) (hb : Behind w) : Behind w' := by
  refine ⟨?_, fun call events he => ?_⟩
  · rw [h.events, h.scanEvents]
    exact hb.1
  · rw [h.events]
    exact hb.2 call events (hstore call events he)

theorem Reads.quiet {w w' : World} (h : Reads w w')
    (hstore : ∀ call events, w'.acquirer = some (call, .storeScanEvents events) →
      w.acquirer = some (call, .storeScanEvents events)) : Quiet w w' :=
  ⟨fun _ hg => h.all ▸ hg, fun g _ request => (h.backing g).fits request,
    fun _ _ ha => h.attended.mpr ha, h.behind hstore⟩

theorem Reads.bookkeeping {w w' : World} (h : Reads w w') (hb : Bookkeeping w)
    (hstore : ∀ call events, w'.acquirer = some (call, .storeScanEvents events) →
      events ≤ w.events) : Bookkeeping w' := by
  refine ⟨?_, fun call events he => ?_, fun g hg hl => ?_⟩
  · rw [h.events, h.scanEvents]
    exact hb.scanned
  · rw [h.events]
    exact hstore call events he
  · rw [h.all] at hg
    rw [(h.backing g).leases] at hl
    rw [h.free, h.returned, has_congr h.threads]
    exact hb.placed g hg hl

theorem Reads.clockKept {w w' : World} (h : Reads w w') (hc : ClockKept w) : ClockKept w' := by
  refine ⟨?_, ?_⟩
  · unfold ClockPending
    rw [h.armedAt, h.clockWaiters]
    simp only [has_congr h.threads]
    exact hc.armed
  · rw [h.clockWaiters, h.completed]
    simp only [has_congr h.threads]
    exact hc.reached

/-- The instruction is one a subscribed waiter may be relying on. -/
def Owes : Instr → Prop
  | .takeWaiters | .subscribeLoad _ | .subscribeCompare _ _ => True
  | _ => False

/-- The wakes stay owed through a quiet step that keeps the instructions they rely on. -/
theorem wakesOwed_quiet {w w' : World} (h : WakesOwed w) (hq : Quiet w w')
    (hscan : w'.scanEvents = w.scanEvents)
    (hwaiters : ∀ waiter ∈ w'.waiters, waiter ∈ w.waiters)
    (hstore : ∀ call events, w'.acquirer = some (call, .storeScanEvents events) →
      w.acquirer = some (call, .storeScanEvents events))
    (howes : ∀ instr, Owes instr → Has w (· = instr) → Has w' (· = instr))
    (honly : ∀ request, Has w' (Instr.Subscribes request) →
      Has w (Instr.Subscribes request) ∨ Covered w' request)
    (hsearch : ∀ call phase, w'.acquirer = some (call, phase) → Searching w' call phase) :
    WakesOwed w' := by
  refine ⟨hsearch, fun request hr => ?_, fun waiter hw => ?_⟩
  · rcases honly request hr with hr | hc
    · exact hq.covered (h.unsubscribed request hr)
    · exact hc
  · rcases h.subscribed waiter (hwaiters waiter hw) with h | h | ⟨h, hb⟩ | ⟨events, h, hne, hs⟩
    · exact .inl (howes _ trivial h)
    · exact .inr (.inl (hq.classAttended h))
    · exact .inr (.inr (.inl ⟨howes _ trivial h, hq.behind hb⟩))
    · refine .inr (.inr (.inr ⟨events, howes _ trivial h, ?_, fun call e he => ?_⟩))
      · rw [hscan]
        exact hne
      · exact hs call e (hstore call e he)

/-- What is open stays open while `free` stays and no `safeAt` falls. -/
theorem claimLeft_mono {w w' : World} {completed g : Nat} {claim : Claim}
    (hfree : w'.free = w.free) (hsafe : (w.backing g).safeAt ≤ (w'.backing g).safeAt)
    (h : ClaimLeft w completed claim g) : ClaimLeft w' completed claim g := by
  unfold ClaimLeft at h ⊢
  rw [hfree]
  split at h
  · exact trivial
  · exact ⟨h.1, h.2.imp_right fun hlt => Nat.lt_of_lt_of_le hlt hsafe⟩
  · exact ⟨h.1, Nat.lt_of_lt_of_le h.2 hsafe⟩
  · exact ⟨h.1, Nat.lt_of_lt_of_le h.2 hsafe⟩

theorem open_mono {w w' : World} {phase : AcquirePhase} {g : Nat} (hfree : w'.free = w.free)
    (hsafe : (w.backing g).safeAt ≤ (w'.backing g).safeAt) (h : Open w phase g) :
    Open w' phase g := by
  have hlt : ∀ {c : Nat}, c < (w.backing g).safeAt → c < (w'.backing g).safeAt :=
    fun h => Nat.lt_of_lt_of_le h hsafe
  unfold Open at h ⊢
  rw [hfree]
  split at h
  all_goals first
    | exact trivial
    | exact h
    | exact ⟨h.1, h.2.imp_right (Or.imp_right hlt)⟩
    | exact h.imp_left (claimLeft_mono hfree hsafe)
    | exact claimLeft_mono hfree hsafe h
    | exact ⟨h.1, hlt h.2⟩
    | exact Nat.le_trans h hsafe

/-- The search goes on in the phase it was in, when nothing it has open moved. -/
theorem Quiet.searching_same {w w' : World} (hq : Quiet w w') (hacq : w'.acquirer = w.acquirer)
    (hfree : w'.free = w.free) (hsafe : ∀ g, (w.backing g).safeAt ≤ (w'.backing g).safeAt)
    (h : ∀ call phase, w.acquirer = some (call, phase) → Searching w call phase) :
    ∀ call phase, w'.acquirer = some (call, phase) → Searching w' call phase := by
  intro call phase hp
  rw [hacq] at hp
  exact hq.searching (h call phase hp) fun g _ ho => .inr (open_mono hfree (hsafe g) ho)

/-- A reading step of the acquirer keeps the invariant, if the search may go on as it does. -/
theorem Reads.inv {w w' : World} (h : Reads w w') (hinv : Inv w)
    (hstore : ∀ call events, w'.acquirer ≠ some (call, .storeScanEvents events))
    (hsearch : Quiet w w' → ∀ call phase, w'.acquirer = some (call, phase) →
      Searching w' call phase) : Inv w' := by
  have hst : ∀ call events, w'.acquirer = some (call, .storeScanEvents events) →
      w.acquirer = some (call, .storeScanEvents events) :=
    fun call events he => absurd he (hstore call events)
  have hq := h.quiet hst
  have hhas : ∀ p, Has w p → Has w' p := fun p hp => (has_congr h.threads).mpr hp
  refine ⟨h.bookkeeping hinv.books fun call events he => absurd he (hstore call events),
    h.clockKept hinv.clock, wakesOwed_quiet hinv.wakes hq h.scanEvents (fun _ hw => h.waiters ▸ hw)
      hst (fun _ _ hp => hhas _ hp) (fun request hr => ?_) (hsearch hq)⟩
  exact .inl ((has_congr h.threads).mp hr)

end ModuleServices.Pool.Proof
