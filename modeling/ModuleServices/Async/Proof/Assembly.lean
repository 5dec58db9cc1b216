import ModuleServices.Async.Proof.Sealing
import ModuleServices.Async.Proof.Exchange

/-!
# The newest complete revision is published

Once the calls that settle a revision's fragments have returned, nothing of its count is in
anybody's hands: it is complete. `Collecting` follows the completed revisions from the
stack through `Collect`, and `Handing` what `Collect` hands over through the exchange.
-/

namespace ModuleServices.Assembly.Proof

variable {α ε : Type} {w w' u : World α ε} {id r r' f g : Nat} {t t' : Option Nat}
  {call : Call α ε} {phase : Counting} {answer : Bool} {rest : List Nat}

/-! ## Complete revisions -/

theorem Settling.settled (h : Settling w) (hf : Settled w f) :
    ∃ id call, w.calls[id]? = some call ∧ call.fragment = f ∧ call.phase = .returned true
      ∧ (w.fragment f).settler = some id ∧ (w.fragment f).state = World.stored call.outcome
      ∧ (w.fragment f).waiters = none := by
  obtain ⟨call, hmem, rfl, hphase⟩ := hf
  obtain ⟨id, hid⟩ := List.getElem?_of_mem hmem
  have hrelies := h.relies id call hid
  simp only [Relies, hphase] at hrelies
  exact ⟨id, call, hid, rfl, hphase, hrelies⟩

/-- The call that has settled a fragment has nothing more in hand for it, and no other has. -/
theorem Settling.returned (h : Settling w) (hf : Settled w call.fragment)
    (hid : w.calls[id]? = some call) :
    (∀ rest, call.phase ≠ .walk rest) ∧ ∀ r phase rest, call.phase ≠ .counting r phase rest := by
  obtain ⟨id', call', hid', -, hphase, hsettler, -⟩ := h.settled hf
  have hrelies := h.relies id call hid
  have hsame : (w.fragment call.fragment).settler = some id → call' = call := by
    intro heq
    rw [hsettler] at heq
    cases heq
    rw [hid] at hid'
    exact (Option.some.inj hid').symm
  constructor
  · intro rest hwalk
    simp only [Relies, hwalk] at hrelies
    rw [← hsame hrelies.1, hphase] at hwalk
    cases hwalk
  · intro r phase rest hcounting
    simp only [Relies, hcounting] at hrelies
    rw [← hsame hrelies.1.1, hphase] at hcounting
    cases hcounting

theorem coordinator_quiet (hnot : ¬ Sealing w r) :
    (∀ t, Coordinator.owed w.coordinator r t = 0)
      ∧ ∀ k, Coordinator.doing k w.coordinator r = 0 := by
  unfold Sealing at hnot
  cases hc : w.coordinator with
  | idle | reclaiming | walk | replacing => exact ⟨fun _ => rfl, fun _ => rfl⟩
  | attachLoad | attachExchange =>
    simp only [hc] at hnot
    exact ⟨fun t => by simp [Coordinator.owed, toAttach, hnot], fun _ => rfl⟩
  | counting =>
    simp only [hc] at hnot
    exact ⟨fun t => by simp [Coordinator.owed, toAttach, one, hnot],
      fun k => by simp [Coordinator.doing, oneOf, hnot]⟩

theorem sum_eq_zero {β : Type} {share : β → Nat} {calls : List β}
    (h : ∀ (id : Nat) (call : β), calls[id]? = some call → share call = 0) :
    (calls.map share).sum = 0 := by
  rw [List.sum_eq_zero]
  intro n hn
  obtain ⟨call, hmem, rfl⟩ := List.mem_map.mp hn
  obtain ⟨id, hid⟩ := List.getElem?_of_mem hmem
  exact h id call hid

/-- Nobody has a count of a revision in hand once the calls of its fragments and its `Seal` have
returned. -/
theorem Settling.complete (h : Settling w) (hr : r ∈ w.pending) (hnot : ¬ Sealing w r)
    (hsettled : ∀ f, some f ∈ (w.revision r).slots → Settled w f) : (w.revision r).owing = [] := by
  rw [List.eq_nil_iff_forall_not_mem]
  intro t ht
  have hcount : 0 < owed w r t := by
    rw [h.books.coming r hr t]
    exact List.count_pos_iff.mpr ht
  have hcoordinator := (coordinator_quiet hnot).1 t
  cases t with
  | none =>
    have hcalls : (w.calls.map fun call => Call.owed call r none).sum = 0 := by
      refine sum_eq_zero fun id call _ => ?_
      cases hphase : call.phase <;> simp [Call.owed, hphase, one]
    simp only [owed, waiting, hcalls, hcoordinator] at hcount
    omega
  | some f =>
    have hf := hsettled f (h.books.named r f ht)
    obtain ⟨-, -, -, -, -, -, -, hwaiters⟩ := h.settled hf
    have hcalls : (w.calls.map fun call => Call.owed call r (some f)).sum = 0 := by
      refine sum_eq_zero fun id call hid => ?_
      by_cases hfragment : call.fragment = f
      · subst f
        obtain ⟨hwalk, hcounting⟩ := h.returned hf hid
        cases hphase : call.phase with
        | walk rest => exact absurd hphase (hwalk rest)
        | counting r phase rest => exact absurd hphase (hcounting r phase rest)
        | claim | write | storeState | exchangeWaiters | returned => simp [Call.owed, hphase]
      · cases hphase : call.phase <;> simp [Call.owed, hphase, one, hfragment, Ne.symm hfragment]
    simp only [owed, waiting, hwaiters, hcalls, hcoordinator, Option.getD_none,
      List.count_nil] at hcount
    omega

/-- A complete revision has been pushed and notified of once those that counted for it have
returned. -/
theorem Settling.notified (h : Settling w) (hr : Sealed w r) (hnil : (w.revision r).owing = [])
    (hnot : ¬ Sealing w r) (hsettled : ∀ f, some f ∈ (w.revision r).slots → Settled w f) :
    w.completions.count r = 1 ∧ w.notifications.count r = 1 := by
  have hdoing : ∀ k, doing k w r = 0 := by
    intro k
    have hcalls : (w.calls.map fun call => Call.doing k call r).sum = 0 := by
      refine sum_eq_zero fun id call hid => ?_
      cases hphase : call.phase with
      | counting r' phase rest =>
        by_cases heq : r' = r
        · subst r'
          have hrelies := h.relies id call hid
          simp only [Relies, hphase] at hrelies
          have hf := hsettled _ (hrelies.2.1 _ rfl).1
          exact absurd hphase ((h.returned hf hid).2 r phase rest)
        · simp [Call.doing, hphase, oneOf, heq]
      | _ => simp [Call.doing, hphase]
    simp only [doing, hcalls, (coordinator_quiet hnot).2]
  have hpushed := h.books.pushed r hr hnil
  have hnotified := h.books.notified r
  rw [hdoing] at hpushed hnotified
  omega

/-! ## Steps beside `Collect` -/

/-- `Collect` is not in progress. -/
def Coordinator.Apart (c : Coordinator ε) : Prop :=
  match c with
  | .reclaiming _ | .walk .. | .replacing .. => False
  | _ => True

/-- What the steps beside `Collect` and `Seal` leave to the coordinator. -/
structure Aside (w u : World α ε) : Prop where
  pushed : ∃ pushed, u.completed = pushed ++ w.completed
    ∧ u.completions = w.completions ++ pushed
  owing : ∀ r, (w.revision r).owing = [] → (u.revision r).owing = []
  failed : ∀ r, (w.revision r).failed = true → (u.revision r).failed = true
  slots : ∀ r, (u.revision r).slots = (w.revision r).slots
  state : ∀ f, (w.fragment f).state ≠ .pending → (u.fragment f).state = (w.fragment f).state
  resolved : ∀ f, w.resolved f = true → u.resolved f = true
  constructed : w.requirements.length ≤ u.requirements.length
  requirements : ∀ f, f < w.requirements.length → u.requirementsOf f = w.requirementsOf f
  coordinator : u.coordinator = w.coordinator
    ∨ Coordinator.Apart w.coordinator ∧ Coordinator.Apart u.coordinator
  rest : u = { u with
    exchange := w.exchange, latestSequence := w.latestSequence
    publishedSequence := w.publishedSequence, pending := w.pending, held := w.held
    stats := w.stats, abandoned := w.abandoned, collects := w.collects
    selections := w.selections }

theorem resolved_iff : w.resolved f = true ↔ ∃ call ∈ w.calls, call.fragment = f
    ∧ call.phase = .returned true ∧ World.stored call.outcome = .ready := by
  simp only [World.resolved, List.any_eq_true, Bool.and_eq_true, decide_eq_true_eq, and_assoc]

theorem resolved_set (hid : w.calls[id]? = some call) (hphase : call.phase ≠ .returned true)
    (hcalls : ∃ new, u.calls = w.calls.set id new) (h : w.resolved f = true) :
    u.resolved f = true := by
  rw [resolved_iff] at h ⊢
  obtain ⟨new, hcalls⟩ := hcalls
  obtain ⟨other, hmem, hfragment, hreturned, hready⟩ := h
  obtain ⟨j, hj⟩ := List.getElem?_of_mem hmem
  have hne : id ≠ j := by
    rintro rfl
    rw [hid] at hj
    cases hj
    exact hphase hreturned
  refine ⟨other, List.mem_of_getElem? (i := j) ?_, hfragment, hreturned, hready⟩
  rw [hcalls, List.getElem?_set_ne hne, hj]

/-- A waiter's access and what follows it. -/
theorem aside_settleWaiter (hresolved : ∀ f, w.resolved f = true → u.resolved f = true)
    (hcoordinator : u.coordinator = w.coordinator
      ∨ Coordinator.Apart w.coordinator ∧ Coordinator.Apart u.coordinator)
    (hu : u = { (w.settleWaiter answer r t phase).1 with
      calls := u.calls, coordinator := u.coordinator }) : Aside w u := by
  have hpushed : ∃ pushed, (w.settleWaiter answer r t phase).1.completed = pushed ++ w.completed
      ∧ (w.settleWaiter answer r t phase).1.completions = w.completions ++ pushed := by
    cases phase with
    | push =>
      simp only [World.settleWaiter]
      split
      · exact ⟨[r], rfl, rfl⟩
      · exact ⟨[], rfl, (List.append_nil _).symm⟩
    | readState | exchangeFailed =>
      simp only [World.settleWaiter]
      split <;> exact ⟨[], rfl, (List.append_nil _).symm⟩
    | writeError | countDown | notify => exact ⟨[], rfl, (List.append_nil _).symm⟩
  have howing : ∀ r', (w.revision r').owing = [] →
      ((w.settleWaiter answer r t phase).1.revision r').owing = [] := by
    intro r' hnil
    have hset : ∀ rev : Revision ε, ((w.revision r).owing = [] → rev.owing = []) →
        ((w.setRevision r rev).revision r').owing = [] := by
      intro rev hrev
      rw [revision_setRevision]
      split
      · subst r'
        exact hrev hnil
      · exact hnil
    cases phase with
    | exchangeFailed =>
      simp only [World.settleWaiter]
      split
      · exact hnil
      · exact hset _ fun h => h
    | writeError => exact hset _ fun h => h
    | countDown => exact hset _ fun h => by simp [h]
    | readState | push =>
      simp only [World.settleWaiter]
      split <;> exact hnil
    | notify => exact hnil
  have hkept : Kept none w (w.settleWaiter answer r t phase).1 := kept_settleWaiter none
  have hfragment : u.fragment = w.fragment := by
    rw [hu, settleWaiter_eq]
  have hrequirements : u.requirements = w.requirements := by
    rw [hu, settleWaiter_eq]
  refine ⟨?_, ?_, ?_, ?_, ?_, hresolved, ?_, ?_, hcoordinator, ?_⟩
  · rw [hu]
    exact hpushed
  · rw [hu]
    exact howing
  · rw [hu]
    exact hkept.failed
  · intro r'
    rw [hu]
    exact slots_settleWaiter
  · intro f _
    rw [hfragment]
  · rw [hrequirements]
  · intro f _
    unfold World.requirementsOf
    rw [hrequirements]
  · rw [hu, settleWaiter_eq]

/-- A call goes on and writes to its fragment at most. -/
theorem aside_goto {phase : SettlePhase} (hid : w.calls[id]? = some call)
    (hphase : call.phase ≠ .returned true) {v : World α ε}
    (hv : v = { w with fragment := v.fragment })
    (hstate : ∀ f, (w.fragment f).state ≠ .pending →
      (v.fragment f).state = (w.fragment f).state) : Aside w (v.goto id call phase) := by
  have hresolved : ∀ f, w.resolved f = true → (v.goto id call phase).resolved f = true := by
    refine fun f hf => resolved_set hid hphase ⟨{ call with phase }, ?_⟩ hf
    rw [hv]
    rfl
  have hrest : v.goto id call phase = { w with
      fragment := v.fragment, calls := (v.goto id call phase).calls } := by
    rw [hv]
    rfl
  refine ⟨⟨[], ?_, ?_⟩, ?_, ?_, ?_, hstate, hresolved, ?_, ?_, .inl ?_, ?_⟩
  · rw [hrest]
    rfl
  · rw [hrest]
    simp
  · rw [hrest]
    exact fun _ h => h
  · rw [hrest]
    exact fun _ h => h
  · rw [hrest]
    exact fun _ => rfl
  · rw [hrest]
  · rw [hrest]
    exact fun _ _ => rfl
  · rw [hrest]
  · rw [hrest]

theorem aside_settle (h : Settling w) (hid : w.calls[id]? = some call) :
    Aside w (w.settle id answer call) := by
  have hrelies := h.relies id call hid
  have hfragment : ∀ fragment : Fragment α ε,
      ((w.fragment call.fragment).state = .pending
        ∨ fragment.state = (w.fragment call.fragment).state) →
      ∀ f, (w.fragment f).state ≠ .pending →
        ((w.setFragment call.fragment fragment).fragment f).state = (w.fragment f).state := by
    intro fragment hsame f hf
    rw [fragment_setFragment]
    split
    · subst f
      exact hsame.resolve_left hf
    · rfl
  cases hphase : call.phase with
  | claim =>
    have hne : call.phase ≠ .returned true := by simp [hphase]
    simp only [World.settle, hphase]
    split
    · exact aside_goto hid hne rfl fun _ _ => rfl
    · exact aside_goto hid hne rfl (hfragment _ (.inr rfl))
  | write =>
    have hne : call.phase ≠ .returned true := by simp [hphase]
    simp only [World.settle, hphase]
    exact aside_goto hid hne rfl (hfragment _ (.inr rfl))
  | storeState =>
    have hne : call.phase ≠ .returned true := by simp [hphase]
    simp only [Relies, hphase] at hrelies
    simp only [World.settle, hphase]
    exact aside_goto hid hne rfl (hfragment _ (.inl hrelies.2))
  | exchangeWaiters =>
    have hne : call.phase ≠ .returned true := by simp [hphase]
    simp only [World.settle, hphase]
    exact aside_goto hid hne rfl (hfragment _ (.inr rfl))
  | walk rest =>
    have hne : call.phase ≠ .returned true := by simp [hphase]
    cases rest with
    | nil =>
      simp only [World.settle, hphase]
      exact aside_goto hid hne rfl fun _ _ => rfl
    | cons r rest =>
      simp only [World.settle, hphase]
      split <;> exact aside_goto hid hne rfl fun _ _ => rfl
  | counting r phase rest =>
    have hne : call.phase ≠ .returned true := by simp [hphase]
    have hcalls : (w.settleWaiter answer r (some call.fragment) phase).1.calls = w.calls := by
      rw [settleWaiter_eq]
    have hcoordinator : (w.settleWaiter answer r (some call.fragment) phase).1.coordinator
        = w.coordinator := by
      rw [settleWaiter_eq]
    simp only [World.settle, hphase]
    split
    · rename_i phase' _
      refine aside_settleWaiter (fun f hf => resolved_set hid hne
        ⟨{ call with phase := .counting r phase' rest }, ?_⟩ hf) (.inl hcoordinator) rfl
      simp only [World.goto, hcalls]
    · refine aside_settleWaiter (fun f hf => resolved_set hid hne
        ⟨{ call with phase := .walk rest }, ?_⟩ hf) (.inl hcoordinator) rfl
      simp only [World.goto, hcalls]
  | returned result =>
    simp only [World.settle, hphase]
    exact ⟨⟨[], rfl, by simp⟩, fun _ h => h, fun _ h => h, fun _ => rfl, fun _ _ => rfl,
      fun _ h => h, le_rfl, fun _ _ => rfl, .inl rfl, rfl⟩

theorem apart_attach : Coordinator.Apart (World.attach r rest : Coordinator ε) := by
  cases rest <;> trivial

theorem aside_refl : Aside w w :=
  ⟨⟨[], rfl, (List.append_nil _).symm⟩, fun _ h => h, fun _ h => h, fun _ => rfl, fun _ _ => rfl,
    fun _ h => h, le_rfl, fun _ _ => rfl, .inl rfl, rfl⟩

/-- The coordinator goes on with `Seal`. -/
theorem aside_coordinate (hc : Coordinator.Apart w.coordinator)
    (hs : w.coordinate answer w.coordinator = some u) : Aside w u := by
  cases hcoordinator : w.coordinator with
  | idle =>
    rw [hcoordinator] at hs
    cases hs
  | reclaiming | walk | replacing =>
    rw [hcoordinator] at hc
    exact hc.elim
  | attachLoad r f rest =>
    rw [hcoordinator] at hs
    simp only [World.coordinate] at hs
    split at hs <;> cases hs <;> exact { aside_refl with coordinator := .inr ⟨hc, trivial⟩ }
  | attachExchange r f rest =>
    rw [hcoordinator] at hs
    simp only [World.coordinate] at hs
    split at hs
    · cases hs
      exact { aside_refl with coordinator := .inr ⟨hc, trivial⟩ }
    split at hs <;> cases hs
    · refine { aside_refl with state := fun g _ => ?_, coordinator := .inr ⟨hc, apart_attach⟩ }
      rw [fragment_setFragment]
      split <;> simp_all
    · exact aside_refl
  | counting r t phase rest =>
    rw [hcoordinator] at hs
    simp only [World.coordinate] at hs
    have hcalls : (w.settleWaiter answer r t phase).1.calls = w.calls := by
      rw [settleWaiter_eq]
    have hresolved : ∀ f, w.resolved f = true →
        (w.settleWaiter answer r t phase).1.resolved f = true := by
      intro f hf
      rwa [World.resolved, hcalls]
    split at hs <;> cases hs
    · exact aside_settleWaiter hresolved (.inr ⟨hc, trivial⟩) rfl
    · refine aside_settleWaiter hresolved (.inr ⟨hc, ?_⟩) rfl
      simp only
      split
      · exact apart_attach
      · trivial

theorem aside_create (requirements : List Requirement) :
    Aside w { w with requirements := w.requirements ++ [requirements] } := by
  refine { aside_refl with constructed := by simp, requirements := fun f hf => ?_ }
  exact List.getD_append _ _ _ _ hf

theorem aside_call (f : Nat) (outcome : Except ε α) :
    Aside w { w with calls := w.calls ++ [{ fragment := f, outcome }] } := by
  refine { aside_refl with resolved := fun g hg => ?_ }
  rw [resolved_iff] at hg ⊢
  obtain ⟨call, hmem, h⟩ := hg
  exact ⟨call, List.mem_append_left _ hmem, h⟩

/-! ## What `Collect` keeps track of -/

def taken (w : World α ε) : List Nat :=
  match w.coordinator with
  | .walk _ taken _ _ => taken
  | _ => []

def newest (w : World α ε) : Option Nat :=
  match w.coordinator with
  | .walk _ _ newest _ => newest
  | _ => none

/-- The newest revision published, or about to be. -/
def top (w : World α ε) : Nat := max w.publishedSequence ((newest w).getD 0)

def Resolved (w : World α ε) (r : Nat) : Prop :=
  ∀ f, some f ∈ (w.revision r).slots → w.resolved f = true

def Ready (w : World α ε) (r : Nat) : Prop :=
  ∀ f, some f ∈ (w.revision r).slots → (w.fragment f).state = .ready

/-- What was due when `Collect` began is complete by the time the stack is taken, and is in what was
taken until something as new is. -/
def DueKept (w : World α ε) : Prop :=
  match w.coordinator with
  | .reclaiming due => ∀ r ∈ due, Sealed w r ∧ Resolved w r
  | .walk due taken _ _ => ∀ r ∈ due, (Sealed w r ∧ Resolved w r)
      ∧ (r ≤ top w ∨ r ∈ taken ∧ r ∈ w.pending)
  | .replacing due _ _ => ∀ r ∈ due, r ≤ w.publishedSequence
  | _ => True

structure Collecting (w : World α ε) : Prop where
  settling : Settling w
  stack : ∀ r, (w.completed ++ taken w).count r ≤ w.completions.count r
  stacked : ∀ r ∈ w.pending, (w.completed ++ taken w).count r = w.completions.count r
  past : ∀ r, Sealed w r → r ∉ w.pending → r ≤ top w ∨ (w.revision r).failed = true
  gone : ∀ r, Sealed w r → r ∉ w.pending → r ∉ w.abandoned → (w.revision r).owing = []
  chosen : ∀ r, newest w = some r →
    Sealed w r ∧ r ∉ w.pending ∧ w.publishedSequence < r ∧ Ready w r
  due : DueKept w
  stats : w.stats.sealed = w.stats.published + w.stats.failed + w.stats.superseded
    + w.stats.abandoned + w.pending.length + (newest w).toList.length

theorem Aside.same (h : Aside w u) : taken u = taken w ∧ newest u = newest w ∧ top u = top w := by
  have hpublished : u.publishedSequence = w.publishedSequence := by rw [h.rest]
  have hboth : taken u = taken w ∧ newest u = newest w := by
    rcases h.coordinator with hc | ⟨hw, hu⟩
    · unfold taken Proof.newest
      rw [hc]
      exact ⟨rfl, rfl⟩
    · unfold taken Proof.newest
      cases hcw : w.coordinator <;> rw [hcw] at hw <;>
        cases hcu : u.coordinator <;> rw [hcu] at hu <;>
        first | exact ⟨rfl, rfl⟩ | exact hw.elim | exact hu.elim
  exact ⟨hboth.1, hboth.2, by rw [top, top, hpublished, hboth.2]⟩

theorem Aside.sealed (h : Aside w u) : Sealed u r ↔ Sealed w r := by
  have hlatest : u.latestSequence = w.latestSequence := by rw [h.rest]
  rw [Sealed, Sealed, hlatest]

theorem Aside.keptResolved (h : Aside w u) (hr : Resolved w r) : Resolved u r := by
  intro f hf
  rw [h.slots] at hf
  exact h.resolved f (hr f hf)

theorem Aside.keptReady (h : Aside w u) (hr : Ready w r) : Ready u r := by
  intro f hf
  rw [h.slots] at hf
  rw [h.state f (by simp [hr f hf]), hr f hf]

theorem Aside.due (h : Aside w u) (hdue : DueKept w) : DueKept u := by
  have hpublished : u.publishedSequence = w.publishedSequence := by rw [h.rest]
  have hpending : u.pending = w.pending := by rw [h.rest]
  rcases h.coordinator with hc | ⟨-, hu⟩
  · unfold DueKept at hdue ⊢
    rw [hc]
    split at hdue
    · exact fun r hr => ⟨h.sealed.mpr (hdue r hr).1, h.keptResolved (hdue r hr).2⟩
    · intro r hr
      rw [h.same.2.2, hpending]
      exact ⟨⟨h.sealed.mpr (hdue r hr).1.1, h.keptResolved (hdue r hr).1.2⟩, (hdue r hr).2⟩
    · rw [hpublished]
      exact hdue
    · trivial
  · unfold DueKept
    cases hcu : u.coordinator <;> rw [hcu] at hu <;> first | trivial | exact hu.elim

theorem Collecting.aside (h : Collecting w) (ha : Aside w u) (hsettling : Settling u) :
    Collecting u := by
  obtain ⟨htaken, hnewest, htop⟩ := ha.same
  obtain ⟨pushed, hcompleted, hcompletions⟩ := ha.pushed
  have hpublished : u.publishedSequence = w.publishedSequence := by rw [ha.rest]
  have hpending : u.pending = w.pending := by rw [ha.rest]
  have habandoned : u.abandoned = w.abandoned := by rw [ha.rest]
  have hstats : u.stats = w.stats := by rw [ha.rest]
  refine ⟨hsettling, ?_, ?_, ?_, ?_, ?_, ha.due h.due, ?_⟩
  · intro r
    have := h.stack r
    simp only [htaken, hcompleted, hcompletions, List.count_append] at this ⊢
    omega
  · intro r hr
    have := h.stacked r (hpending ▸ hr)
    simp only [htaken, hcompleted, hcompletions, List.count_append] at this ⊢
    omega
  · intro r hr hnot
    rw [htop]
    exact (h.past r (ha.sealed.mp hr) (hpending ▸ hnot)).imp_right (ha.failed r)
  · intro r hr hnot hab
    exact ha.owing r (h.gone r (ha.sealed.mp hr) (hpending ▸ hnot) (habandoned ▸ hab))
  · intro r hr
    rw [hnewest] at hr
    obtain ⟨hsealed, hnot, hlt, hready⟩ := h.chosen r hr
    exact ⟨ha.sealed.mpr hsealed, hpending ▸ hnot, hpublished ▸ hlt, ha.keptReady hready⟩
  · rw [hstats, hpending, hnewest]
    exact h.stats

/-! ## `Seal` and `Collect` -/

theorem collecting_sealDraft (h : Collecting w) (hc : w.coordinator = .idle) {draft : Draft}
    (hsettling : Settling (w.sealDraft draft)) : Collecting (w.sealDraft draft) := by
  unfold World.sealDraft at hsettling ⊢
  split at hsettling
  · rename_i hdraft
    rw [if_pos hdraft]
    exact h
  rename_i hdraft
  rw [if_neg hdraft]
  have htaken : taken w = [] ∧ newest w = none := by
    unfold taken newest
    rw [hc]
    exact ⟨rfl, rfl⟩
  have hnone : ∀ c : Coordinator ε, Coordinator.Apart c → ∀ v : World α ε, v.coordinator = c →
      taken v = [] ∧ newest v = none := by
    intro c hapart v hv
    unfold taken newest
    rw [hv]
    cases c <;> first | exact ⟨rfl, rfl⟩ | exact hapart.elim
  have hnew : ¬ Sealed w (w.latestSequence + 1) := fun hs => by have := hs.2; omega
  have hfresh : w.completions.count (w.latestSequence + 1) = 0 := by
    have := h.settling.books.unpushed _ fun hboth => hnew hboth.1
    omega
  refine ⟨hsettling, ?_, ?_, ?_, ?_, ?_, ?_, ?_⟩
  · intro r
    rw [(hnone _ apart_attach _ rfl).1]
    have := h.stack r
    rwa [htaken.1] at this
  · intro r hr
    rw [(hnone _ apart_attach _ rfl).1]
    simp only [List.mem_append, List.mem_singleton] at hr
    have hstack := h.stack r
    rw [htaken.1] at hstack
    rcases hr with hr | rfl
    · have := h.stacked r hr
      rwa [htaken.1] at this
    · simp only [World.setRevision] at hstack ⊢
      omega
  · intro r hr hnot
    simp only [List.mem_append, List.mem_singleton, not_or] at hnot
    have hold : Sealed w r := ⟨hr.1, by have := hr.2; simp only at this; omega⟩
    rw [top, (hnone _ apart_attach _ rfl).2]
    have hpast := h.past r hold hnot.1
    rw [top, htaken.2] at hpast
    simp only [World.setRevision, Function.update_of_ne hnot.2]
    exact hpast
  · intro r hr hnot hab
    simp only [List.mem_append, List.mem_singleton, not_or] at hnot
    have hold : Sealed w r := ⟨hr.1, by have := hr.2; simp only at this; omega⟩
    simp only [World.setRevision, Function.update_of_ne hnot.2]
    exact h.gone r hold hnot.1 hab
  · intro r hr
    rw [(hnone _ apart_attach _ rfl).2] at hr
    cases hr
  · have hapart : Coordinator.Apart (World.attach (w.latestSequence + 1)
        draft.slots.reduceOption.eraseDups : Coordinator ε) := apart_attach
    unfold DueKept
    simp only
    cases hattach : (World.attach (w.latestSequence + 1)
        draft.slots.reduceOption.eraseDups : Coordinator ε) <;>
      first | trivial | (rw [hattach] at hapart; exact hapart.elim)
  · have hstats := h.stats
    rw [htaken.2] at hstats
    rw [(hnone _ apart_attach _ rfl).2]
    simp only [Option.toList_none, List.length_nil, World.setRevision, List.length_append,
      List.length_singleton] at hstats ⊢
    omega

theorem resolved_ready (h : Settling w) (hr : Resolved w r) :
    Ready w r ∧ (w.revision r).failed = false
      ∧ ∀ f, some f ∈ (w.revision r).slots → Settled w f := by
  have hfragment : ∀ f, some f ∈ (w.revision r).slots →
      (w.fragment f).state = .ready ∧ Settled w f := by
    intro f hf
    obtain ⟨call, hmem, rfl, hphase, hready⟩ := resolved_iff.mp (hr f hf)
    obtain ⟨id, hid⟩ := List.getElem?_of_mem hmem
    have hrelies := h.relies id call hid
    simp only [Relies, hphase] at hrelies
    exact ⟨hrelies.2.1.trans hready, call, hmem, rfl, hphase⟩
  refine ⟨fun f hf => (hfragment f hf).1, ?_, fun f hf => (hfragment f hf).2⟩
  by_contra hfailed
  obtain ⟨f, hf, hstate⟩ := h.books.blamed r (by simpa using hfailed)
  rw [(hfragment f hf).1] at hstate
  cases hstate

/-- The stack is taken: whatever was due is on it, or no longer pending. -/
theorem collecting_take (h : Collecting w) {due : List Nat} (hc : w.coordinator = .reclaiming due)
    (hsettling : Settling { w with completed := [], coordinator := .walk due w.completed none [] }) :
    Collecting { w with completed := [], coordinator := .walk due w.completed none [] } := by
  have htaken : taken w = [] ∧ newest w = none := by
    unfold taken newest
    rw [hc]
    exact ⟨rfl, rfl⟩
  have htop : top w = w.publishedSequence := by
    rw [top, htaken.2]
    exact Nat.max_zero _
  have hstack : ∀ r, (w.completed ++ taken w).count r = w.completed.count r := by
    intro r
    rw [htaken.1, List.append_nil]
  refine ⟨hsettling, ?_, ?_, ?_, h.gone, ?_, ?_, ?_⟩
  · exact fun r => (hstack r) ▸ h.stack r
  · exact fun r hr => (hstack r) ▸ h.stacked r hr
  · intro r hr hnot
    have := h.past r hr hnot
    rw [htop] at this
    exact this.imp_left fun hle => hle.trans (le_max_left _ _)
  · intro r hr
    cases hr
  · have hdue := h.due
    rw [DueKept, hc] at hdue
    intro r hr
    obtain ⟨hsealed, hresolved⟩ := hdue r hr
    refine ⟨⟨hsealed, hresolved⟩, ?_⟩
    obtain ⟨-, hfailed, hsettled⟩ := resolved_ready h.settling hresolved
    have hnot : ¬ Sealing w r := by
      unfold Sealing
      rw [hc]
      exact fun h => h
    by_cases hpending : r ∈ w.pending
    · right
      have hnil := h.settling.complete hpending hnot hsettled
      have hone := (h.settling.notified hsealed hnil hnot hsettled).1
      have hcount := h.stacked r hpending
      rw [hstack, hone] at hcount
      exact ⟨List.count_pos_iff.mp (by omega), hpending⟩
    · left
      have hpast := h.past r hsealed hpending
      rw [htop, hfailed] at hpast
      exact (hpast.resolve_right (by simp)).trans (le_max_left _ _)
  · have hstats := h.stats
    rw [htaken.2] at hstats
    exact hstats

theorem length_drop {l : List Nat} (h : l.Nodup) (hr : r ∈ l) :
    (l.filter (· ≠ r)).length + 1 = l.length := by
  have herase : l.filter (· ≠ r) = l.erase r := by
    rw [h.erase_eq_filter]
    congr 1
    funext x
    by_cases hx : x = r <;> simp [hx]
  rw [herase, List.length_erase_of_mem hr]
  have := List.length_pos_of_mem hr
  omega

/-- A completed revision is looked at: it has failed, or something as new is to be published. -/
theorem Collecting.passed (h : Collecting w) {due taken : List Nat} {newest newest' : Option Nat}
    {failures failures' : List (Failure ε)} {stats : Stats}
    (hc : w.coordinator = .walk due (r :: taken) newest failures)
    (htop : top w ≤ max w.publishedSequence (newest'.getD 0))
    (hpast : r ∈ w.pending →
      r ≤ max w.publishedSequence (newest'.getD 0) ∨ (w.revision r).failed = true)
    (hchosen : ∀ r', newest' = some r' → newest = some r'
      ∨ r' = r ∧ r ∈ w.pending ∧ w.publishedSequence < r ∧ (w.revision r).failed = false)
    (hstats : stats.sealed = stats.published + stats.failed + stats.superseded + stats.abandoned
      + (w.pending.filter (· ≠ r)).length + newest'.toList.length)
    (hsettling : Settling { w with
      pending := w.pending.filter (· ≠ r), stats
      coordinator := .walk due taken newest' failures' }) :
    Collecting { w with
      pending := w.pending.filter (· ≠ r), stats
      coordinator := .walk due taken newest' failures' } := by
  have htaken : Proof.taken w = r :: taken ∧ Proof.newest w = newest := by
    unfold Proof.taken Proof.newest
    rw [hc]
    exact ⟨rfl, rfl⟩
  have hmem : ∀ r', r' ∈ w.pending.filter (· ≠ r) ↔ r' ∈ w.pending ∧ r' ≠ r := by
    intro r'
    simp
  have hcounted : r ∈ w.pending → (w.revision r).owing = [] := by
    intro hr
    by_contra hne
    have hzero := h.settling.books.unpushed r fun hboth => hne hboth.2
    have hstacked := h.stacked r hr
    rw [htaken.1, List.count_append, List.count_cons_self] at hstacked
    omega
  refine ⟨hsettling, ?_, ?_, ?_, ?_, ?_, ?_, hstats⟩
  · intro r'
    have hstack := h.stack r'
    rw [htaken.1] at hstack
    simp only [List.count_append, List.count_cons] at hstack
    show (w.completed ++ taken).count r' ≤ w.completions.count r'
    rw [List.count_append]
    omega
  · intro r' hr'
    obtain ⟨hr', hne⟩ := (hmem r').mp hr'
    have hstacked := h.stacked r' hr'
    rw [htaken.1] at hstacked
    simp only [List.count_append, List.count_cons, beq_iff_eq, Ne.symm hne, if_false,
      Nat.add_zero] at hstacked
    show (w.completed ++ taken).count r' = w.completions.count r'
    rw [List.count_append]
    exact hstacked
  · intro r' hr' hnot
    by_cases hpending : r' ∈ w.pending
    · have heq : r' = r := by
        by_contra hne
        exact hnot ((hmem r').mpr ⟨hpending, hne⟩)
      subst r'
      exact hpast hpending
    · exact (h.past r' hr' hpending).imp_left fun hle => hle.trans htop
  · intro r' hr' hnot hab
    by_cases hpending : r' ∈ w.pending
    · have heq : r' = r := by
        by_contra hne
        exact hnot ((hmem r').mpr ⟨hpending, hne⟩)
      subst r'
      exact hcounted hpending
    · exact h.gone r' hr' hpending hab
  · intro r' hr'
    rcases hchosen r' hr' with hold | ⟨rfl, hpending, hlt, hfailed⟩
    · obtain ⟨hsealed, hnot, hlt, hready⟩ := h.chosen r' (htaken.2.trans hold)
      exact ⟨hsealed, fun hp => hnot ((hmem r').mp hp).1, hlt, hready⟩
    · refine ⟨h.settling.pending r' hpending, fun hp => ((hmem r').mp hp).2 rfl, hlt, ?_⟩
      intro f hf
      obtain ⟨hsettled, hmarked⟩ := h.settling.books.counted r' f hf (by simp [hcounted hpending])
      have hnot : (w.fragment f).state ≠ .failed := fun hstate => by simp [hmarked hstate] at hfailed
      show (w.fragment f).state = .ready
      cases hstate : (w.fragment f).state with
      | ready => rfl
      | pending => exact absurd hstate hsettled
      | failed => exact absurd hstate hnot
  · have hdue := h.due
    rw [DueKept, hc] at hdue
    intro r' hr'
    obtain ⟨hkept, hplace⟩ := hdue r' hr'
    refine ⟨hkept, ?_⟩
    show r' ≤ max w.publishedSequence (newest'.getD 0) ∨ r' ∈ taken ∧ r' ∈ w.pending.filter (· ≠ r)
    rw [hmem]
    rcases hplace with hle | ⟨htake, hpending⟩
    · exact .inl (hle.trans htop)
    · by_cases heq : r' = r
      · subst r'
        refine .inl ((hpast hpending).resolve_right ?_)
        rw [(resolved_ready h.settling hkept.2).2.1]
        simp
      · exact .inr ⟨List.mem_of_ne_of_mem heq htake, hpending, heq⟩

theorem filter_absent {l : List Nat} (hr : r ∉ l) : l.filter (· ≠ r) = l := by
  rw [List.filter_eq_self]
  intro x hx
  simp only [ne_eq, decide_not, Bool.not_eq_true', decide_eq_false_iff_not]
  rintro rfl
  exact hr hx

theorem collecting_one (h : Collecting w) {due taken : List Nat} {newest : Option Nat}
    {failures : List (Failure ε)} (hc : w.coordinator = .walk due (r :: taken) newest failures) :
    Collecting (w.collectOne due r taken newest failures) := by
  have hsettling : Settling (w.collectOne due r taken newest failures) := by
    refine settling_collectOne h.settling ?_
    rw [hc]
    trivial
  have htaken : Proof.taken w = r :: taken ∧ Proof.newest w = newest := by
    unfold Proof.taken Proof.newest
    rw [hc]
    exact ⟨rfl, rfl⟩
  have hstats := h.stats
  rw [htaken.2] at hstats
  have htop : top w = max w.publishedSequence (newest.getD 0) := by
    rw [top, htaken.2]
  unfold World.collectOne at hsettling ⊢
  split
  · rename_i hr
    rw [if_pos hr] at hsettling
    have hsame := filter_absent hr
    have hsettling' : Settling { w with
        pending := w.pending.filter (· ≠ r), stats := w.stats
        coordinator := .walk due taken newest failures } := by
      rw [hsame]
      exact hsettling
    have hpassed := h.passed hc htop.le (fun hp => absurd hp hr) (fun _ hn => .inl hn)
      (by rw [hsame]; exact hstats) hsettling'
    rw [hsame] at hpassed
    exact hpassed
  rename_i hr
  rw [not_not] at hr
  rw [if_neg (not_not.mpr hr)] at hsettling
  have hlength := length_drop h.settling.apart hr
  simp only at hsettling ⊢
  split
  · rename_i hfailed
    rw [if_pos hfailed] at hsettling
    exact h.passed hc htop.le (fun _ => .inr hfailed) (fun _ hn => .inl hn) (by simp only; omega)
      hsettling
  rename_i hfailed
  rw [if_neg hfailed] at hsettling
  split
  · rename_i hold
    rw [if_pos hold] at hsettling
    refine h.passed hc htop.le (fun _ => .inl ?_) (fun _ hn => .inl hn) (by simp only; omega)
      hsettling
    rcases hold with hle | ⟨n, hn, hlt⟩
    · exact hle.trans (le_max_left _ _)
    · rw [Option.mem_def] at hn
      subst newest
      exact hlt.le.trans (le_max_right _ _)
  · rename_i hold
    rw [if_neg hold] at hsettling
    simp only [not_or, not_le, not_exists, not_and, not_lt] at hold
    refine h.passed hc ?_ (fun _ => .inl (le_max_right _ _)) ?_ ?_ hsettling
    · rw [htop]
      refine max_le (le_max_left _ _) ?_
      cases newest with
      | none => exact Nat.zero_le _
      | some n => exact (hold.2 n rfl).trans (le_max_right _ _)
    · intro r' hr'
      cases hr'
      exact .inr ⟨rfl, hr, hold.1, by simpa using hfailed⟩
    · cases newest with
      | none =>
        simp only [Option.toList_none, Option.toList_some, List.length_nil, List.length_singleton,
          Option.isSome_none, Bool.false_eq_true, if_false] at hstats ⊢
        omega
      | some n =>
        simp only [Option.toList_some, List.length_singleton, Option.isSome_some,
          if_true] at hstats ⊢
        omega

/-- The coordinator leaves the walk, or never began it. -/
def Offering (c : Coordinator ε) (due : List Nat) : Prop :=
  c = .idle ∨ ∃ sequence failures, c = .replacing due sequence failures

theorem Offering.same {due : List Nat} (h : Offering u.coordinator due) :
    taken u = [] ∧ newest u = none ∧ top u = u.publishedSequence := by
  have hboth : taken u = [] ∧ newest u = none := by
    unfold taken newest
    rcases h with hc | ⟨sequence, failures, hc⟩ <;> rw [hc] <;> exact ⟨rfl, rfl⟩
  exact ⟨hboth.1, hboth.2, by rw [top, hboth.2]; exact Nat.max_zero _⟩

/-- The newest complete revision becomes the one to be published. -/
theorem collecting_assemble (h : Collecting w) {due : List Nat} {newest : Option Nat}
    {failures : List (Failure ε)} (hc : w.coordinator = .walk due [] newest failures)
    (hu : u = { w.assemble newest with
      exchange := u.exchange, coordinator := u.coordinator, held := u.held
      collects := u.collects })
    (hoffering : Offering u.coordinator due) (hsettling : Settling u) :
    Collecting u ∧ ∀ r ∈ due, r ≤ u.publishedSequence := by
  have hnone : taken w = [] ∧ Proof.newest w = newest := by
    unfold taken Proof.newest
    rw [hc]
    exact ⟨rfl, rfl⟩
  obtain ⟨htaken, hnewest, htop⟩ := hoffering.same
  -- what is published now is the greatest so far, and the pending revisions are those after it
  have hpublished : u.publishedSequence = top w := by
    rw [hu, top, hnone.2]
    cases newest with
    | none => exact (Nat.max_zero _).symm
    | some n => exact (max_eq_right (h.chosen n hnone.2).2.2.1.le).symm
  have hrevision : u.revision = w.revision := by
    rw [hu]
    cases newest <;> rfl
  have hsealed : ∀ r, Sealed u r ↔ Sealed w r := by
    intro r
    have hlatest : u.latestSequence = w.latestSequence := by
      rw [hu]
      cases newest <;> rfl
    rw [Sealed, Sealed, hlatest]
  have hstack : u.completed = w.completed ∧ u.completions = w.completions := by
    rw [hu]
    cases newest <;> exact ⟨rfl, rfl⟩
  have hpending : ∀ r, r ∈ u.pending → r ∈ w.pending := by
    intro r hr
    rw [hu] at hr
    cases newest with
    | none => exact hr
    | some n => exact List.mem_of_mem_filter hr
  have hleft : ∀ r, r ∈ w.pending → r ∉ u.pending → r ≤ top w ∧ r ∈ u.abandoned := by
    intro r hr hnot
    rw [← hpublished]
    rw [hu] at hnot ⊢
    cases newest with
    | none => exact absurd hr hnot
    | some n =>
      have hlt : r < n := by
        by_contra hge
        exact hnot (List.mem_filter.mpr ⟨hr, by simpa using hge⟩)
      exact ⟨hlt.le, List.mem_append_right _ (List.mem_filter.mpr ⟨hr, by simpa using hlt⟩)⟩
  have habandoned : ∀ r, r ∈ w.abandoned → r ∈ u.abandoned := by
    intro r hr
    rw [hu]
    cases newest with
    | none => exact hr
    | some n => exact List.mem_append_left _ hr
  have hdue : ∀ r ∈ due, r ≤ u.publishedSequence := by
    have hkept := h.due
    rw [DueKept, hc] at hkept
    intro r hr
    rw [hpublished]
    exact (hkept r hr).2.resolve_right fun hmem => List.not_mem_nil hmem.1
  refine ⟨⟨hsettling, ?_, ?_, ?_, ?_, ?_, ?_, ?_⟩, hdue⟩
  · intro r
    have := h.stack r
    rwa [hnone.1, ← hstack.1, ← hstack.2, ← htaken] at this
  · intro r hr
    have := h.stacked r (hpending r hr)
    rwa [hnone.1, ← hstack.1, ← hstack.2, ← htaken] at this
  · intro r hr hnot
    rw [htop, hpublished, hrevision]
    by_cases hp : r ∈ w.pending
    · exact .inl (hleft r hp hnot).1
    · exact h.past r ((hsealed r).mp hr) hp
  · intro r hr hnot hab
    rw [hrevision]
    by_cases hp : r ∈ w.pending
    · exact absurd (hleft r hp hnot).2 hab
    · exact h.gone r ((hsealed r).mp hr) hp fun hmem => hab (habandoned r hmem)
  · intro r hr
    rw [hnewest] at hr
    cases hr
  · unfold DueKept
    rcases hoffering with hcu | ⟨sequence, failures, hcu⟩ <;> rw [hcu]
    · trivial
    · exact hdue
  · have hstats := h.stats
    rw [hnone.2] at hstats
    rw [hnewest, hu]
    cases newest with
    | none => exact hstats
    | some n =>
      have hle : (w.pending.filter fun p => ¬ p < n).length ≤ w.pending.length :=
        List.length_filter_le _ _
      simp only [World.assemble, Option.toList_some, Option.toList_none, List.length_singleton,
        List.length_nil] at hstats ⊢
      omega

/-- `Collect` returns. -/
theorem Collecting.finished (h : Collecting w) {due : List Nat} (hc : Offering w.coordinator due)
    (hu : u = { w with
      exchange := u.exchange, coordinator := .idle, held := u.held, collects := u.collects })
    (hsettling : Settling u) : Collecting u := by
  obtain ⟨htaken, hnewest, htop⟩ := hc.same
  have hidle : u.coordinator = .idle := by rw [hu]
  have hfree : Offering u.coordinator [] := .inl hidle
  obtain ⟨htaken', hnewest', htop'⟩ := hfree.same
  refine ⟨hsettling, ?_, ?_, ?_, ?_, ?_, ?_, ?_⟩
  · rw [htaken', ← htaken, hu]
    exact h.stack
  · rw [htaken', ← htaken, hu]
    exact h.stacked
  · have hpast := h.past
    rw [htop] at hpast
    rw [htop', hu]
    exact hpast
  · rw [hu]
    exact h.gone
  · rw [hnewest']
    intro r hr
    cases hr
  · rw [DueKept, hidle]
    trivial
  · rw [hnewest', ← hnewest, hu]
    exact h.stats

/-- The exchange, and what was selected from it, are not the books' business. -/
theorem Collecting.exchange (h : Collecting w) (e : Exchange.World Assembled)
    (selections : List Assembled) (hsettling : Settling { w with exchange := e, selections }) :
    Collecting { w with exchange := e, selections } :=
  ⟨hsettling, h.stack, h.stacked, h.past, h.gone, h.chosen, h.due, h.stats⟩

/-! ## What is handed over -/

/-- The exchange keeps its promises. -/
structure Exchanging (e : Exchange.World Assembled) : Prop where
  inv : Exchange.Proof.Inv e
  kept : Exchange.Proof.Kept e
  ordered : Exchange.Proof.Ordered e
  replaced : Exchange.ReplaceSucceeds e

theorem Exchanging.step {e e' : Exchange.World Assembled} {a : Exchange.Action Assembled}
    (h : Exchanging e) (hs : Exchange.step e a = some e') : Exchanging e' :=
  ⟨Exchange.Proof.inv_step h.inv hs, Exchange.Proof.kept_step h.inv h.kept hs,
    Exchange.Proof.ordered_step h.inv h.ordered hs,
    Exchange.Proof.replaceSucceeds_step h.inv h.replaced hs⟩

/-- The fragments are ready, and what they require is in its slot. -/
def Handed (w : World α ε) (slots : List (Option Nat)) : Prop :=
  ∀ f, some f ∈ slots → f < w.requirements.length ∧ (w.fragment f).state = .ready
    ∧ ∀ q ∈ w.requirementsOf f, slots[q.slot]? = some q.fragment

/-- The coordinator's call of the exchange. -/
def Calling (w : World α ε) : Prop :=
  match w.coordinator with
  | .reclaiming _ => ∀ call phase, w.exchange.producer = some (call, phase) → call = .reclaimRetired
  | .replacing _ sequence _ => ∃ a, w.held = some a ∧ a.sequence = sequence ∧
      ((∃ phase, w.exchange.producer = some (.tryReplace (some a), phase))
          ∧ (∀ b ∈ w.exchange.published, b.sequence < a.sequence)
        ∨ w.exchange.producer = none ∧ w.exchange.published.getLast? = some a
          ∧ w.exchange.returned.getLast? = some (.tryReplace (some a), true))
  | _ => w.exchange.producer = none

/-- Nothing is held back. -/
def Emptied (w : World α ε) : Prop :=
  w.held = none ∧ w.lastPublished = w.publishedSequence

structure Handing (w : World α ε) : Prop where
  exchanging : Exchanging w.exchange
  calling : Calling w
  sequences : (w.exchange.published.map Assembled.sequence).Pairwise (· < ·)
  bounded : ∀ a ∈ w.exchange.published, a.sequence ≤ w.publishedSequence
  held : ∀ a, w.held = some a → a.sequence = w.publishedSequence ∧ Handed w a.slots
  emptied : (∀ due sequence failures, w.coordinator ≠ .replacing due sequence failures) → Emptied w
  whole : ∀ a ∈ w.exchange.published, Handed w a.slots
  selections : w.selections.map some
    = w.exchange.selected.map fun n => w.exchange.published[n]?

theorem Aside.handed (h : Aside w u) {slots : List (Option Nat)} (hslots : Handed w slots) :
    Handed u slots := by
  intro f hf
  obtain ⟨hlt, hready, hrequired⟩ := hslots f hf
  refine ⟨hlt.trans_le h.constructed, by rw [h.state f (by simp [hready]), hready], ?_⟩
  rw [h.requirements f hlt]
  exact hrequired

theorem Calling.apart (hc : Coordinator.Apart w.coordinator) :
    Calling w ↔ w.exchange.producer = none := by
  unfold Calling
  cases hcoordinator : w.coordinator <;> rw [hcoordinator] at hc <;>
    first | exact Iff.rfl | exact hc.elim

theorem Handing.aside (h : Handing w) (ha : Aside w u) : Handing u := by
  have hexchange : u.exchange = w.exchange := by rw [ha.rest]
  have hpublished : u.publishedSequence = w.publishedSequence := by rw [ha.rest]
  have hheld : u.held = w.held := by rw [ha.rest]
  have hselections : u.selections = w.selections := by rw [ha.rest]
  refine ⟨hexchange ▸ h.exchanging, ?_, hexchange ▸ h.sequences, ?_, ?_, ?_, ?_, ?_⟩
  · rcases ha.coordinator with hc | ⟨hw, hu⟩
    · have hcalling := h.calling
      unfold Calling at hcalling ⊢
      rw [hc, hexchange, hheld]
      exact hcalling
    · rw [Calling.apart hu, hexchange]
      exact (Calling.apart hw).mp h.calling
  · rw [hexchange, hpublished]
    exact h.bounded
  · rw [hheld, hpublished]
    exact fun a hheld => ⟨(h.held a hheld).1, ha.handed (h.held a hheld).2⟩
  · intro hnot
    have hold : ∀ due sequence failures, w.coordinator ≠ .replacing due sequence failures := by
      intro due sequence failures heq
      rcases ha.coordinator with hc | ⟨hw, -⟩
      · exact hnot due sequence failures (hc.trans heq)
      · rw [heq] at hw
        exact hw.elim
    obtain ⟨hnone, hlast⟩ := h.emptied hold
    exact ⟨hheld.trans hnone, by rw [World.lastPublished, hexchange, hpublished]; exact hlast⟩
  · rw [hexchange]
    exact fun a hmem => ha.handed (h.whole a hmem)
  · rw [hselections, hexchange]
    exact h.selections

/-- `Seal` hands nothing over. -/
theorem handing_sealDraft (h : Handing w) (hc : w.coordinator = .idle) {draft : Draft} :
    Handing (w.sealDraft draft) := by
  unfold World.sealDraft
  split
  · exact h
  refine ⟨h.exchanging, ?_, h.sequences, h.bounded, h.held, fun _ => ?_, h.whole, h.selections⟩
  · rw [Calling.apart apart_attach]
    have hcalling := h.calling
    rwa [Calling.apart (by rw [hc]; trivial)] at hcalling
  · exact h.emptied (by rw [hc]; exact fun _ _ _ heq => by cases heq)

/-- `Collect` goes on alone, outside the exchange. -/
theorem Handing.walk (h : Handing w) (pending : List Nat) (stats : Stats)
    {due taken completed : List Nat} {newest : Option Nat} {failures : List (Failure ε)}
    (hproducer : w.exchange.producer = none)
    (hold : ∀ due sequence failures, w.coordinator ≠ .replacing due sequence failures) :
    Handing { w with
      completed, pending, stats, coordinator := .walk due taken newest failures } :=
  ⟨h.exchanging, hproducer, h.sequences, h.bounded, h.held, fun _ => h.emptied hold, h.whole,
    h.selections⟩

/-! ## Steps of the exchange -/

theorem lastPublished_of {a : Assembled} (h : w.exchange.published.getLast? = some a) :
    w.lastPublished = a.sequence := by
  rw [World.lastPublished, h]
  rfl

/-- The frame owner does something: it selects what it finds in the slot, which is what was published
there. -/
theorem Handing.frame (h : Handing w) {a : Exchange.Action Assembled}
    {e : Exchange.World Assembled} (selected : List Assembled)
    (hs : Exchange.step w.exchange a = some e) (hproducer : a ≠ .producer)
    (hcall : ∀ call, a ≠ .call call)
    (hselected : ∃ more, e.selected = w.exchange.selected ++ more
      ∧ selected.map some = more.map fun n => w.exchange.published[n]?) :
    Handing { w with exchange := e, selections := w.selections ++ selected } := by
  have hframe := Exchange.Proof.frame_step h.exchanging.inv hs hproducer hcall
  refine ⟨h.exchanging.step hs, ?_, ?_, ?_, h.held, ?_, ?_, ?_⟩
  · have hcalling := h.calling
    unfold Calling at hcalling ⊢
    rw [hframe.producer, hframe.published, hframe.returned]
    exact hcalling
  · rw [hframe.published]
    exact h.sequences
  · rw [hframe.published]
    exact h.bounded
  · intro hnot
    obtain ⟨hnone, hlast⟩ := h.emptied hnot
    refine ⟨hnone, ?_⟩
    rw [World.lastPublished, hframe.published]
    exact hlast
  · rw [hframe.published]
    exact h.whole
  · obtain ⟨more, hmore, hvalues⟩ := hselected
    rw [hframe.published, hmore, List.map_append, List.map_append, h.selections, hvalues]

theorem handing_trySelect (h : Handing w) (hs : step w .trySelect = some u) : Handing u := by
  simp only [step, World.exchangeStep, Option.map_eq_some_iff] at hs
  obtain ⟨e, hs, rfl⟩ := hs
  have hselected : e.selected = w.exchange.selected := by
    simp only [Exchange.step] at hs
    split at hs
    · cases hs
    · split at hs <;> cases hs <;> rfl
  have := h.frame [] hs (by simp) (by simp) ⟨[], by simp [hselected], rfl⟩
  simpa using this

theorem handing_acquireActive (h : Handing w) (hs : step w .acquireActive = some u) :
    Handing u := by
  simp only [step, World.exchangeStep, Option.map_eq_some_iff] at hs
  obtain ⟨e, hs, rfl⟩ := hs
  simp only [Exchange.step] at hs
  split at hs <;> cases hs
  exact h

theorem handing_consumer (h : Handing w) {accepts : Bool}
    (hs : step w (.consumer accepts) = some u) : Handing u := by
  simp only [step, World.exchangeStep, Option.map_eq_some_iff] at hs
  obtain ⟨e, hs, rfl⟩ := hs
  refine h.frame _ hs (by simp) (by simp) ?_
  simp only [Exchange.step] at hs
  cases hc : w.exchange.consumer with
  | accept i =>
    simp only [hc, Exchange.World.consume] at hs
    split at hs <;> cases hs
    · rename_i haccepts
      have hnamed : i ∈ Exchange.named w.exchange := by
        rw [Exchange.Proof.mem_named]
        exact .inr (.inr (.inl (by simp [Exchange.examined, hc])))
      have hnot : ∀ call, w.exchange.producer ≠ some (call, .storeReady i) := by
        intro call hproducer
        have hapart := h.exchanging.inv.placed.apart i
        simp only [Exchange.held, hproducer, Exchange.examined, hc] at hapart
        grind
      obtain ⟨hsome, hvalue⟩ := h.exchanging.kept.value i hnamed hnot
      obtain ⟨a, ha⟩ := Option.isSome_iff_exists.mp hsome
      have hslot : (w.exchange.slot i).value = some a := ha
      refine ⟨[w.exchange.serial i], rfl, ?_⟩
      rw [ha] at hvalue
      simp [World.accepted, hc, haccepts, hslot, ← hvalue]
    · rename_i haccepts
      exact ⟨[], by simp, by simp [World.accepted, hc, haccepts]⟩
  | idle => simp [hc, Exchange.World.consume] at hs
  | storeRejected | storeActive | storePrevious =>
    simp only [hc, Exchange.World.consume] at hs
    cases hs
    exact ⟨[], by simp [Exchange.World.setState], by simp [World.accepted, hc]⟩

/-- What the exchange's producer does while `Collect` is in one of its calls. -/
theorem Handing.produced (h : Handing w) {e : Exchange.World Assembled}
    {call : Exchange.Call Assembled} {phase : Exchange.ProducerPhase}
    (hproducer : w.exchange.producer = some (call, phase))
    (hs : Exchange.step w.exchange .producer = some e) :
    e.selected = w.exchange.selected ∧
      ((∃ phase', e.producer = some (call, phase') ∧ e.published = w.exchange.published
          ∧ e.returned = w.exchange.returned)
        ∨ e.producer = none ∧ ∃ result, e.returned = w.exchange.returned ++ [(call, result)]
          ∧ e.published = w.exchange.published ++ if result then call.candidate.toList else []) := by
  simp only [Exchange.step, hproducer, Option.map_some, Option.some.injEq] at hs
  subst e
  exact ⟨Exchange.Proof.selected_produce, Exchange.Proof.produce_outcome⟩

theorem published_before {l more : List Assembled} {n : Nat} (hn : n < l.length) :
    (l ++ more)[n]? = l[n]? := List.getElem?_append_left hn

/-- `ReclaimRetired` goes on. -/
theorem handing_reclaiming (h : Handing w) {due : List Nat} (hc : w.coordinator = .reclaiming due)
    (hs : w.exchangeStep .producer = some u) : Handing u := by
  simp only [World.exchangeStep, Option.map_eq_some_iff] at hs
  obtain ⟨e, hs, rfl⟩ := hs
  have hcalling := h.calling
  simp only [Calling, hc] at hcalling
  cases hproducer : w.exchange.producer with
  | none => simp [Exchange.step, hproducer] at hs
  | some next =>
    obtain ⟨call, phase⟩ := next
    obtain rfl := hcalling call phase hproducer
    obtain ⟨hselected, houtcome⟩ := h.produced hproducer hs
    have hsame : e.published = w.exchange.published ∧
        ∀ call phase, e.producer = some (call, phase) → call = .reclaimRetired := by
      rcases houtcome with ⟨phase', hp, hpub, -⟩ | ⟨hp, result, -, hpub⟩
      · refine ⟨hpub, fun call phase heq => ?_⟩
        rw [hp] at heq
        cases heq
        rfl
      · refine ⟨by rw [hpub]; cases result <;> simp [Exchange.Call.candidate], ?_⟩
        intro call phase heq
        rw [hp] at heq
        cases heq
    refine ⟨h.exchanging.step hs, ?_, ?_, ?_, h.held, fun hnot => ?_, ?_, ?_⟩
    · simp only [Calling, hc]
      exact hsame.2
    · rw [hsame.1]
      exact h.sequences
    · rw [hsame.1]
      exact h.bounded
    · obtain ⟨hnone, hlast⟩ := h.emptied hnot
      exact ⟨hnone, by rw [World.lastPublished, hsame.1]; exact hlast⟩
    · rw [hsame.1]
      exact h.whole
    · rw [hsame.1, hselected]
      exact h.selections

/-- `TryReplace` goes on, and at its end what is held is published last. -/
theorem handing_replacing (h : Handing w) {due : List Nat} {sequence : Nat}
    {failures : List (Failure ε)} (hc : w.coordinator = .replacing due sequence failures)
    (hs : w.exchangeStep .producer = some u) : Handing u := by
  simp only [World.exchangeStep, Option.map_eq_some_iff] at hs
  obtain ⟨e, hs, rfl⟩ := hs
  have hcalling := h.calling
  simp only [Calling, hc] at hcalling
  obtain ⟨a, hheld, hsequence, hcalling⟩ := hcalling
  have hbusy : (∃ phase, w.exchange.producer = some (.tryReplace (some a), phase))
      ∧ ∀ b ∈ w.exchange.published, b.sequence < a.sequence := by
    rcases hcalling with hb | ⟨hnone, -⟩
    · exact hb
    · simp [Exchange.step, hnone] at hs
  obtain ⟨⟨phase, hproducer⟩, hnewer⟩ := hbusy
  obtain ⟨hselected, houtcome⟩ := h.produced hproducer hs
  have hexchanging := h.exchanging.step hs
  have hnot : ¬ (∀ due sequence failures, w.coordinator ≠ .replacing due sequence failures) :=
    fun hall => hall due sequence failures hc
  rcases houtcome with ⟨phase', hp, hpub, hret⟩ | ⟨hp, result, hret, hpub⟩
  · refine ⟨hexchanging, ?_, ?_, ?_, h.held, fun hall => absurd hall hnot, ?_, ?_⟩
    · simp only [Calling, hc]
      exact ⟨a, hheld, hsequence, .inl ⟨⟨phase', hp⟩, by rw [hpub]; exact hnewer⟩⟩
    · rw [hpub]
      exact h.sequences
    · rw [hpub]
      exact h.bounded
    · rw [hpub]
      exact h.whole
    · rw [hpub, hselected]
      exact h.selections
  · have hresult : result = true := by
      refine hexchanging.replaced a result ?_
      rw [hret]
      simp
    subst result
    have hpublished : e.published = w.exchange.published ++ [a] := hpub
    have hmem : ∀ b, b ∈ e.published ↔ b ∈ w.exchange.published ∨ b = a := by
      intro b
      rw [hpublished]
      simp
    refine ⟨hexchanging, ?_, ?_, ?_, h.held, fun hall => absurd hall hnot, ?_, ?_⟩
    · simp only [Calling, hc]
      refine ⟨a, hheld, hsequence, .inr ⟨hp, ?_, ?_⟩⟩
      · rw [hpublished]
        simp
      · rw [hret]
        simp
    · rw [hpublished, List.map_append, List.pairwise_append]
      refine ⟨h.sequences, by simp, fun n hn m hm => ?_⟩
      obtain ⟨b, hb, rfl⟩ := List.mem_map.mp hn
      simp only [List.map_cons, List.map_nil, List.mem_singleton] at hm
      subst m
      exact hnewer b hb
    · intro b hb
      rcases (hmem b).mp hb with hb | rfl
      · exact h.bounded b hb
      · exact (h.held b hheld).1.le
    · intro b hb
      rcases (hmem b).mp hb with hb | rfl
      · exact h.whole b hb
      · exact (h.held b hheld).2
    · rw [hselected, h.selections, hpublished]
      refine List.map_congr_left fun n hn => ?_
      exact (published_before (h.exchanging.ordered.published n hn)).symm

/-! ## Runs -/

structure Inv (w : World α ε) : Prop where
  collecting : Collecting w
  handing : Handing w
  unstarved : Unstarved w
  accounted : Accounted w

/-- What `Collect` leaves behind at its return. -/
theorem Inv.finish (hold : Unstarved w ∧ Accounted w) {v : World α ε}
    (hcollects : v.collects = w.collects) {due : List Nat} {published : Nat}
    {failures : List (Failure ε)} (hcollecting : Collecting (v.finish due published failures))
    (hhanding : Handing (v.finish due published failures))
    (hdue : ∀ r ∈ due, r ≤ v.publishedSequence) : Inv (v.finish due published failures) := by
  have hlast : v.lastPublished = v.publishedSequence :=
    (hhanding.emptied fun _ _ _ heq => by cases heq).2
  refine ⟨hcollecting, hhanding, ?_, ?_⟩
  · intro c hc r hr
    simp only [World.finish, hcollects, List.mem_append, List.mem_singleton] at hc
    rcases hc with hc | rfl
    · exact hold.1 c hc r hr
    · exact (hdue r hr).trans hlast.ge
  · intro c hc
    simp only [World.finish, hcollects, List.mem_append, List.mem_singleton] at hc
    rcases hc with hc | rfl
    · exact hold.2 c hc
    · have hstats := hcollecting.stats
      simpa [newest, World.finish] using hstats

theorem Inv.same (h : Inv w) (hcollecting : Collecting u) (hhanding : Handing u)
    (hcollects : u.collects = w.collects) : Inv u := by
  refine ⟨hcollecting, hhanding, ?_, ?_⟩
  · unfold Unstarved
    rw [hcollects]
    exact h.unstarved
  · unfold Accounted
    rw [hcollects]
    exact h.accounted

theorem Inv.aside (h : Inv w) (ha : Aside w u) (hsettling : Settling u) : Inv u :=
  h.same (h.collecting.aside ha hsettling) (h.handing.aside ha) (by rw [ha.rest])

/-- `Collect` begins. -/
theorem inv_collect (h : Inv w) (hs : step w .collect = some u) : Inv u := by
  have hsettling := settling_step h.collecting.settling hs
  simp only [step] at hs
  split at hs
  · rename_i hc
    simp only [World.exchangeStep, Option.map_eq_some_iff] at hs
    obtain ⟨e, hs, rfl⟩ := hs
    have hexchanging := h.handing.exchanging.step hs
    have hcall : e = { w.exchange with
        producer := some (.reclaimRetired, .loadRetired 0) } := by
      simp only [Exchange.step] at hs
      split at hs <;> cases hs
      rfl
    have hapart : Coordinator.Apart w.coordinator := by
      rw [hc]
      trivial
    have hnone : taken w = [] ∧ newest w = none := by
      unfold taken newest
      rw [hc]
      exact ⟨rfl, rfl⟩
    have hidle : ∀ due sequence failures, w.coordinator ≠ .replacing due sequence failures := by
      rw [hc]
      exact fun _ _ _ heq => by cases heq
    refine h.same ⟨hsettling, ?_, ?_, ?_, h.collecting.gone, ?_, ?_, ?_⟩
      ⟨hexchanging, ?_, ?_, ?_, h.handing.held, fun _ => ?_, ?_, ?_⟩ rfl
    · have := h.collecting.stack
      rwa [hnone.1] at this
    · have := h.collecting.stacked
      rwa [hnone.1] at this
    · have := h.collecting.past
      rw [top, hnone.2] at this
      exact this
    · intro r hr
      cases hr
    · intro r hr
      simp only [World.due, List.mem_filter, List.mem_range'_1, List.all_eq_true] at hr
      refine ⟨⟨by omega, by simp only; omega⟩, fun f hf => ?_⟩
      exact hr.2 f (List.reduceOption_mem_iff.mpr hf)
    · have := h.collecting.stats
      rw [hnone.2] at this
      exact this
    · subst hcall
      intro call phase heq
      cases heq
      rfl
    · subst hcall
      exact h.handing.sequences
    · subst hcall
      exact h.handing.bounded
    · subst hcall
      exact h.handing.emptied hidle
    · subst hcall
      exact h.handing.whole
    · subst hcall
      exact h.handing.selections
  · cases hs

/-- The end of the walk: the newest complete revision is offered to the frame. -/
theorem inv_offer (h : Inv w) {due : List Nat} {newest : Option Nat}
    {failures : List (Failure ε)} (hc : w.coordinator = .walk due [] newest failures)
    (hs : (w.assemble newest).offer due failures = some u) (hsettling : Settling u) : Inv u := by
  have hnone : Proof.newest w = newest := by
    unfold Proof.newest
    rw [hc]
  have hwalk : ∀ due sequence failures, w.coordinator ≠ .replacing due sequence failures := by
    rw [hc]
    exact fun _ _ _ heq => by cases heq
  obtain ⟨hheld, hlast⟩ := h.handing.emptied hwalk
  have hproducer : w.exchange.producer = none := by
    have hcalling := h.handing.calling
    simpa only [Calling, hc] using hcalling
  cases newest with
  | none =>
    simp only [World.assemble, World.offer, hheld] at hs
    cases hs
    obtain ⟨hcollecting, hdue⟩ := collecting_assemble h.collecting hc (u := w.finish due 0 failures)
      rfl (.inl rfl) hsettling
    exact Inv.finish ⟨h.unstarved, h.accounted⟩ rfl hcollecting
      ⟨h.handing.exchanging, hproducer, h.handing.sequences, h.handing.bounded, h.handing.held,
        fun _ => ⟨hheld, hlast⟩, h.handing.whole, h.handing.selections⟩ hdue
  | some n =>
    obtain ⟨hsealed, -, hnewer, hready⟩ := h.collecting.chosen n hnone
    simp only [World.assemble, World.offer, World.exchangeStep, Option.map_eq_some_iff] at hs
    obtain ⟨e, hs, rfl⟩ := hs
    have hexchanging := h.handing.exchanging.step hs
    have hcall : e = { w.exchange with
        producer := some (.tryReplace (some ⟨n, (w.revision n).slots⟩), .exchangeReady) } := by
      simp only [Exchange.step] at hs
      split at hs <;> cases hs
      rfl
    have hhanded : Handed w (w.revision n).slots := by
      intro f hf
      obtain ⟨hlt, hrequired⟩ := h.collecting.settling.closure n f hf
      exact ⟨hlt, hready f hf, hrequired⟩
    obtain ⟨hcollecting, -⟩ := collecting_assemble h.collecting hc rfl
      (.inr ⟨n, failures, rfl⟩) hsettling
    refine h.same hcollecting ⟨hexchanging, ?_, ?_, ?_, ?_, fun hnot => ?_, ?_, ?_⟩ rfl
    · subst hcall
      have hnewest : ∀ b ∈ w.exchange.published, b.sequence < n :=
        fun b hb => (h.handing.bounded b hb).trans_lt hnewer
      exact ⟨⟨n, (w.revision n).slots⟩, rfl, rfl, .inl ⟨⟨.exchangeReady, rfl⟩, hnewest⟩⟩
    · subst hcall
      exact h.handing.sequences
    · subst hcall
      exact fun b hb => (h.handing.bounded b hb).trans hnewer.le
    · intro a ha
      cases ha
      exact ⟨rfl, hhanded⟩
    · exact absurd rfl (hnot due n failures)
    · subst hcall
      exact h.handing.whole
    · subst hcall
      exact h.handing.selections

theorem inv_coordinate (h : Inv w) (hs : w.coordinate answer w.coordinator = some u)
    (hsettling : Settling u) : Inv u := by
  cases hc : w.coordinator with
  | idle | attachLoad | attachExchange | counting =>
    have hapart : Coordinator.Apart w.coordinator := by
      rw [hc]
      trivial
    exact h.aside (aside_coordinate hapart hs) hsettling
  | reclaiming due =>
    have hnot : ∀ due sequence failures, w.coordinator ≠ .replacing due sequence failures := by
      rw [hc]
      exact fun _ _ _ heq => by cases heq
    rw [hc] at hs
    simp only [World.coordinate] at hs
    split at hs
    · have hhanding := handing_reclaiming h.handing hc hs
      simp only [World.exchangeStep, Option.map_eq_some_iff] at hs
      obtain ⟨e, hs, rfl⟩ := hs
      exact h.same (h.collecting.exchange e _ hsettling) hhanding rfl
    · rename_i hproducer
      cases hs
      rw [Bool.not_eq_true, Option.isSome_eq_false_iff, Option.isNone_iff_eq_none] at hproducer
      exact h.same (collecting_take h.collecting hc hsettling)
        (h.handing.walk w.pending w.stats hproducer hnot) rfl
  | walk due taken newest failures =>
    have hnot : ∀ due sequence failures, w.coordinator ≠ .replacing due sequence failures := by
      rw [hc]
      exact fun _ _ _ heq => by cases heq
    have hproducer : w.exchange.producer = none := by
      have hcalling := h.handing.calling
      simpa only [Calling, hc] using hcalling
    rw [hc] at hs
    cases taken with
    | nil => exact inv_offer h hc hs hsettling
    | cons r taken =>
      cases hs
      have hcollecting := collecting_one h.collecting hc
      have hhanding : Handing (w.collectOne due r taken newest failures) := by
        unfold World.collectOne
        simp only
        split
        · exact h.handing.walk _ _ hproducer hnot
        split
        · exact h.handing.walk _ _ hproducer hnot
        split <;> exact h.handing.walk _ _ hproducer hnot
      refine h.same hcollecting hhanding ?_
      unfold World.collectOne
      simp only
      split
      · rfl
      split
      · rfl
      split <;> rfl
  | replacing due sequence failures =>
    have hdue := h.collecting.due
    rw [DueKept, hc] at hdue
    have hoffering : Offering w.coordinator due := .inr ⟨sequence, failures, hc⟩
    rw [hc] at hs
    simp only [World.coordinate] at hs
    split at hs
    · have hhanding := handing_replacing h.handing hc hs
      simp only [World.exchangeStep, Option.map_eq_some_iff] at hs
      obtain ⟨e, hs, rfl⟩ := hs
      exact h.same (h.collecting.exchange e _ hsettling) hhanding rfl
    · rename_i hproducer
      rw [Bool.not_eq_true, Option.isSome_eq_false_iff, Option.isNone_iff_eq_none] at hproducer
      have hcalling := h.handing.calling
      simp only [Calling, hc] at hcalling
      obtain ⟨a, hheld, -, hcalling⟩ := hcalling
      obtain ⟨-, hpublished, hreturned⟩ : w.exchange.producer = none
          ∧ w.exchange.published.getLast? = some a
          ∧ w.exchange.returned.getLast? = some (.tryReplace (some a), true) := by
        rcases hcalling with ⟨⟨phase, hbusy⟩, -⟩ | hdone
        · rw [hproducer] at hbusy
          cases hbusy
        · exact hdone
      rw [if_pos (by rw [hreturned]; rfl)] at hs
      cases hs
      have hcollecting : Collecting ({ w with held := none }.finish due sequence failures) :=
        h.collecting.finished hoffering rfl hsettling
      refine Inv.finish (v := { w with held := none }) ⟨h.unstarved, h.accounted⟩ rfl hcollecting
        ⟨h.handing.exchanging, hproducer, h.handing.sequences, h.handing.bounded, ?_, fun _ => ?_,
          h.handing.whole, h.handing.selections⟩ hdue
      · intro b hb
        cases hb
      · exact ⟨rfl, (lastPublished_of hpublished).trans (h.handing.held a hheld).1⟩

theorem inv_step {a : Action α ε} (h : Inv w) (hs : step w a = some u) : Inv u := by
  have hsettling := settling_step h.collecting.settling hs
  cases a with
  | create requirements =>
    cases hs
    exact h.aside (aside_create requirements) hsettling
  | settle f outcome =>
    simp only [step] at hs
    split at hs <;> cases hs
    exact h.aside (aside_call f outcome) hsettling
  | access id answer =>
    simp only [step, Option.map_eq_some_iff] at hs
    obtain ⟨call, hid, rfl⟩ := hs
    exact h.aside (aside_settle h.collecting.settling hid) hsettling
  | sealDraft draft =>
    simp only [step] at hs
    split at hs
    · rename_i hc
      split at hs <;> cases hs
      refine h.same (collecting_sealDraft h.collecting hc hsettling) (handing_sealDraft h.handing hc) ?_
      unfold World.sealDraft
      split <;> rfl
    · cases hs
  | collect => exact inv_collect h hs
  | coordinator answer => exact inv_coordinate h hs hsettling
  | trySelect =>
    have hhanding := handing_trySelect h.handing hs
    simp only [step, World.exchangeStep, Option.map_eq_some_iff] at hs
    obtain ⟨e, hs, rfl⟩ := hs
    exact h.same (h.collecting.exchange e _ hsettling) hhanding rfl
  | acquireActive =>
    have hhanding := handing_acquireActive h.handing hs
    simp only [step, World.exchangeStep, Option.map_eq_some_iff] at hs
    obtain ⟨e, hs, rfl⟩ := hs
    exact h.same (h.collecting.exchange e _ hsettling) hhanding rfl
  | consumer accepts =>
    have hhanding := handing_consumer h.handing hs
    simp only [step, World.exchangeStep, Option.map_eq_some_iff] at hs
    obtain ⟨e, hs, rfl⟩ := hs
    exact h.same (h.collecting.exchange e _ hsettling) hhanding rfl

theorem inv_start (slots : Nat) : Inv (World.start slots : World α ε) := by
  have hrevision : ∀ r, ((World.start slots : World α ε).revision r) = {} := fun _ => rfl
  have hfragment : ∀ f, ((World.start slots : World α ε).fragment f) = {} := fun _ => rfl
  have hcalls : (World.start slots : World α ε).calls = [] := rfl
  have howed : owed (World.start slots : World α ε) = fun _ _ => 0 := by
    funext r t
    cases t <;> rfl
  have hdoing : ∀ k, doing k (World.start slots : World α ε) = fun _ => 0 := by
    intro k
    funext r
    rfl
  have hunsealed : ∀ r, ¬ Sealed (World.start slots : World α ε) r := by
    intro r hr
    have hle : r ≤ 0 := hr.2
    exact absurd hr.1 (by omega)
  have hsettling : Settling (World.start slots : World α ε) := by
    refine ⟨?_, ?_, ?_, ?_, ?_, ?_, ?_, ?_, ?_, ?_⟩
    · rw [howed, hdoing, hdoing]
      refine ⟨?_, ?_, ?_, ?_, ?_, ?_, ?_, ?_, ?_, ?_, ?_⟩
      · intro r t
        exact Nat.zero_le _
      · intro r hr
        cases hr
      · intro r
        rfl
      · intro r
        exact List.nodup_nil
      · intro r f hf
        cases hf
      · intro r f hf
        cases hf
      · intro r hr
        cases hr
      · exact fun r hr => absurd hr (hunsealed r)
      · intro r _
        rfl
      · intro r
        rfl
      · exact fun r _ => hrevision r
    · intro id call hid
      rw [hcalls] at hid
      cases hid
    · intro r t phase rest hc
      cases hc
    · intro f
      rfl
    · intro f j hj
      cases hj
    · intro f _
      rfl
    · intro f _ hnone
      cases hnone
    · intro r hr
      cases hr
    · exact List.nodup_nil
    · intro r f hf
      cases hf
  refine ⟨⟨hsettling, ?_, ?_, ?_, ?_, ?_, trivial, rfl⟩,
    ⟨⟨Exchange.Proof.inv_start, Exchange.Proof.kept_start, Exchange.Proof.ordered_start, ?_⟩, rfl,
      List.Pairwise.nil, ?_, ?_, fun _ => ⟨rfl, rfl⟩, ?_, rfl⟩, ?_, ?_⟩
  · intro r
    exact Nat.zero_le _
  · intro r hr
    cases hr
  · exact fun r hr => absurd hr (hunsealed r)
  · exact fun r hr => absurd hr (hunsealed r)
  · intro r hr
    cases hr
  · intro candidate result hmem
    cases hmem
  · intro a ha
    cases ha
  · intro a ha
    cases ha
  · intro a ha
    cases ha
  · intro c hc
    cases hc
  · intro c hc
    cases hc

/-! ## The promises -/

theorem Handing.selected (h : Handing w) {a : Assembled} (ha : a ∈ w.selections) :
    a ∈ w.exchange.published := by
  have hmem : some a ∈ w.exchange.selected.map fun n => w.exchange.published[n]? := by
    rw [← h.selections]
    exact List.mem_map_of_mem ha
  obtain ⟨n, -, hn⟩ := List.mem_map.mp hmem
  exact List.mem_of_getElem? hn

theorem selectsWhole (h : Handing w) : SelectsWhole w :=
  fun a ha f hf => (h.whole a (h.selected ha) f hf).2

/-- What is selected is in the order of publication, which is that of the sequences. -/
theorem selectsNewer (h : Handing w) : SelectsNewer w := by
  have hsome : (w.selections.map some).Pairwise fun x y =>
      ∀ a b, x = some a → y = some b → a.sequence < b.sequence := by
    rw [h.selections, List.pairwise_map]
    refine h.exchanging.ordered.selected.imp ?_
    intro m n hlt a b ha hb
    have hsorted := List.pairwise_iff_getElem.mp h.sequences
    obtain ⟨hm, rfl⟩ := List.getElem?_eq_some_iff.mp ha
    obtain ⟨hn, rfl⟩ := List.getElem?_eq_some_iff.mp hb
    have hless := hsorted m n (by simpa using hm) (by simpa using hn) hlt
    rwa [List.getElem_map, List.getElem_map] at hless
  rw [SelectsNewer, List.pairwise_map]
  rw [List.pairwise_map] at hsome
  exact hsome.imp fun hab => hab _ _ rfl rfl

theorem completesOnce (h : Collecting w) : CompletesOnce w := by
  have hbooks := h.settling.books
  have hone : ∀ r, w.completions.count r ≤ 1 := by
    intro r
    by_cases hboth : Sealed w r ∧ (w.revision r).owing = []
    · have := hbooks.pushed r hboth.1 hboth.2
      omega
    · have := hbooks.unpushed r hboth
      omega
  refine ⟨List.nodup_iff_count_le_one.mpr hone, List.nodup_iff_count_le_one.mpr fun r => ?_, ?_, ?_⟩
  · have := hbooks.notified r
    have := hone r
    omega
  · intro r hr
    have hcount := List.count_pos_iff.mpr hr
    have hboth : Sealed w r ∧ (w.revision r).owing = [] := by
      by_contra hnot
      have := hbooks.unpushed r hnot
      omega
    refine ⟨hboth.1, fun f hf => (hbooks.counted r f hf ?_).1⟩
    rw [hboth.2]
    exact List.not_mem_nil
  · intro r hr hab hnot hsettled
    have hnil : (w.revision r).owing = [] := by
      by_cases hp : r ∈ w.pending
      · exact h.settling.complete hp hnot hsettled
      · exact h.gone r hr hp hab
    obtain ⟨hcompleted, hnotified⟩ := h.settling.notified hr hnil hnot hsettled
    exact ⟨List.count_pos_iff.mp (by omega), List.count_pos_iff.mp (by omega)⟩

end ModuleServices.Assembly.Proof

namespace ModuleServices.Assembly

open ModuleServices.Assembly.Proof

/-- **Revision assembly.** However fragments settle while revisions are sealed, collected and
selected: only whole revisions are selected, each newer than the last, nothing that was complete
when `Collect` began is passed over for something older, and every revision completes, and is
counted, once. -/
theorem assembly_safe {α ε : Type} {slots : Nat} {w : World α ε}
    (h : Run.Reachable step (World.start slots) w) :
    SelectsWhole w ∧ SelectsNewer w ∧ Unstarved w ∧ CompletesOnce w ∧ Accounted w := by
  have hinv : Inv w := h.invariant (inv_start slots) fun _ hinv _ hs => inv_step hinv hs
  exact ⟨selectsWhole hinv.handing, selectsNewer hinv.handing, hinv.unstarved,
    completesOnce hinv.collecting, hinv.accounted⟩

/-- The first revision waits for a fragment that nobody settles; the second shares nothing with it,
completes and abandons it. -/
def abandonedTrace : List (Action Nat Nat) :=
  [.create [], .create [⟨0, some 2⟩], .create [], .sealDraft ⟨0, [some 0, none]⟩,
    .coordinator true, .coordinator true, .coordinator true, .settle 2 (.ok 7), .access 0 true,
    .access 0 true, .access 0 true, .access 0 true, .access 0 true,
    .sealDraft ⟨1, [some 2, some 1]⟩, .coordinator true, .coordinator true, .coordinator true,
    .coordinator true, .coordinator true, .coordinator true, .settle 1 (.ok 8), .access 1 true,
    .access 1 true, .access 1 true, .access 1 true, .access 1 true, .access 1 true,
    .access 1 true, .access 1 true, .access 1 true, .access 1 true, .collect, .coordinator true,
    .coordinator true, .coordinator true, .coordinator true, .coordinator true,
    .coordinator true, .coordinator true, .coordinator true, .coordinator true,
    .coordinator true, .coordinator true, .coordinator true, .coordinator true,
    .coordinator true, .coordinator true, .coordinator true, .trySelect, .consumer true,
    .consumer true]

theorem assembly_safe_abandoned : ∃ w : World Nat Nat, Run.Reachable step (World.start 2) w ∧
    (w.completions = [2] ∧ w.abandoned = [1] ∧ w.selections = [⟨2, [some 2, some 1]⟩]
      ∧ w.stats = ⟨2, 1, 0, 0, 1⟩) ∧
    SelectsWhole w ∧ SelectsNewer w ∧ Unstarved w ∧ CompletesOnce w ∧ Accounted w := by
  have htrace : (Run.exec step (World.start 2) abandonedTrace).any (fun w : World Nat Nat =>
      w.completions = [2] ∧ w.abandoned = [1] ∧ w.selections = [⟨2, [some 2, some 1]⟩]
        ∧ w.stats = ⟨2, 1, 0, 0, 1⟩) = true := by
    decide +kernel
  obtain ⟨w, hrun, hw⟩ := (Option.any_eq_true _ _).mp htrace
  have hreach : Run.Reachable step (World.start 2) w := Run.exec_reachable hrun
  exact ⟨w, hreach, of_decide_eq_true hw, assembly_safe hreach⟩

end ModuleServices.Assembly
