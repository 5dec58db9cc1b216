import ModuleServices.Pool.Proof.Acquire

/-!
# The other calls, and the theorem

Lease returns, unpins and the clock each end in `Event`: the count first, then every
waiter subscribed by then. A clock waiter is either on the clock's stack or in the hands
of one thread, which fires it or puts it back and looks again.
-/

namespace ModuleServices.Pool.Proof

open ModuleServices ModuleServices.Pool World

/-! ## What an instruction has to keep -/

/-- How an instruction may move the clock's waiters: a pending one fires or stays pending, and a
reached one does not lie on the stack unnoticed. -/
structure ClockMoves (w w' : World) (instr : Instr) : Prop where
  pending : ∀ point, ClockPending w point → ClockPending w' point ∨ Has w' (· = .armFired point)
  armed : w'.armedAt ≠ 0 → w'.armedAt = w.armedAt ∧ instr ≠ .armFired w.armedAt
  reached : ∀ point ∈ w'.clockWaiters, w'.completed < point ∨ Has w' (· = .runTake)
    ∨ Has w' (· = .clockRecheck point) ∨ ∃ lowest ≤ point, Has w' (· = .runCheck lowest)

theorem ClockMoves.kept {w w' : World} {instr : Instr} {program : List Instr}
    (h : ClockMoves w w' instr) (hran : Ran w w' instr program) (hc : ClockKept w) :
    ClockKept w' := by
  refine ⟨fun hne => ?_, h.reached⟩
  obtain ⟨heq, hnot⟩ := h.armed hne
  rw [heq] at hne ⊢
  rcases hc.armed hne with hp | hf
  · exact h.pending _ hp
  · exact .inr ((hran.keep _ hf).resolve_left hnot)

/-- The instruction looks at what is reached on the clock's stack. -/
def Looks : Instr → Prop
  | .runTake | .clockRecheck _ | .runCheck _ => True
  | _ => False

/-- A clock waiter noticed stays noticed, unless the instruction is the one that looks. -/
theorem stillNoticed {w w' : World} {instr : Instr} {program : List Instr} {point c : Nat}
    (hran : Ran w w' instr program) (hnot : ¬Looks instr)
    (h : c < point ∨ Has w (· = .runTake) ∨ Has w (· = .clockRecheck point)
      ∨ ∃ lowest ≤ point, Has w (· = .runCheck lowest)) :
    c < point ∨ Has w' (· = .runTake) ∨ Has w' (· = .clockRecheck point)
      ∨ ∃ lowest ≤ point, Has w' (· = .runCheck lowest) := by
  have hkeep : ∀ i, Looks i → Has w (· = i) → Has w' (· = i) :=
    fun i hi hh => (hran.keep _ hh).resolve_left fun he => hnot (he ▸ hi)
  rcases h with h | h | h | ⟨lowest, hle, h⟩
  · exact .inl h
  · exact .inr (.inl (hkeep _ trivial h))
  · exact .inr (.inr (.inl (hkeep _ trivial h)))
  · exact .inr (.inr (.inr ⟨lowest, hle, hkeep _ trivial h⟩))

/-- The instruction does nothing for the clock. -/
def OffClock : Instr → Prop
  | .clockSubscribe _ | .clockPush _ | .clockRecheck _ | .runTake | .runClock _ | .runKeep _
  | .runCheck _ | .armFired _ => False
  | _ => True

theorem clockMoves_off {w w' : World} {instr : Instr} {program : List Instr}
    (hran : Ran w w' instr program) (hoff : OffClock instr) (hc : ClockKept w)
    (harmed : w'.armedAt = w.armedAt) (hcompleted : w'.completed = w.completed)
    (hwaiters : w'.clockWaiters = w.clockWaiters) : ClockMoves w w' instr := by
  refine ⟨fun point hp => .inl ?_, fun _ => ⟨harmed, fun he => ?_⟩, fun point hp => ?_⟩
  · unfold ClockPending at hp ⊢
    rw [hwaiters]
    refine hp.imp_right fun hh => (hran.keep _ hh).resolve_left fun hcar => ?_
    cases instr <;> first | exact hcar | exact hoff
  · rw [he] at hoff
    exact hoff
  · rw [hwaiters] at hp
    rw [hcompleted]
    refine stillNoticed hran (fun hlooks => ?_) (hc.reached point hp)
    cases instr <;> first | exact hlooks | exact hoff

/-- What stays for the acquirer and the waiters. -/
structure Unaltered (w w' : World) : Prop where
  all : w'.all = w.all
  free : w'.free = w.free
  waiters : w'.waiters = w.waiters
  events : w'.events = w.events
  scanEvents : w'.scanEvents = w.scanEvents
  acquirer : w'.acquirer = w.acquirer

/-- A backing stays attended when what attends it stays, or raises its event. -/
theorem attended_ran {w w' : World} {instr : Instr} {program : List Instr} {g : Nat}
    (hran : Ran w w' instr program) (hmoves : ClockMoves w w' instr)
    (hraises : instr.Raises → ∃ i ∈ program, i.Raises)
    (hleases : 0 < (w.backing g).leases → 0 < (w'.backing g).leases)
    (hpins : 0 < (w.backing g).bindingConsumers →
      0 < (w'.backing g).bindingConsumers ∨ ∃ i ∈ program, i.Raises)
    (hreadback : (w'.backing g).readbackPins = (w.backing g).readbackPins)
    (hsafe : (w.backing g).safeAt ≤ (w'.backing g).safeAt) (h : Attended w g) :
    Attended w' g := by
  have hnew : (∃ i ∈ program, i.Raises) → Attended w' g :=
    fun hi => .inr (.inr (.inr (.inl (hran.new _ hi))))
  rcases h with h | h | h | h | ⟨point, hle, hp⟩
  · exact .inl (hleases h)
  · exact (hpins h).elim (fun h => .inr (.inl h)) hnew
  · exact .inr (.inr (.inl (hreadback ▸ h)))
  · rcases hran.keep _ h with hi | h
    · exact hnew (hraises hi)
    · exact .inr (.inr (.inr (.inl h)))
  · rcases hmoves.pending point hp with hp | ⟨t, ht, i, hi, rfl⟩
    · exact .inr (.inr (.inr (.inr ⟨point, Nat.le_trans hle hsafe, hp⟩)))
    · exact .inr (.inr (.inr (.inl ⟨t, ht, _, hi, trivial⟩)))

theorem Unaltered.behind {w w' : World} (h : Unaltered w w') (hb : Behind w) : Behind w' := by
  unfold Behind at hb ⊢
  rw [h.events, h.scanEvents, h.acquirer]
  exact hb

/-- **An instruction that counts nothing and subscribes nobody.** -/
theorem unaltered_inv {w w' : World} {instr : Instr} {program : List Instr} (hinv : Inv w)
    (hran : Ran w w' instr program) (hun : Unaltered w w') (hmoves : ClockMoves w w' instr)
    (howes : ¬Owes instr)
    (hfits : ∀ g request, fits (w'.backing g) request = fits (w.backing g) request)
    (hleases : ∀ g, (w'.backing g).leases = (w.backing g).leases)
    (hsafe : ∀ g, (w.backing g).safeAt ≤ (w'.backing g).safeAt)
    (hatt : ∀ g, Attended w g → Attended w' g)
    (hreturned : ∀ g ∈ w.returned, g ∈ w'.returned)
    (hpush : ∀ g, instr = .returnPush g → g ∈ w'.returned)
    (hsubs : ∀ i ∈ program, ∀ request, ¬i.Subscribes request) : Inv w' := by
  have hq : Quiet w w' :=
    ⟨fun _ hg => hun.all ▸ hg, fun g _ => hfits g, fun g _ => hatt g, hun.behind⟩
  refine ⟨⟨?_, ?_, fun g hg hl => ?_⟩, hmoves.kept hran hinv.clock,
    wakesOwed_quiet hinv.wakes hq hun.scanEvents (fun _ h => hun.waiters ▸ h)
      (fun _ _ h => hun.acquirer ▸ h) (fun i hi h => ?_) (fun request hr => ?_)
      (hq.searching_same hun.acquirer hun.free hsafe hinv.wakes.searching)⟩
  · rw [hun.events, hun.scanEvents]
    exact hinv.books.scanned
  · rw [hun.events, hun.acquirer]
    exact hinv.books.loaded
  · rw [hun.all] at hg
    rw [hleases] at hl
    rw [hun.free]
    rcases hinv.books.placed g hg hl with h | h | h
    · exact .inl h
    · exact .inr (.inl (hreturned g h))
    · rcases hran.keep _ h with he | h
      · exact .inr (.inl (hpush g he))
      · exact .inr (.inr h)
  · exact (hran.keep _ h).resolve_left fun he => howes (he ▸ hi)
  · rcases hran.only _ hr with h | ⟨i, hi, h⟩
    · exact .inl h
    · exact absurd h (hsubs i hi request)

/-- The same, for an instruction that leaves the backings as they are. -/
theorem unaltered_same {w w' : World} {instr : Instr} {program : List Instr} (hinv : Inv w)
    (hran : Ran w w' instr program) (hun : Unaltered w w') (hmoves : ClockMoves w w' instr)
    (howes : ¬Owes instr) (hraises : instr.Raises → ∃ i ∈ program, i.Raises)
    (hback : ∀ g, SameBacking (w.backing g) (w'.backing g))
    (hreturned : ∀ g ∈ w.returned, g ∈ w'.returned)
    (hpush : ∀ g, instr = .returnPush g → g ∈ w'.returned)
    (hsubs : ∀ i ∈ program, ∀ request, ¬i.Subscribes request) : Inv w' := by
  have hsafe : ∀ g, (w.backing g).safeAt ≤ (w'.backing g).safeAt :=
    fun g => Nat.le_of_eq (hback g).safeAt.symm
  refine unaltered_inv hinv hran hun hmoves howes (fun g => (hback g).fits)
    (fun g => (hback g).leases) hsafe (fun g => ?_) hreturned hpush hsubs
  refine attended_ran hran hmoves hraises (fun h => ?_) (fun h => .inl ?_)
    (hback g).readbackPins (hsafe g)
  · rw [(hback g).leases]
    exact h
  · rw [(hback g).bindingConsumers]
    exact h

/-! ## The clock's instructions -/

theorem clockSubscribe_moves {w w' : World} {point : Nat} {program : List Instr}
    (hc : ClockKept w) (hran : Ran w w' (.clockSubscribe point) program)
    (hprogram : program = if point ≤ w.completed then [.armFired point] else [.clockPush point])
    (harmed : w'.armedAt = w.armedAt) (hcompleted : w'.completed = w.completed)
    (hwaiters : w'.clockWaiters = w.clockWaiters) : ClockMoves w w' (.clockSubscribe point) := by
  refine ⟨fun p hp => ?_, fun _ => ⟨harmed, fun he => by cases he⟩, fun p hp => ?_⟩
  · rcases hp with hp | hp
    · exact .inl (.inl (hwaiters ▸ hp))
    · rcases hran.keep _ hp with hcar | hp
      · have hpp : point = p := hcar
        subst hpp
        rw [hprogram] at hran
        split at hran
        · exact .inr (hran.new _ ⟨_, List.mem_cons_self, rfl⟩)
        · exact .inl (.inr (hran.new _ ⟨_, List.mem_cons_self, rfl⟩))
      · exact .inl (.inr hp)
  · rw [hwaiters] at hp
    rw [hcompleted]
    exact stillNoticed hran id (hc.reached p hp)

theorem clockPush_moves {w w' : World} {point : Nat} (hc : ClockKept w)
    (hran : Ran w w' (.clockPush point) [.clockRecheck point])
    (harmed : w'.armedAt = w.armedAt) (hcompleted : w'.completed = w.completed)
    (hwaiters : w'.clockWaiters = point :: w.clockWaiters) :
    ClockMoves w w' (.clockPush point) := by
  refine ⟨fun p hp => .inl ?_, fun _ => ⟨harmed, fun he => by cases he⟩, fun p hp => ?_⟩
  · rcases hp with hp | hp
    · exact .inl (hwaiters ▸ List.mem_cons_of_mem _ hp)
    · rcases hran.keep _ hp with hcar | hp
      · have hpp : point = p := hcar
        exact .inl (hwaiters ▸ hpp ▸ List.mem_cons_self)
      · exact .inr hp
  · rw [hwaiters] at hp
    rw [hcompleted]
    rcases List.mem_cons.mp hp with rfl | hp
    · exact .inr (.inr (.inl (hran.new _ ⟨_, List.mem_cons_self, rfl⟩)))
    exact stillNoticed hran id (hc.reached p hp)

/-- A waiter's thread looked again after its push, or after putting back what it kept: either the
point is reached and it takes the stack, or whoever it looked for is not reached. -/
theorem recheck_moves {w w' : World} {instr : Instr} {least : Nat} (hc : ClockKept w)
    (hinstr : instr = .clockRecheck least ∨ instr = .runCheck least)
    (hran : Ran w w' instr (if least ≤ w.completed then [.runTake] else []))
    (harmed : w'.armedAt = w.armedAt) (hcompleted : w'.completed = w.completed)
    (hwaiters : w'.clockWaiters = w.clockWaiters) : ClockMoves w w' instr := by
  have hnot : ∀ i, (∀ p, i ≠ .clockRecheck p) → (∀ p, i ≠ .runCheck p) → i ≠ instr := by
    rintro i h₁ h₂ rfl
    rcases hinstr with he | he
    · exact h₁ _ he
    · exact h₂ _ he
  have hlook : ∀ p, least ≤ p → w.completed < p ∨ Has w' (· = .runTake) := by
    intro p hle
    by_cases hreached : least ≤ w.completed
    · rw [if_pos hreached] at hran
      exact .inr (hran.new _ ⟨_, List.mem_cons_self, rfl⟩)
    · exact .inl (by omega)
  refine ⟨fun p hp => .inl ?_, fun _ => ⟨harmed, fun he => ?_⟩, fun p hp => ?_⟩
  · rcases hp with hp | hp
    · exact .inl (hwaiters ▸ hp)
    · refine .inr ((hran.keep _ hp).resolve_left fun hcar => ?_)
      rcases hinstr with rfl | rfl <;> exact hcar
  · exact hnot _ (fun _ h => by cases h) (fun _ h => by cases h) he.symm
  · rw [hwaiters] at hp
    rw [hcompleted]
    rcases hc.reached p hp with h | h | h | ⟨lowest, hle, h⟩
    · exact .inl h
    · exact .inr (.inl ((hran.keep _ h).resolve_left fun he =>
        hnot .runTake (fun _ h => by cases h) (fun _ h => by cases h) he.symm))
    · rcases hran.keep _ h with he | h
      · have hl : least = p := by
          rcases hinstr with hi | hi <;> rw [hi] at he <;> cases he
          rfl
        exact (hlook p (Nat.le_of_eq hl)).imp_right .inl
      · exact .inr (.inr (.inl h))
    · rcases hran.keep _ h with he | h
      · have hl : least = lowest := by
          rcases hinstr with hi | hi <;> rw [hi] at he <;> cases he
          rfl
        exact (hlook p (by omega)).imp_right .inl
      · exact .inr (.inr (.inr ⟨lowest, hle, h⟩))

theorem runTake_moves {w w' : World} {program : List Instr}
    (hran : Ran w w' .runTake program) (harmed : w'.armedAt = w.armedAt)
    (hwaiters : w'.clockWaiters = [])
    (hprogram : w.clockWaiters = [] ∨ program = [.runClock w.clockWaiters]) :
    ClockMoves w w' .runTake := by
  refine ⟨fun p hp => .inl ?_, fun _ => ⟨harmed, fun he => by cases he⟩, fun p hp => ?_⟩
  · rcases hp with hp | hp
    · rcases hprogram with he | he
      · rw [he] at hp
        exact absurd hp List.not_mem_nil
      · rw [he] at hran
        exact .inr (hran.new _ ⟨_, List.mem_cons_self, hp⟩)
    · exact .inr ((hran.keep _ hp).resolve_left id)
  · rw [hwaiters] at hp
    exact absurd hp List.not_mem_nil

theorem runClock_moves {w w' : World} {list program : List Nat} {instrs : List Instr}
    (hc : ClockKept w) (hran : Ran w w' (.runClock list) instrs)
    (hinstrs : instrs = program.map .armFired
      ++ [.runKeep (list.filter fun point => decide (w.completed < point)).reverse])
    (hfired : program = list.filter fun point => decide (point ≤ w.completed))
    (harmed : w'.armedAt = w.armedAt) (hcompleted : w'.completed = w.completed)
    (hwaiters : w'.clockWaiters = w.clockWaiters) : ClockMoves w w' (.runClock list) := by
  refine ⟨fun p hp => ?_, fun _ => ⟨harmed, fun he => by cases he⟩, fun p hp => ?_⟩
  · rcases hp with hp | hp
    · exact .inl (.inl (hwaiters ▸ hp))
    · rcases hran.keep _ hp with hcar | hp
      · have hmem : p ∈ list := hcar
        rw [hinstrs, hfired] at hran
        rcases Nat.lt_or_ge w.completed p with hlt | hle
        · refine .inl (.inr (hran.new _ ⟨_, List.mem_append_right _ List.mem_cons_self, ?_⟩))
          exact List.mem_reverse.mpr (List.mem_filter.mpr ⟨hmem, decide_eq_true hlt⟩)
        · refine .inr (hran.new _ ⟨_, List.mem_append_left _ (List.mem_map.mpr ⟨p, ?_, rfl⟩), rfl⟩)
          exact List.mem_filter.mpr ⟨hmem, decide_eq_true hle⟩
      · exact .inl (.inr hp)
  · rw [hwaiters] at hp
    rw [hcompleted]
    exact stillNoticed hran id (hc.reached p hp)

theorem foldl_min_le : ∀ (l : List Nat) (m : Nat),
    l.foldl min m ≤ m ∧ ∀ p ∈ l, l.foldl min m ≤ p := by
  intro l
  induction l with
  | nil => exact fun m => ⟨Nat.le_refl _, fun p hp => absurd hp List.not_mem_nil⟩
  | cons x l ih =>
    intro m
    obtain ⟨hm, hl⟩ := ih (min m x)
    refine ⟨Nat.le_trans hm (Nat.min_le_left _ _), fun p hp => ?_⟩
    rcases List.mem_cons.mp hp with rfl | hp
    · exact Nat.le_trans hm (Nat.min_le_right _ _)
    · exact hl p hp

theorem runKeep_moves {w w' : World} {kept : List Nat} (hc : ClockKept w)
    (hran : Ran w w' (.runKeep kept) [.runCheck (kept.foldl min kMax)])
    (harmed : w'.armedAt = w.armedAt) (hcompleted : w'.completed = w.completed)
    (hwaiters : w'.clockWaiters = kept ++ w.clockWaiters) : ClockMoves w w' (.runKeep kept) := by
  refine ⟨fun p hp => .inl ?_, fun _ => ⟨harmed, fun he => by cases he⟩, fun p hp => ?_⟩
  · rcases hp with hp | hp
    · exact .inl (hwaiters ▸ List.mem_append_right _ hp)
    · rcases hran.keep _ hp with hcar | hp
      · exact .inl (hwaiters ▸ List.mem_append_left _ hcar)
      · exact .inr hp
  · rw [hwaiters] at hp
    rw [hcompleted]
    rcases List.mem_append.mp hp with hp | hp
    · exact .inr (.inr (.inr ⟨_, (foldl_min_le kept kMax).2 p hp,
        hran.new _ ⟨_, List.mem_cons_self, rfl⟩⟩))
    exact stillNoticed hran id (hc.reached p hp)

theorem armFired_moves {w w' : World} {point : Nat} (hc : ClockKept w)
    (hran : Ran w w' (.armFired point) [.countEvent])
    (harmed : w'.armedAt = if w.armedAt = point then 0 else w.armedAt)
    (hcompleted : w'.completed = w.completed) (hwaiters : w'.clockWaiters = w.clockWaiters) :
    ClockMoves w w' (.armFired point) := by
  refine ⟨fun p hp => .inl ?_, fun hne => ?_, fun p hp => ?_⟩
  · rcases hp with hp | hp
    · exact .inl (hwaiters ▸ hp)
    · exact .inr ((hran.keep _ hp).resolve_left id)
  · rw [harmed] at hne
    split at hne
    · exact absurd rfl hne
    · rename_i hother
      refine ⟨by rw [harmed, if_neg hother], fun he => ?_⟩
      cases he
      exact hother rfl
  · rw [hwaiters] at hp
    rw [hcompleted]
    exact stillNoticed hran id (hc.reached p hp)

/-! ## Counting, taking and subscribing -/

/-- An event counted leaves everyone who still has to compare behind, and everyone subscribed about
to be taken. -/
theorem countEvent_inv {w w' : World} (hinv : Inv w)
    (hran : Ran w w' .countEvent [.takeWaiters]) (hall : w'.all = w.all) (hfree : w'.free = w.free)
    (hreturned : w'.returned = w.returned) (hback : w'.backing = w.backing)
    (hevents : w'.events = w.events + 1) (hscan : w'.scanEvents = w.scanEvents)
    (hacq : w'.acquirer = w.acquirer) (hmoves : ClockMoves w w' .countEvent) : Inv w' := by
  have hbehind : Behind w' := by
    refine ⟨?_, fun call e he => ?_⟩
    · have := hinv.books.scanned
      omega
    · have := hinv.books.loaded call e (hacq ▸ he)
      omega
  refine ⟨⟨?_, fun call e he => ?_, fun g hg hl => ?_⟩, hmoves.kept hran hinv.clock,
    ⟨fun call phase _ => .inl hbehind, fun request _ => .inl hbehind, fun waiter _ => .inl ?_⟩⟩
  · have := hinv.books.scanned
    omega
  · have := hinv.books.loaded call e (hacq ▸ he)
    omega
  · rw [hall] at hg
    rw [hback] at hl
    rw [hfree, hreturned]
    refine (hinv.books.placed g hg hl).imp_right (Or.imp_right fun h => ?_)
    exact (hran.keep _ h).resolve_left fun he => by cases he
  · exact hran.new _ ⟨_, List.mem_cons_self, rfl⟩

/-- Everything a step leaves alone that only touches the waiters' side, or ends the search. -/
structure PoolKept (w w' : World) : Prop where
  all : w'.all = w.all
  free : w'.free = w.free
  returned : w'.returned = w.returned
  backing : w'.backing = w.backing
  events : w'.events = w.events
  scanEvents : w'.scanEvents = w.scanEvents
  acquirer : ∀ x, w'.acquirer = some x → w.acquirer = some x
  armedAt : w'.armedAt = w.armedAt
  completed : w'.completed = w.completed
  clockWaiters : w'.clockWaiters = w.clockWaiters

theorem PoolKept.attended {w w' : World} {instr : Instr} {program : List Instr}
    (h : PoolKept w w') (hran : Ran w w' instr program) (hmoves : ClockMoves w w' instr)
    (hraises : ¬instr.Raises) {g : Nat} (ha : Attended w g) : Attended w' g := by
  refine attended_ran hran hmoves (fun hr => absurd hr hraises) ?_ ?_ ?_ ?_ ha <;>
    rw [h.backing]
  · exact id
  · exact .inl

theorem PoolKept.quiet {w w' : World} {instr : Instr} {program : List Instr}
    (h : PoolKept w w') (hran : Ran w w' instr program) (hmoves : ClockMoves w w' instr)
    (hraises : ¬instr.Raises) : Quiet w w' := by
  refine ⟨fun _ hg => h.all ▸ hg, fun g _ request => by rw [h.backing],
    fun g _ ha => h.attended hran hmoves hraises ha, fun hb => ⟨?_, fun call e he => ?_⟩⟩
  · rw [h.events, h.scanEvents]
    exact hb.1
  · rw [h.events]
    exact hb.2 call e (h.acquirer _ he)

theorem PoolKept.books {w w' : World} {instr : Instr} {program : List Instr}
    (h : PoolKept w w') (hran : Ran w w' instr program) (hraises : ¬instr.Raises)
    (hb : Bookkeeping w) : Bookkeeping w' := by
  refine ⟨?_, ?_, fun g hg hl => ?_⟩
  · rw [h.events, h.scanEvents]
    exact hb.scanned
  · rw [h.events]
    exact fun call e he => hb.loaded call e (h.acquirer _ he)
  · rw [h.all] at hg
    rw [h.backing] at hl
    rw [h.free, h.returned]
    refine (hb.placed g hg hl).imp_right (Or.imp_right fun hp => ?_)
    refine (hran.keep _ hp).resolve_left fun he => hraises ?_
    rw [he]
    exact trivial

theorem PoolKept.searching {w w' : World} (h : PoolKept w w') (hq : Quiet w w')
    (hs : ∀ call phase, w.acquirer = some (call, phase) → Searching w call phase) :
    ∀ call phase, w'.acquirer = some (call, phase) → Searching w' call phase := by
  intro call phase hp
  refine hq.searching (hs call phase (h.acquirer _ hp)) fun g _ ho => .inr ?_
  exact open_mono h.free (by rw [h.backing]) ho

theorem PoolKept.moves {w w' : World} {instr : Instr} {program : List Instr}
    (h : PoolKept w w') (hran : Ran w w' instr program) (hoff : OffClock instr)
    (hc : ClockKept w) : ClockMoves w w' instr :=
  clockMoves_off hran hoff hc h.armedAt h.completed h.clockWaiters

/-- The waiters taken are woken; nobody is subscribed after it. -/
theorem takeWaiters_inv {w w' : World} (hinv : Inv w)
    (hran : Ran w w' .takeWaiters (w.waiters.map .wake)) (hkept : PoolKept w w')
    (hwaiters : w'.waiters = []) : Inv w' := by
  have hmoves := hkept.moves hran trivial hinv.clock
  have hq := hkept.quiet hran hmoves id
  refine ⟨hkept.books hran id hinv.books, hmoves.kept hran hinv.clock,
    ⟨hkept.searching hq hinv.wakes.searching, fun request hr => ?_, fun waiter hw => ?_⟩⟩
  · rcases hran.only _ hr with h | ⟨i, hi, h⟩
    · exact hq.covered (hinv.wakes.unsubscribed request h)
    · obtain ⟨waiter, _, rfl⟩ := List.mem_map.mp hi
      exact absurd h id
  · rw [hwaiters] at hw
    exact absurd hw List.not_mem_nil

/-- A waiter subscribes still covered: its comparison will see what it missed. -/
theorem subscribePush_inv {w w' : World} {waiter : Waiter} (hinv : Inv w)
    (hran : Ran w w' (.subscribePush waiter) [.subscribeLoad waiter]) (hkept : PoolKept w w')
    (hwaiters : w'.waiters = waiter :: w.waiters) : Inv w' := by
  have hmoves := hkept.moves hran trivial hinv.clock
  have hq := hkept.quiet hran hmoves id
  have hcov : Covered w' waiter.request :=
    hq.covered (hinv.wakes.unsubscribed _ (hran.had _ rfl))
  refine ⟨hkept.books hran id hinv.books, hmoves.kept hran hinv.clock,
    ⟨hkept.searching hq hinv.wakes.searching, fun request hr => ?_, fun x hx => ?_⟩⟩
  · rcases hran.only _ hr with h | ⟨i, hi, h⟩
    · exact hq.covered (hinv.wakes.unsubscribed request h)
    · rw [List.mem_singleton.mp hi] at h
      have heq : waiter.request = request := h
      exact heq ▸ hcov
  · rw [hwaiters] at hx
    have hload : Has w' (· = .subscribeLoad waiter) := hran.new _ ⟨_, List.mem_cons_self, rfl⟩
    rcases List.mem_cons.mp hx with rfl | hx
    · rcases hcov with hb | hc
      · exact .inr (.inr (.inl ⟨hload, hb⟩))
      · exact .inr (.inl hc)
    · have hold : WakesOwed { w' with waiters := w.waiters } := wakesOwed_quiet hinv.wakes
        ⟨hq.all, hq.fits, hq.attended, hq.behind⟩ hkept.scanEvents (fun _ h => h)
        (fun _ _ h => hkept.acquirer _ h)
        (fun i hi h => (hran.keep _ h).resolve_left fun he => by rw [← he] at hi; exact hi)
        (fun request hr => (hran.only _ hr).imp id fun ⟨i, hi, h⟩ => by
          rw [List.mem_singleton.mp hi] at h
          have heq : waiter.request = request := h
          exact heq ▸ hcov)
        (hkept.searching hq hinv.wakes.searching)
      exact hold.subscribed x hx

/-- The first half of the comparison: behind then, the events loaded differ from `scanEvents`. -/
theorem subscribeLoad_inv {w w' : World} {waiter : Waiter} (hinv : Inv w)
    (hran : Ran w w' (.subscribeLoad waiter) [.subscribeCompare waiter w.events])
    (hkept : PoolKept w w') (hwaiters : w'.waiters = w.waiters) : Inv w' := by
  have hmoves := hkept.moves hran trivial hinv.clock
  have hq := hkept.quiet hran hmoves id
  have hcov : Covered w' waiter.request :=
    hq.covered (hinv.wakes.unsubscribed _ (hran.had _ rfl))
  have hkeep : ∀ i, i ≠ .subscribeLoad waiter → Has w (· = i) → Has w' (· = i) :=
    fun i hi h => (hran.keep _ h).resolve_left fun he => hi he.symm
  refine ⟨hkept.books hran id hinv.books, hmoves.kept hran hinv.clock,
    ⟨hkept.searching hq hinv.wakes.searching, fun request hr => ?_, fun x hx => ?_⟩⟩
  · rcases hran.only _ hr with h | ⟨i, hi, h⟩
    · exact hq.covered (hinv.wakes.unsubscribed request h)
    · rw [List.mem_singleton.mp hi] at h
      have heq : waiter.request = request := h
      exact heq ▸ hcov
  · rw [hwaiters] at hx
    rcases hinv.wakes.subscribed x hx with h | h | ⟨h, hb⟩ | ⟨e, h, hne, hs⟩
    · exact .inl (hkeep _ (fun h => by cases h) h)
    · exact .inr (.inl (hq.classAttended h))
    · rcases hran.keep _ h with he | h
      · cases he
        refine .inr (.inr (.inr ⟨w.events, hran.new _ ⟨_, List.mem_cons_self, rfl⟩, ?_, ?_⟩))
        · rw [hkept.scanEvents]
          exact hb.1
        · exact fun call e he => hb.2 call e (hkept.acquirer _ he)
      · exact .inr (.inr (.inl ⟨h, hq.behind hb⟩))
    · refine .inr (.inr (.inr ⟨e, hkeep _ (fun h => by cases h) h, ?_, ?_⟩))
      · rw [hkept.scanEvents]
        exact hne
      · exact fun call e' he => hs call e' (hkept.acquirer _ he)

/-- The second half: a difference raises the event that wakes the waiter. -/
theorem subscribeCompare_inv {w w' : World} {waiter : Waiter} {events : Nat} (hinv : Inv w)
    (hran : Ran w w' (.subscribeCompare waiter events)
      (if events ≠ w.scanEvents then [.countEvent] else []))
    (hkept : PoolKept w w') (hwaiters : w'.waiters = w.waiters) : Inv w' := by
  have hmoves := hkept.moves hran trivial hinv.clock
  have hq := hkept.quiet hran hmoves id
  have hkeep : ∀ i, i ≠ .subscribeCompare waiter events → Has w (· = i) → Has w' (· = i) :=
    fun i hi h => (hran.keep _ h).resolve_left fun he => hi he.symm
  refine ⟨hkept.books hran id hinv.books, hmoves.kept hran hinv.clock,
    ⟨hkept.searching hq hinv.wakes.searching, fun request hr => ?_, fun x hx => ?_⟩⟩
  · rcases hran.only _ hr with h | ⟨i, hi, h⟩
    · exact hq.covered (hinv.wakes.unsubscribed request h)
    · split at hi
      · rw [List.mem_singleton.mp hi] at h
        exact absurd h id
      · exact absurd hi List.not_mem_nil
  · rw [hwaiters] at hx
    rcases hinv.wakes.subscribed x hx with h | h | ⟨h, hb⟩ | ⟨e, h, hne, hs⟩
    · exact .inl (hkeep _ (fun h => by cases h) h)
    · exact .inr (.inl (hq.classAttended h))
    · exact .inr (.inr (.inl ⟨hkeep _ (fun h => by cases h) h, hq.behind hb⟩))
    · rcases hran.keep _ h with he | h
      · cases he
        rw [if_pos hne] at hran
        refine .inr (.inl fun g _ _ => .inr (.inr (.inr (.inl ?_))))
        exact hran.new _ ⟨_, List.mem_cons_self, trivial⟩
      · refine .inr (.inr (.inr ⟨e, h, ?_, fun call e' he => hs call e' (hkept.acquirer _ he)⟩))
        rw [hkept.scanEvents]
        exact hne

/-- `Acquire` has returned empty after arming: its caller is covered already. -/
theorem endAcquire_inv {w w' : World} {call : Call} (hinv : Inv w)
    (hran : Ran w w' (.endAcquire call) (subscription call)) (hkept : PoolKept w w')
    (hwaiters : w'.waiters = w.waiters) : Inv w' := by
  have hmoves := hkept.moves hran trivial hinv.clock
  have hq := hkept.quiet hran hmoves id
  refine ⟨hkept.books hran id hinv.books, hmoves.kept hran hinv.clock,
    wakesOwed_quiet hinv.wakes hq hkept.scanEvents (fun _ h => hwaiters ▸ h)
      (fun _ _ h => hkept.acquirer _ h)
      (fun i hi h => (hran.keep _ h).resolve_left fun he => by rw [← he] at hi; exact hi)
      (fun request hr => ?_) (hkept.searching hq hinv.wakes.searching)⟩
  refine (hran.only _ hr).imp id fun hnew => ?_
  refine hq.covered (hinv.wakes.unsubscribed request (hran.had _ ⟨?_, subscription_only hnew⟩))
  obtain ⟨i, hi, _⟩ := hnew
  unfold subscription at hi
  split at hi
  · rename_i h
    rw [h]
    rfl
  · exact absurd hi List.not_mem_nil

/-! ## Every step -/

theorem pinUndo_inv {w w' : World} {x : Nat} (hinv : Inv w)
    (hran : Ran w w' (.pinUndo x) (if (w.backing x).bindingConsumers = 1 then [.countEvent] else []))
    (hun : Unaltered w w') (hmoves : ClockMoves w w' (.pinUndo x))
    (hreturned : w'.returned = w.returned)
    (hback : ∀ g, w'.backing g = if g = x then
      { w.backing g with bindingConsumers := (w.backing g).bindingConsumers - 1 }
      else w.backing g) : Inv w' := by
  refine unaltered_inv hinv hran hun hmoves id (fun g request => ?_) (fun g => ?_) (fun g => ?_)
    (fun g => ?_) (fun g h => hreturned ▸ h) (fun g h => by cases h) (fun i hi request hs => ?_)
  · rw [hback]
    split <;> rfl
  · rw [hback]
    split <;> rfl
  · rw [hback]
    split <;> exact Nat.le_refl _
  · refine attended_ran hran hmoves (fun h => absurd h id) (fun h => ?_) (fun h => ?_) ?_ ?_
    · rw [hback]
      split <;> exact h
    · rw [hback]
      by_cases hg : g = x
      · subst hg
        rw [if_pos rfl]
        by_cases hone : (w.backing g).bindingConsumers = 1
        · rw [if_pos hone]
          exact .inr ⟨_, List.mem_cons_self, trivial⟩
        · exact .inl (by simp only; omega)
      · rw [if_neg hg]
        exact .inl h
    · rw [hback]
      split <;> rfl
    · rw [hback]
      split <;> exact Nat.le_refl _
  · split at hi
    · rw [List.mem_singleton.mp hi] at hs
      exact hs
    · exact absurd hi List.not_mem_nil

/-- **Every access of a call in progress keeps the invariant.** -/
theorem instrStep_inv {w w' : World} {instr : Instr} {thread : Nat} {rest : List Instr}
    (hinv : Inv w) (hthread : w.threads[thread]? = some (instr :: rest))
    (hw : w' = { (instrStep w instr).1 with
      threads := (instrStep w instr).1.threads.set thread ((instrStep w instr).2 ++ rest) }) :
    Inv w' := by
  have hran : Ran w w' instr (instrStep w instr).2 := by
    refine ran_set hthread ?_
    rw [hw]
    cases instr <;> simp only [instrStep] <;> (try split) <;> rfl
  have hsame : ∀ g, SameBacking (w.backing g) (w.backing g) := fun _ => SameBacking.rfl'
  have hc := hinv.clock
  cases instr with
  | returnPush x =>
    subst hw
    refine unaltered_same hinv hran ⟨rfl, rfl, rfl, rfl, rfl, rfl⟩
      (clockMoves_off hran trivial hc rfl rfl rfl) id
      (fun _ => ⟨_, List.mem_cons_self, trivial⟩) hsame
      (fun g h => List.mem_cons_of_mem _ h) (fun g h => ?_) (fun i hi request hs => ?_)
    · cases h
      exact List.mem_cons_self
    · rw [List.mem_singleton.mp hi] at hs
      exact hs
  | countEvent =>
    subst hw
    exact countEvent_inv hinv hran rfl rfl rfl rfl rfl rfl rfl
      (clockMoves_off hran trivial hc rfl rfl rfl)
  | takeWaiters =>
    subst hw
    exact takeWaiters_inv hinv hran
      ⟨rfl, rfl, rfl, rfl, rfl, rfl, fun _ h => h, rfl, rfl, rfl⟩ rfl
  | wake waiter =>
    subst hw
    exact unaltered_same hinv hran ⟨rfl, rfl, rfl, rfl, rfl, rfl⟩
      (clockMoves_off hran trivial hc rfl rfl rfl) id (fun h => absurd h id) hsame
      (fun g h => h) (fun g h => by cases h) (fun i hi _ _ => absurd hi List.not_mem_nil)
  | pinCheck x =>
    subst hw
    by_cases hretired : (w.backing x).retired = true
    · simp only [instrStep, hretired, if_true] at hran ⊢
      refine unaltered_same hinv hran ⟨rfl, rfl, rfl, rfl, rfl, rfl⟩
        (clockMoves_off hran trivial hc rfl rfl rfl) id (fun h => absurd h id) hsame
        (fun g h => h) (fun g h => by cases h) (fun i hi request hs => ?_)
      rw [List.mem_singleton.mp hi] at hs
      exact hs
    · simp only [instrStep, if_neg hretired] at hran ⊢
      refine unaltered_same hinv hran ⟨rfl, rfl, rfl, rfl, rfl, rfl⟩
        (clockMoves_off hran trivial hc rfl rfl rfl) id (fun h => absurd h id) (fun g => ?_)
        (fun g h => h) (fun g h => by cases h) (fun i hi _ _ => absurd hi List.not_mem_nil)
      simp only [World.modify]
      split <;> exact ⟨rfl, rfl, rfl, rfl, rfl, rfl⟩
  | pinUndo x =>
    subst hw
    exact pinUndo_inv hinv hran ⟨rfl, rfl, rfl, rfl, rfl, rfl⟩
      (clockMoves_off hran trivial hc rfl rfl rfl) rfl fun _ => rfl
  | clockSubscribe point =>
    subst hw
    refine unaltered_same hinv hran ⟨rfl, rfl, rfl, rfl, rfl, rfl⟩
      (clockSubscribe_moves hc hran rfl rfl rfl rfl) id (fun h => absurd h id) hsame
      (fun g h => h) (fun g h => by cases h) (fun i hi request hs => ?_)
    simp only [instrStep] at hi
    split at hi <;> rw [List.mem_singleton.mp hi] at hs <;> exact hs
  | clockPush point =>
    subst hw
    refine unaltered_same hinv hran ⟨rfl, rfl, rfl, rfl, rfl, rfl⟩
      (clockPush_moves hc hran rfl rfl rfl) id (fun h => absurd h id) hsame
      (fun g h => h) (fun g h => by cases h) (fun i hi request hs => ?_)
    rw [List.mem_singleton.mp hi] at hs
    exact hs
  | clockRecheck point =>
    subst hw
    refine unaltered_same hinv hran ⟨rfl, rfl, rfl, rfl, rfl, rfl⟩
      (recheck_moves hc (.inl rfl) hran rfl rfl rfl) id (fun h => absurd h id) hsame
      (fun g h => h) (fun g h => by cases h) (fun i hi request hs => ?_)
    simp only [instrStep] at hi
    split at hi
    · rw [List.mem_singleton.mp hi] at hs
      exact hs
    · exact absurd hi List.not_mem_nil
  | runTake =>
    by_cases hempty : w.clockWaiters = []
    · simp only [instrStep, if_pos hempty] at hran hw
      subst hw
      exact unaltered_same hinv hran ⟨rfl, rfl, rfl, rfl, rfl, rfl⟩
        (runTake_moves hran rfl hempty (.inl hempty)) id (fun h => absurd h id) hsame
        (fun g h => h) (fun g h => by cases h) (fun i hi _ _ => absurd hi List.not_mem_nil)
    · simp only [instrStep, if_neg hempty] at hran hw
      subst hw
      refine unaltered_same hinv hran ⟨rfl, rfl, rfl, rfl, rfl, rfl⟩
        (runTake_moves hran rfl rfl (.inr rfl)) id (fun h => absurd h id) hsame
        (fun g h => h) (fun g h => by cases h) (fun i hi request hs => ?_)
      rw [List.mem_singleton.mp hi] at hs
      exact hs
  | runClock list =>
    subst hw
    refine unaltered_same hinv hran ⟨rfl, rfl, rfl, rfl, rfl, rfl⟩
      (runClock_moves hc hran rfl rfl rfl rfl rfl) id (fun h => absurd h id) hsame
      (fun g h => h) (fun g h => by cases h) (fun i hi request hs => ?_)
    rcases List.mem_append.mp hi with hi | hi
    · obtain ⟨_, _, rfl⟩ := List.mem_map.mp hi
      exact hs
    · rw [List.mem_singleton.mp hi] at hs
      exact hs
  | runKeep kept =>
    by_cases hempty : kept = []
    · subst hempty
      simp only [instrStep, if_true] at hran hw
      subst hw
      refine unaltered_same hinv hran ⟨rfl, rfl, rfl, rfl, rfl, rfl⟩
        ⟨fun p hp => .inl (hp.imp id fun h => ?_), fun _ => ⟨rfl, fun he => by cases he⟩,
          fun p hp => stillNoticed hran id (hc.reached p hp)⟩ id (fun h => absurd h id) hsame
        (fun g h => h) (fun g h => by cases h) (fun i hi _ _ => absurd hi List.not_mem_nil)
      exact (hran.keep _ h).resolve_left List.not_mem_nil
    · simp only [instrStep, if_neg hempty] at hran hw
      subst hw
      refine unaltered_same hinv hran ⟨rfl, rfl, rfl, rfl, rfl, rfl⟩
        (runKeep_moves hc hran rfl rfl rfl) id (fun h => absurd h id) hsame
        (fun g h => h) (fun g h => by cases h) (fun i hi request hs => ?_)
      rw [List.mem_singleton.mp hi] at hs
      exact hs
  | runCheck lowest =>
    subst hw
    refine unaltered_same hinv hran ⟨rfl, rfl, rfl, rfl, rfl, rfl⟩
      (recheck_moves hc (.inr rfl) hran rfl rfl rfl) id (fun h => absurd h id) hsame
      (fun g h => h) (fun g h => by cases h) (fun i hi request hs => ?_)
    simp only [instrStep] at hi
    split at hi
    · rw [List.mem_singleton.mp hi] at hs
      exact hs
    · exact absurd hi List.not_mem_nil
  | armFired point =>
    subst hw
    refine unaltered_same hinv hran ⟨rfl, rfl, rfl, rfl, rfl, rfl⟩
      (armFired_moves hc hran rfl rfl rfl) id (fun _ => ⟨_, List.mem_cons_self, trivial⟩) hsame
      (fun g h => h) (fun g h => by cases h) (fun i hi request hs => ?_)
    rw [List.mem_singleton.mp hi] at hs
    exact hs
  | endAcquire call =>
    subst hw
    exact endAcquire_inv hinv hran
      ⟨rfl, rfl, rfl, rfl, rfl, rfl, fun _ h => (by cases h), rfl, rfl, rfl⟩ rfl
  | subscribePush waiter =>
    subst hw
    exact subscribePush_inv hinv hran
      ⟨rfl, rfl, rfl, rfl, rfl, rfl, fun _ h => h, rfl, rfl, rfl⟩ rfl
  | subscribeLoad waiter =>
    subst hw
    exact subscribeLoad_inv hinv hran
      ⟨rfl, rfl, rfl, rfl, rfl, rfl, fun _ h => h, rfl, rfl, rfl⟩ rfl
  | subscribeCompare waiter events =>
    subst hw
    exact subscribeCompare_inv hinv hran
      ⟨rfl, rfl, rfl, rfl, rfl, rfl, fun _ h => h, rfl, rfl, rfl⟩ rfl

/-- A step of the environment on one backing, and the call it begins. -/
theorem environment_inv {w : World} {x : Nat} {f : Backing → Backing} {program : List Instr}
    (hinv : Inv w) (hfits : ∀ b request, fits (f b) request = fits b request)
    (hsafe : ∀ b, b.safeAt ≤ (f b).safeAt)
    (hattended : 0 < (f (w.backing x)).leases ∨ 0 < (f (w.backing x)).bindingConsumers
      ∨ (∃ i ∈ program, i.Raises)
      ∨ ((w.backing x).leases = 0 ∧ (w.backing x).bindingConsumers = 0
        ∧ (f (w.backing x)).readbackPins = (w.backing x).readbackPins))
    (hplaced : (f (w.backing x)).leases = 0 →
      (w.backing x).leases = 0 ∨ .returnPush x ∈ program)
    (hsubs : ∀ i ∈ program, ∀ request, ¬i.Subscribes request) :
    Inv ((w.modify x f).spawn program) := by
  have hback : ∀ g, ((w.modify x f).spawn program).backing g =
      if g = x then f (w.backing g) else w.backing g := fun _ => rfl
  have hhas : ∀ p, Has w p → Has ((w.modify x f).spawn program) p :=
    fun p hp => has_spawn.mpr (.inl hp)
  have hpend : ∀ p, ClockPending w p → ClockPending ((w.modify x f).spawn program) p :=
    fun p hp => hp.imp id (hhas _)
  have hsafe' : ∀ g, (w.backing g).safeAt ≤ (((w.modify x f).spawn program).backing g).safeAt := by
    intro g
    rw [hback]
    split
    · exact hsafe _
    · exact Nat.le_refl _
  have hatt : ∀ g, Attended w g → Attended ((w.modify x f).spawn program) g := by
    intro g ha
    unfold Attended
    by_cases hg : g = x
    · subst hg
      rw [hback, if_pos rfl]
      rcases hattended with h | h | h | ⟨hl, hb, hr⟩
      · exact .inl h
      · exact .inr (.inl h)
      · exact .inr (.inr (.inr (.inl (has_spawn.mpr (.inr h)))))
      · rw [hr]
        rcases ha with h | h | h | h | ⟨point, hle, hp⟩
        · omega
        · omega
        · exact .inr (.inr (.inl h))
        · exact .inr (.inr (.inr (.inl (hhas _ h))))
        · exact .inr (.inr (.inr (.inr ⟨point, Nat.le_trans hle (hsafe _), hpend _ hp⟩)))
    · rw [hback, if_neg hg]
      rcases ha with h | h | h | h | ⟨point, hle, hp⟩
      · exact .inl h
      · exact .inr (.inl h)
      · exact .inr (.inr (.inl h))
      · exact .inr (.inr (.inr (.inl (hhas _ h))))
      · exact .inr (.inr (.inr (.inr ⟨point, hle, hpend _ hp⟩)))
  have hq : Quiet w ((w.modify x f).spawn program) := by
    refine ⟨fun _ h => h, fun g _ request => ?_, fun g _ => hatt g, fun hb => hb⟩
    rw [hback]
    split
    · exact hfits _ request
    · rfl
  refine ⟨⟨hinv.books.scanned, hinv.books.loaded, fun g hg hl => ?_⟩,
    clockKept_spawn ⟨hinv.clock.armed, hinv.clock.reached⟩,
    wakesOwed_quiet hinv.wakes hq rfl (fun _ h => h) (fun _ _ h => h) (fun _ _ h => hhas _ h)
      (fun request hr => ?_) (hq.searching_same rfl rfl hsafe' hinv.wakes.searching)⟩
  · rw [hback] at hl
    have hold : (w.backing g).leases = 0 →
        g ∈ w.free ∨ g ∈ w.returned ∨ Has ((w.modify x f).spawn program) (· = .returnPush g) :=
      fun hl => (hinv.books.placed g hg hl).imp_right (Or.imp_right (hhas _))
    split at hl
    · rename_i hgx
      subst hgx
      rcases hplaced hl with h | h
      · exact hold h
      · exact .inr (.inr (has_spawn.mpr (.inr ⟨_, h, rfl⟩)))
    · exact hold hl
  · refine (has_spawn.mp hr).imp (fun h => h) fun ⟨i, hi, h⟩ => ?_
    exact absurd h (hsubs i hi request)

/-- A step of a lease holder, which begins no call. -/
theorem leaseHolder_inv {w : World} {x : Nat} {f : Backing → Backing} (hinv : Inv w)
    (hfits : ∀ b request, fits (f b) request = fits b request)
    (hsafe : ∀ b, b.safeAt ≤ (f b).safeAt) (hleased : 0 < (f (w.backing x)).leases) :
    Inv (w.modify x f) := by
  have hspawn : Inv ((w.modify x f).spawn []) :=
    environment_inv hinv hfits hsafe (.inl hleased) (fun h => by omega)
      fun i hi => absurd hi List.not_mem_nil
  have hhas : ∀ p, Has ((w.modify x f).spawn []) p → Has (w.modify x f) p :=
    fun p hp => (has_spawn.mp hp).resolve_right fun ⟨i, hi, _⟩ => absurd hi List.not_mem_nil
  have hkeep : ∀ p, Has (w.modify x f) p → Has ((w.modify x f).spawn []) p :=
    fun p hp => has_spawn.mpr (.inl hp)
  have hq : Quiet ((w.modify x f).spawn []) (w.modify x f) := by
    refine ⟨fun _ h => h, fun _ _ _ => rfl, fun g _ ha => ?_, fun hb => hb⟩
    rcases ha with h | h | h | h | ⟨point, hle, hp⟩
    · exact .inl h
    · exact .inr (.inl h)
    · exact .inr (.inr (.inl h))
    · exact .inr (.inr (.inr (.inl (hhas _ h))))
    · exact .inr (.inr (.inr (.inr ⟨point, hle, hp.imp id (hhas _)⟩)))
  refine ⟨⟨hspawn.books.scanned, hspawn.books.loaded, fun g hg hl => ?_⟩, ⟨fun hne => ?_, fun p hp =>
    ?_⟩, wakesOwed_quiet hspawn.wakes hq rfl (fun _ h => h) (fun _ _ h => h)
      (fun _ _ h => hhas _ h) (fun _ hr => .inl (hkeep _ hr))
      (hq.searching_same rfl rfl (fun _ => Nat.le_refl _) hspawn.wakes.searching)⟩
  · exact (hspawn.books.placed g hg hl).imp_right (Or.imp_right (hhas _))
  · exact (hspawn.clock.armed hne).imp (Or.imp id (hhas _)) (hhas _)
  · rcases hspawn.clock.reached p hp with h | h | h | ⟨lowest, hle, h⟩
    · exact .inl h
    · exact .inr (.inl (hhas _ h))
    · exact .inr (.inr (.inl (hhas _ h)))
    · exact .inr (.inr (.inr ⟨lowest, hle, hhas _ h⟩))

/-- The clock advances: whoever advanced it looks at the stack next. -/
theorem advance_inv {w : World} {completed : Nat} (hinv : Inv w) :
    Inv ({ w with completed := max w.completed completed }.spawn [.runTake]) := by
  have hhas : ∀ p, Has w p →
      Has ({ w with completed := max w.completed completed }.spawn [.runTake]) p :=
    fun p hp => has_spawn.mpr (.inl hp)
  have hq : Quiet w ({ w with completed := max w.completed completed }.spawn [.runTake]) :=
    ⟨fun _ h => h, fun _ _ _ => rfl, fun _ _ ha => attended_spawn ha, fun hb => hb⟩
  refine ⟨⟨hinv.books.scanned, hinv.books.loaded, fun g hg hl => ?_⟩, ⟨fun hne => ?_, fun p _ =>
    ?_⟩, wakesOwed_quiet hinv.wakes hq rfl (fun _ h => h) (fun _ _ h => h)
      (fun _ _ h => hhas _ h) (fun request hr => ?_)
      (hq.searching_same rfl rfl (fun _ => Nat.le_refl _) hinv.wakes.searching)⟩
  · exact (hinv.books.placed g hg hl).imp_right (Or.imp_right (hhas _))
  · exact (hinv.clock.armed hne).imp (Or.imp id (hhas _)) (hhas _)
  · exact .inr (.inl (has_spawn.mpr (.inr ⟨_, List.mem_cons_self, rfl⟩)))
  · refine (has_spawn.mp hr).imp (fun h => h) fun ⟨i, hi, h⟩ => ?_
    rw [List.mem_singleton.mp hi] at h
    exact absurd h id

theorem inv_step {w w' : World} {action : Action} (hinv : Inv w) (hkeep : KeepsWakes w action)
    (hstep : step w action = some w') : Inv w' := by
  cases action with
  | acquire call =>
    simp only [step] at hstep
    split at hstep
    · cases hstep
    · cases hstep
      refine (reads_goto w call .loadEvents).inv hinv (fun c e he => by cases he) fun _ c p hp => ?_
      cases hp
      exact .inr fun _ _ _ => .inr trivial
  | acquirer =>
    simp only [step] at hstep
    split at hstep
    · cases hstep
    · cases hstep
    · rename_i call phase _ hacq
      cases hstep
      exact acquireStep_inv hinv hacq hkeep
  | run thread =>
    simp only [step] at hstep
    split at hstep
    · rename_i instr rest hthread
      exact instrStep_inv hinv hthread (Option.some.inj hstep).symm
    · cases hstep
  | copyLease x =>
    simp only [step] at hstep
    split at hstep
    · cases hstep
    · cases hstep
      exact leaseHolder_inv hinv (fun _ _ => rfl) (fun _ => Nat.le_refl _) (Nat.succ_pos _)
  | bindLease x safeAt =>
    simp only [step] at hstep
    split at hstep
    · cases hstep
    · rename_i hleased
      cases hstep
      exact leaseHolder_inv hinv (fun _ _ => rfl) (fun _ => Nat.le_max_left _ _)
        (Nat.pos_of_ne_zero hleased)
  | resetLease x =>
    simp only [step] at hstep
    split at hstep
    · cases hstep
    · rename_i hleased
      cases hstep
      refine environment_inv hinv (fun _ _ => rfl) (fun _ => Nat.le_refl _) ?_ (fun hl => ?_)
        (fun i hi request hs => ?_)
      · -- the last lease gone, its return is on its way
        by_cases hone : (w.backing x).leases = 1
        · rw [if_pos hone]
          exact .inr (.inr (.inl ⟨_, List.mem_cons_self, trivial⟩))
        · exact .inl (by simp only; omega)
      · rw [if_pos (by simp only at hl; omega)]
        exact .inr List.mem_cons_self
      · split at hi
        · rw [List.mem_singleton.mp hi] at hs
          exact hs
        · exact absurd hi List.not_mem_nil
  | setContent x contentEpoch readbackPins =>
    simp only [step] at hstep
    split at hstep
    · cases hstep
    · rename_i hleased
      cases hstep
      exact leaseHolder_inv hinv (fun _ _ => rfl) (fun _ => Nat.le_refl _)
        (Nat.pos_of_ne_zero hleased)
  | pin x =>
    cases hstep
    refine environment_inv hinv (fun _ _ => rfl) (fun _ => Nat.le_refl _)
      (.inr (.inl (Nat.succ_pos _))) (fun hl => .inl hl) (fun i hi request hs => ?_)
    rw [List.mem_singleton.mp hi] at hs
    exact hs
  | unpin x =>
    simp only [step] at hstep
    split at hstep
    · cases hstep
    · cases hstep
      refine environment_inv hinv (fun _ _ => rfl) (fun _ => Nat.le_refl _) ?_ (fun hl => .inl hl)
        (fun i hi request hs => ?_)
      · -- the last pin gone, its event is on its way
        by_cases hone : (w.backing x).bindingConsumers = 1
        · rw [if_pos hone]
          exact .inr (.inr (.inl ⟨_, List.mem_cons_self, trivial⟩))
        · rcases Nat.eq_zero_or_pos (w.backing x).leases with hl | hl
          · rcases Nat.eq_zero_or_pos (w.backing x).bindingConsumers with hb | hb
            · exact .inr (.inr (.inr ⟨hl, hb, rfl⟩))
            · exact .inr (.inl (by simp only; omega))
          · exact .inl hl
      · split at hi
        · rw [List.mem_singleton.mp hi] at hs
          exact hs
        · exact absurd hi List.not_mem_nil
  | advance completed =>
    cases hstep
    exact advance_inv hinv

theorem inv_within {config : Config} {w : World}
    (hrun : Run.Within step KeepsWakes (start config) w) : Inv w :=
  hrun.invariant (inv_start config) fun _ hinv hkeep hstep => inv_step hinv hkeep hstep

/-- With nothing left to run, a waiter still subscribed has every backing of its class held. -/
theorem noLostWake_of_inv {w : World} (hinv : Inv w) : NoLostWake w := by
  rintro ⟨_, hidle⟩ waiter hwaiter g hg hfits
  have hnone : ∀ p, ¬Has w p := by
    rintro p ⟨t, ht, i, hi, _⟩
    rw [hidle t ht] at hi
    exact absurd hi List.not_mem_nil
  have hclass : ClassAttended w waiter.request := by
    rcases hinv.wakes.subscribed waiter hwaiter with h | h | ⟨h, _⟩ | ⟨e, h, _⟩
    · exact absurd h (hnone _)
    · exact h
    · exact absurd h (hnone _)
    · exact absurd h (hnone _)
  rw [Bool.eq_false_iff]
  intro hreuse
  simp only [reusable, Bool.and_eq_true, beq_iff_eq, decide_eq_true_eq] at hreuse
  obtain ⟨⟨⟨hl, hsafe⟩, hr⟩, hb⟩ := hreuse
  rcases hclass g hg hfits with h | h | h | h | ⟨point, hle, h | h⟩
  · omega
  · omega
  · exact h hr
  · exact hnone _ h
  · rcases hinv.clock.reached point h with hlt | h | h | ⟨_, _, h⟩
    · omega
    · exact hnone _ h
    · exact hnone _ h
    · exact hnone _ h
  · exact hnone _ h

/--
**No lost availability wake.**

In every run that keeps clear of the two moments of `KeepsWakes`, no quiescent state has a waiter
subscribed whose request would find a reusable backing.
-/
theorem availability_wakes {config : Config} {w : World}
    (hrun : Run.Within step KeepsWakes (start config) w) : NoLostWake w :=
  noLostWake_of_inv (inv_within hrun)

/-! ## Two runs -/

/-- A waiter for a four-byte stride, and a caller after a wider one that does not wait. -/
def small : Call := { request := { capacityClass := 1, stride := 4 }, subscriber := some 1 }
def wide : Call := { request := { capacityClass := 1, stride := 8 } }

def acquiring (call : Call) (steps : Nat) : List Action :=
  .acquire call :: List.replicate steps .acquirer

/-- No call in progress when `events` is loaded, nothing free when a wake is armed. -/
def clear (w : World) : Action → Bool
  | .acquirer =>
    match w.acquirer with
    | some (_, .loadEvents) => w.threads.all List.isEmpty
    | some (_, .armClock _) => w.free.isEmpty
    | _ => true
  | _ => true

theorem keepsWakes_of_clear (w : World) (action : Action) (h : clear w action = true) :
    KeepsWakes w action := by
  cases action with
  | acquirer =>
    simp only [clear] at h
    simp only [KeepsWakes]
    split
    · rename_i heq
      rw [heq] at h
      rintro request ⟨program, hp, instr, hi, _⟩
      rw [List.isEmpty_iff.mp (List.all_eq_true.mp h program hp)] at hi
      exact absurd hi List.not_mem_nil
    · rename_i heq
      rw [heq] at h
      refine .inr fun g hg => ?_
      rw [List.isEmpty_iff.mp h] at hg
      exact absurd hg List.not_mem_nil
    · trivial
  | _ => trivial

/-- The only backing of the class is leased; a second acquire waits for it, and it comes back. -/
def returnedLater : List Action :=
  acquiring { small with subscriber := none } 6 ++ acquiring small 7
    ++ List.replicate 3 (.run 0) ++ [.resetLease 1] ++ List.replicate 4 (.run 1)

theorem availability_wakes_returnedLater :
    ∃ w, Run.exec (Run.checked step clear) (start { maxPerClass := 1 }) returnedLater = some w
      ∧ w.woken.length = 1 ∧ NoLostWake w := by
  have hrun : (Run.exec (Run.checked step clear) (start { maxPerClass := 1 }) returnedLater).any
      (fun w => decide (w.woken.length = 1)) = true := by decide
  obtain ⟨w, hw, hwoken⟩ := (Option.any_eq_true _ _).mp hrun
  exact ⟨w, hw, of_decide_eq_true hwoken,
    availability_wakes (Run.exec_checked_within keepsWakes_of_clear hw)⟩

/-- The backing comes back before the waiter subscribes, and another request's acquire loads the
event that says so. -/
def sharedScanEvents : List Action :=
  acquiring { small with subscriber := none } 6 ++ acquiring wide 6 ++ acquiring small 7
    ++ [.resetLease 1] ++ List.replicate 3 (.run 1) ++ acquiring wide 8
    ++ List.replicate 3 (.run 0)

/-- Nothing is left to run, and a waiter's request would find a backing. -/
def sleepsOn (w : World) : Bool :=
  w.acquirer.isNone && w.threads.all List.isEmpty &&
    w.waiters.any fun waiter => w.all.any fun g =>
      fits (w.backing g) waiter.request && reusable (w.backing g) w.completed

theorem not_noLostWake_of_sleepsOn {w : World} (h : sleepsOn w = true) : ¬NoLostWake w := by
  simp only [sleepsOn, Bool.and_eq_true, List.any_eq_true, List.all_eq_true, Option.isNone_iff_eq_none,
    List.isEmpty_iff] at h
  obtain ⟨⟨hacquirer, hthreads⟩, waiter, hwaiter, g, hg, hfits, hreuse⟩ := h
  intro hnone
  rw [hnone ⟨hacquirer, hthreads⟩ waiter hwaiter g hg hfits] at hreuse
  cases hreuse

/-- **The waiter sleeps on a free backing**: both counters it compares were loaded after the
return. -/
theorem sharedScanEvents_sleeps :
    ∃ w, Run.exec step (start { maxPerClass := 1 }) sharedScanEvents = some w ∧ ¬NoLostWake w := by
  have hsleeps : (Run.exec step (start { maxPerClass := 1 }) sharedScanEvents).any sleepsOn
      = true := by decide
  obtain ⟨w, hw, hs⟩ := (Option.any_eq_true _ _).mp hsleeps
  exact ⟨w, hw, not_noLostWake_of_sleepsOn hs⟩

end ModuleServices.Pool.Proof
