import ModuleServices.Pool.Proof.Attended

/-!
# The acquirer's accesses

`Acquire` looks for a backing with the whole pool moving under it. After each of its
accesses every backing of the class is attended, or still open: yet to be judged, or
judged bound to a clock point it will ask a wake for.
-/

namespace ModuleServices.Pool.Proof

open ModuleServices ModuleServices.Pool World

/-! ## The acquirer's accesses -/

theorem reads_goto (w : World) (call : Call) (phase : AcquirePhase) :
    Reads w (w.goto call phase) :=
  ⟨rfl, rfl, rfl, rfl, rfl, rfl, rfl, rfl, rfl, rfl, fun _ => SameBacking.rfl'⟩

theorem reads_retired (w : World) (g : Nat) (retired : Bool) (call : Call)
    (phase : AcquirePhase) :
    Reads w ((w.modify g fun b => { b with retired }).goto call phase) := by
  refine ⟨rfl, rfl, rfl, rfl, rfl, rfl, rfl, rfl, rfl, rfl, fun g' => ?_⟩
  simp only [World.goto, World.modify]
  split <;> exact ⟨rfl, rfl, rfl, rfl, rfl, rfl⟩

/-- A phase after the store of `scanEvents`. -/
def PastStore (phase : AcquirePhase) : Prop := ∀ events, phase ≠ .storeScanEvents events

theorem next_pastStore (completed : Nat) (claim : Claim) : PastStore (next completed claim) := by
  intro events
  unfold next
  split <;> exact fun h => by cases h

/-- Going on from one phase of the search to the next. -/
theorem inv_goto {w w' : World} {call : Call} {phase phase' : AcquirePhase} (hinv : Inv w)
    (hacq : w.acquirer = some (call, phase)) (hreads : Reads w w')
    (hgoto : w'.acquirer = some (call, phase')) (hpast : PastStore phase')
    (hopen : ∀ g ∈ w.all, Open w phase g → Attended w g ∨ Open w' phase' g) : Inv w' := by
  refine hreads.inv hinv (fun c e he => ?_) fun hq c p hp => ?_
  · rw [hgoto] at he
    cases he
    exact hpast e rfl
  · rw [hgoto] at hp
    cases hp
    refine hq.searching (hinv.wakes.searching call phase hacq) fun g hg ho => ?_
    exact (hopen g (hq.all g hg) ho).imp_left (hq.attended g hg)

/-- The search is over: nobody is searching any more. -/
theorem inv_idle {w w' : World} (hinv : Inv w) (hreads : Reads w w')
    (hidle : w'.acquirer = none) : Inv w' := by
  refine hreads.inv hinv (fun c e he => ?_) fun _ c p hp => ?_
  · rw [hidle] at he
    cases he
  · rw [hidle] at hp
    cases hp

/-- What a claim leaves is open in the phase after it. -/
theorem open_next {w : World} {completed g : Nat} {claim : Claim}
    (h : ClaimLeft w completed claim g) : Open w (next completed claim) g := by
  cases claim with
  | reuse same release =>
    obtain ⟨hfree, h⟩ := h
    cases same with
    | nil =>
      have hlt := h.resolve_left List.not_mem_nil
      cases release with
      | nil => exact ⟨hfree, hlt⟩
      | cons x rest => exact .inl ⟨hfree, hlt⟩
    | cons x same =>
      rcases h with h | h
      · rcases List.mem_cons.mp h with rfl | h
        · exact .inr ⟨⟨_, _, rfl⟩, rfl⟩
        · exact .inl ⟨hfree, .inl h⟩
      · exact .inl ⟨hfree, .inr h⟩
  | release chosen rest =>
    cases chosen with
    | none =>
      cases rest with
      | nil => exact h
      | cons x rest => exact .inl h
    | some best =>
      cases rest with
      | nil => exact trivial
      | cons x rest => exact .inl trivial
  | bound => exact h

theorem loadEvents_inv {w : World} {call : Call} (hinv : Inv w)
    (hkeep : ∀ request, Has w (Instr.Subscribes request) → ClassAttended w request) :
    Inv (w.goto call (.storeScanEvents w.events)) := by
  have hreads := reads_goto w call (.storeScanEvents w.events)
  have hatt : ∀ request, ClassAttended w request →
      ClassAttended (w.goto call (.storeScanEvents w.events)) request :=
    fun request hc g hg hf => hreads.attended.mpr (hc g hg hf)
  refine ⟨hreads.bookkeeping hinv.books fun c e he => ?_, hreads.clockKept hinv.clock,
    ⟨fun c p hp => ?_, fun request hr => .inr (hatt request (hkeep request hr)),
      fun waiter hw => ?_⟩⟩
  · cases he
    exact Nat.le_refl _
  · cases hp
    exact .inr fun _ _ _ => .inr trivial
  · rcases hinv.wakes.subscribed waiter hw with h | h | ⟨h, _⟩ | ⟨events, h, _⟩
    · exact .inl h
    · exact .inr (.inl (hatt _ h))
    · refine .inr (.inl (hatt _ (hkeep _ ?_)))
      obtain ⟨t, ht, i, hi, rfl⟩ := h
      exact ⟨t, ht, _, hi, rfl⟩
    · refine .inr (.inl (hatt _ (hkeep _ ?_)))
      obtain ⟨t, ht, i, hi, rfl⟩ := h
      exact ⟨t, ht, _, hi, rfl⟩

theorem storeScanEvents_inv {w : World} {call : Call} {events : Nat} (hinv : Inv w)
    (hacq : w.acquirer = some (call, .storeScanEvents events)) :
    Inv ({ w with scanEvents := events }.goto call .takeReturned) := by
  have hbehind : Behind w → Behind ({ w with scanEvents := events }.goto call .takeReturned) :=
    fun hb => ⟨hb.2 call events hacq, fun c e he => by cases he⟩
  refine ⟨⟨hinv.books.loaded call events hacq, fun c e he => (by cases he), hinv.books.placed⟩,
    ⟨hinv.clock.armed, hinv.clock.reached⟩, ⟨fun c p hp => ?_, fun request hr => ?_,
      fun waiter hw => ?_⟩⟩
  · cases hp
    exact .inr fun _ _ _ => .inr trivial
  · exact (hinv.wakes.unsubscribed request hr).imp_left hbehind
  · rcases hinv.wakes.subscribed waiter hw with h | h | ⟨h, hb⟩ | ⟨e, h, _, hs⟩
    · exact .inl h
    · exact .inr (.inl h)
    · exact .inr (.inr (.inl ⟨h, hbehind hb⟩))
    · exact .inr (.inr (.inr ⟨e, h, hs call events hacq, fun c e' he => by cases he⟩))

theorem takeReturned_inv {w : World} {call : Call} (hinv : Inv w) :
    Inv ({ w with
      returned := []
      free := w.free ++ w.returned.filter fun g => w.all.contains g }.goto call .readClock) := by
  have hin : ∀ g ∈ w.all, g ∈ w.free ∨ g ∈ w.returned →
      g ∈ w.free ++ w.returned.filter fun g => w.all.contains g := by
    intro g hg h
    rcases h with h | h
    · exact List.mem_append_left _ h
    · refine List.mem_append_right _ (List.mem_filter.mpr ⟨h, ?_⟩)
      simpa using hg
  have hbehind : Behind w → Behind ({ w with
      returned := []
      free := w.free ++ w.returned.filter fun g => w.all.contains g }.goto call .readClock) :=
    fun hb => ⟨hb.1, fun c e he => by cases he⟩
  refine ⟨⟨hinv.books.scanned, fun c e he => (by cases he), fun g hg hl => ?_⟩,
    ⟨hinv.clock.armed, hinv.clock.reached⟩, ⟨fun c p hp => ?_, fun request hr => ?_,
      fun waiter hw => ?_⟩⟩
  · rcases hinv.books.placed g hg hl with h | h | h
    · exact .inl (hin g hg (.inl h))
    · exact .inl (hin g hg (.inr h))
    · exact .inr (.inr h)
  · cases hp
    refine .inr fun g hg _ => ?_
    rcases Nat.eq_zero_or_pos (w.backing g).leases with hl | hl
    · rcases hinv.books.placed g hg hl with h | h | ⟨t, ht, i, hi, rfl⟩
      · exact .inr (hin g hg (.inl h))
      · exact .inr (hin g hg (.inr h))
      · exact .inl (.inr (.inr (.inr (.inl ⟨t, ht, _, hi, trivial⟩))))
    · exact .inl (.inl hl)
  · exact (hinv.wakes.unsubscribed request hr).imp_left hbehind
  · rcases hinv.wakes.subscribed waiter hw with h | h | ⟨h, hb⟩ | ⟨e, h, hne, _⟩
    · exact .inl h
    · exact .inr (.inl h)
    · exact .inr (.inr (.inl ⟨h, hbehind hb⟩))
    · exact .inr (.inr (.inr ⟨e, h, hne, fun c e' he => by cases he⟩))

/-- One backing of the search: not reusable, it is held by something or still bound. -/
theorem judged {w : World} {g completed : Nat} (h : reusable (w.backing g) completed = false) :
    Attended w g ∨ completed < (w.backing g).safeAt := by
  by_contra hno
  push Not at hno
  obtain ⟨hna, hsafe⟩ := hno
  unfold Attended at hna
  push Not at hna
  obtain ⟨hl, hc, hr, _⟩ := hna
  unfold reusable at h
  have hl' : (w.backing g).leases = 0 := by omega
  have hc' : (w.backing g).bindingConsumers = 0 := by omega
  rw [hl', hr, hc', decide_eq_true hsafe] at h
  cases h

theorem scan_inv {w : World} {call : Call} {completed g : Nat} {todo same release : List Nat}
    (hinv : Inv w) (hacq : w.acquirer = some (call, .scan completed (g :: todo) same release)) :
    Inv (acquireStep w call (.scan completed (g :: todo) same release)) := by
  simp only [acquireStep]
  have hstep : ∀ same' release', (∀ g' ∈ w.all, g' ∈ w.free →
      g' = g ∨ g' ∈ same → fits (w.backing g') call.request = true →
        Attended w g' ∨ g' ∈ same' ∨ completed < (w.backing g').safeAt) →
      Inv (w.goto call (.scan completed todo same' release')) := by
    intro same' release' hs
    refine (reads_goto _ _ _).inv hinv (fun c e he => by cases he) fun hq c p hp => ?_
    cases hp
    rcases hinv.wakes.searching call _ hacq with hb | hsearch
    · exact .inl (hq.behind hb)
    · refine .inr fun g' hg' hf => ?_
      rcases hsearch g' hg' hf with ha | ⟨hfree, ho⟩
      · exact .inl (hq.attended g' hg' ha)
      · rcases ho with ho | ho | ho
        · rcases List.mem_cons.mp ho with rfl | ho
          · exact (hs g' hg' hfree (.inl rfl) hf).imp (hq.attended g' hg')
              fun h => ⟨hfree, .inr h⟩
          · exact .inr ⟨hfree, .inl ho⟩
        · exact (hs g' hg' hfree (.inr ho) hf).imp (hq.attended g' hg')
            fun h => ⟨hfree, .inr h⟩
        · exact .inr ⟨hfree, .inr (.inr ho)⟩
  split
  · rename_i hskip
    refine hstep _ _ fun g' _ _ hg' hf => ?_
    rcases hg' with rfl | hg'
    · -- of the class, so it was passed over as not reusable
      have hkey : (w.backing g').key = keyOf call.request := by
        simp only [fits, Bool.and_eq_true, beq_iff_eq] at hf
        exact hf.1
      have hnot : reusable (w.backing g') completed = false := by
        simpa [hkey] using hskip
      exact (judged hnot).imp_right .inr
    · exact .inr (.inl hg')
  · split
    · refine hstep _ _ fun g' _ _ hg' _ => ?_
      rcases hg' with rfl | hg'
      · exact .inr (.inl (List.mem_append_right _ List.mem_cons_self))
      · exact .inr (.inl (List.mem_append_left _ hg'))
    · rename_i hother
      refine hstep _ _ fun g' _ _ hg' hf => ?_
      rcases hg' with rfl | hg'
      · simp only [fits, Bool.and_eq_true, beq_iff_eq] at hf
        exact absurd hf.2 hother
      · exact .inr (.inl hg')

theorem scanDone_inv {w : World} {call : Call} {completed : Nat} {same release : List Nat}
    (hinv : Inv w) (hacq : w.acquirer = some (call, .scan completed [] same release)) :
    Inv (acquireStep w call (.scan completed [] same release)) := by
  refine inv_goto hinv hacq (reads_goto _ _ _) rfl (next_pastStore _ _) fun g _ ho => .inr ?_
  have hleft : ClaimLeft w completed (.reuse (same.insertionSort fun a b =>
      nearer call.preferEpoch (w.backing b).contentEpoch (w.backing a).contentEpoch = false)
      release) g := by
    refine ⟨ho.1, ho.2.elim (fun h => absurd h List.not_mem_nil) (Or.imp_left fun h => ?_)⟩
    exact (List.mem_insertionSort _).mpr h
  exact open_mono rfl (Nat.le_refl _) (open_next hleft)

theorem claimSet_inv {w : World} {call : Call} {completed g : Nat} {claim : Claim}
    (hinv : Inv w) (hacq : w.acquirer = some (call, .claimSet completed claim g)) :
    Inv (acquireStep w call (.claimSet completed claim g)) := by
  have hreads := reads_retired w g true call (.claimRead completed claim g)
  refine inv_goto hinv hacq hreads rfl (fun _ h => by cases h) fun g' _ ho => .inr ?_
  exact open_mono hreads.free (Nat.le_of_eq (hreads.backing g').safeAt.symm) ho

/-- The backing a claim gives up was pinned when the claim looked. -/
theorem claimRead_inv {w : World} {call : Call} {completed g : Nat} {claim : Claim}
    (hinv : Inv w) (hacq : w.acquirer = some (call, .claimRead completed claim g)) :
    Inv (acquireStep w call (.claimRead completed claim g)) := by
  simp only [acquireStep]
  split
  · rename_i hpinned
    refine inv_goto hinv hacq (reads_goto _ _ _) rfl (fun _ h => by cases h) fun g' _ ho => ?_
    rcases ho with ho | ⟨_, rfl⟩
    · exact .inr (claimLeft_mono rfl (Nat.le_refl _) ho)
    · exact .inl (.inr (.inl (Nat.pos_of_ne_zero hpinned)))
  · refine inv_goto hinv hacq (reads_goto _ _ _) rfl (fun _ h => by cases h) fun g' _ ho => .inr ?_
    cases claim with
    | reuse same release => exact trivial
    | bound => exact trivial
    | release chosen rest =>
      cases chosen with
      | some best => exact trivial
      | none =>
        rcases ho with ho | ⟨⟨_, _, he⟩, _⟩
        · exact ho
        · cases he

theorem claimUndo_inv {w : World} {call : Call} {completed g : Nat} {claim : Claim}
    (hinv : Inv w) (hacq : w.acquirer = some (call, .claimUndo completed claim g)) :
    Inv (acquireStep w call (.claimUndo completed claim g)) := by
  have hreads := reads_retired w g false call (next completed claim)
  refine inv_goto hinv hacq hreads rfl (next_pastStore _ _) fun g' _ ho => .inr ?_
  exact open_mono hreads.free (Nat.le_of_eq (hreads.backing g').safeAt.symm) (open_next ho)

/-- A chosen backing ends the search: what is left is to release and to lease. -/
theorem claimedReuse_inv {w : World} {call : Call} {completed g : Nat} {same release : List Nat}
    (hinv : Inv w)
    (hacq : w.acquirer = some (call, .claimed completed (.reuse same release) g)) :
    Inv (acquireStep w call (.claimed completed (.reuse same release) g)) := by
  refine inv_goto hinv hacq (reads_retired w g false call _) rfl (next_pastStore _ _)
    fun g' _ _ => .inr (open_next trivial)

theorem claimedBound_inv {w : World} {call : Call} {completed g : Nat} (hinv : Inv w)
    (hacq : w.acquirer = some (call, .claimed completed .bound g)) :
    Inv (acquireStep w call (.claimed completed .bound g)) :=
  inv_goto hinv hacq (reads_retired w g false call _) rfl (fun _ h => by cases h)
    fun _ _ _ => .inr trivial

/-- `ReleaseBacking`: one backing leaves the pool. -/
theorem claimedRelease_inv {w : World} {call : Call} {completed g : Nat} {chosen : Option Nat}
    {rest : List Nat} (hinv : Inv w)
    (hacq : w.acquirer = some (call, .claimed completed (.release chosen rest) g)) :
    Inv (acquireStep w call (.claimed completed (.release chosen rest) g)) := by
  have hpast := next_pastStore completed (.release chosen rest)
  have hst : ∀ c e, (acquireStep w call (.claimed completed (.release chosen rest) g)).acquirer
      ≠ some (c, .storeScanEvents e) := by
    intro c e he
    exact hpast e (Prod.mk.inj (Option.some.inj he)).2
  have hkept : ∀ g', g' ∈ w.all.filter (· != g) → g' ∈ w.all ∧ g' ≠ g := by
    intro g' h
    simpa using List.mem_filter.mp h
  have hq : Quiet w (acquireStep w call (.claimed completed (.release chosen rest) g)) :=
    ⟨fun g' h => (hkept g' h).1, fun _ _ _ => rfl, fun _ _ ha => ha,
      fun hb => ⟨hb.1, fun c e he => absurd he (hst c e)⟩⟩
  have hfree : ∀ g', g' ∈ w.free → g' ≠ g → g' ∈ w.free.filter (· != g) := by
    intro g' h hne
    exact List.mem_filter.mpr ⟨h, by simpa using hne⟩
  refine ⟨⟨hinv.books.scanned, fun c e he => absurd he (hst c e), fun g' hg' hl => ?_⟩,
    ⟨hinv.clock.armed, hinv.clock.reached⟩, wakesOwed_quiet hinv.wakes hq rfl (fun _ h => h)
      (fun c e he => absurd he (hst c e)) (fun _ _ h => h) (fun _ h => .inl h) ?_⟩
  · exact (hinv.books.placed g' (hkept g' hg').1 hl).imp_left
      fun h => hfree g' h (hkept g' hg').2
  · intro c p hp
    cases hp
    refine hq.searching (hinv.wakes.searching call _ hacq) fun g' hg' ho => .inr (open_next ?_)
    cases chosen with
    | some best => exact trivial
    | none => exact ⟨hfree g' ho.1 (hkept g' hg').2, ho.2⟩

/-- The lease handed out: the backing is attended by it. -/
theorem leaseBacking_inv {w : World} {call : Call} {g : Nat} (hinv : Inv w) :
    Inv (acquireStep w call (.leaseBacking g)) := by
  have hback : ∀ g', (acquireStep w call (.leaseBacking g)).backing g' =
      if g' = g then { w.backing g' with leases := (w.backing g').leases + 1 }
      else w.backing g' := fun _ => rfl
  have hatt : ∀ g', Attended w g' → Attended (acquireStep w call (.leaseBacking g)) g' := by
    intro g' ha
    unfold Attended at ha ⊢
    rw [hback]
    split
    · exact .inl (Nat.succ_pos _)
    · exact ha
  have hst : ∀ c e, (acquireStep w call (.leaseBacking g)).acquirer
      ≠ some (c, .storeScanEvents e) := fun c e he => by cases he
  have hq : Quiet w (acquireStep w call (.leaseBacking g)) := by
    refine ⟨fun _ h => h, fun g' _ request => ?_, fun g' _ => hatt g',
      fun hb => ⟨hb.1, fun c e he => absurd he (hst c e)⟩⟩
    rw [hback]
    split <;> rfl
  refine ⟨⟨hinv.books.scanned, fun c e he => absurd he (hst c e), fun g' hg' hl => ?_⟩,
    ⟨hinv.clock.armed, hinv.clock.reached⟩, wakesOwed_quiet hinv.wakes hq rfl (fun _ h => h)
      (fun c e he => absurd he (hst c e)) (fun _ _ h => h) (fun _ h => .inl h)
      (fun c p hp => by cases hp)⟩
  rw [hback] at hl
  split at hl
  · cases hl
  · rename_i hne
    exact (hinv.books.placed g' hg' hl).imp_left
      fun h => List.mem_filter.mpr ⟨h, by simpa using hne⟩

/-- `Allocate`: the new backing comes leased. -/
theorem allocate_inv {w : World} {request : BackingRequest} (hinv : Inv w) :
    Inv (allocate w request) := by
  have hback : ∀ g, (allocate w request).backing g =
      if g = w.nextGeneration then
        { key := keyOf request, capacityClass := request.capacityClass, leases := 1 }
      else w.backing g := fun _ => rfl
  have hold : ∀ g, g ∈ (allocate w request).all → g ≠ w.nextGeneration → g ∈ w.all := by
    intro g hg hne
    rcases List.mem_append.mp hg with h | h
    · exact h
    · exact absurd (List.mem_singleton.mp h) hne
  have hnew : Attended (allocate w request) w.nextGeneration := by
    left
    rw [hback, if_pos rfl]
    exact Nat.one_pos
  have hatt : ∀ g, Attended w g → Attended (allocate w request) g := by
    intro g ha
    by_cases hg : g = w.nextGeneration
    · exact hg ▸ hnew
    · unfold Attended at ha ⊢
      rw [hback, if_neg hg]
      exact ha
  have hst : ∀ c e, (allocate w request).acquirer ≠ some (c, .storeScanEvents e) :=
    fun c e he => by cases he
  have hclass : ∀ r, ClassAttended w r → ClassAttended (allocate w request) r := by
    intro r hc g hg hf
    by_cases hgn : g = w.nextGeneration
    · exact hgn ▸ hnew
    · rw [hback, if_neg hgn] at hf
      exact hatt g (hc g (hold g hg hgn) hf)
  have hbehind : Behind w → Behind (allocate w request) :=
    fun hb => ⟨hb.1, fun c e he => absurd he (hst c e)⟩
  refine ⟨⟨hinv.books.scanned, fun c e he => absurd he (hst c e), fun g hg hl => ?_⟩,
    ⟨hinv.clock.armed, hinv.clock.reached⟩, ⟨fun c p hp => (by cases hp), fun r hr => ?_,
      fun waiter hw => ?_⟩⟩
  · rw [hback] at hl
    split at hl
    · cases hl
    · rename_i hne
      exact hinv.books.placed g (hold g hg hne) hl
  · exact (hinv.wakes.unsubscribed r hr).imp hbehind (hclass r)
  · rcases hinv.wakes.subscribed waiter hw with h | h | ⟨h, hb⟩ | ⟨e, h, hne, _⟩
    · exact .inl h
    · exact .inr (.inl (hclass _ h))
    · exact .inr (.inr (.inl ⟨h, hbehind hb⟩))
    · exact .inr (.inr (.inr ⟨e, h, hne, fun c e' he => absurd he (hst c e')⟩))

theorem choose_inv {w : World} {call : Call} {completed : Nat} (hinv : Inv w)
    (hacq : w.acquirer = some (call, .choose completed)) :
    Inv (acquireStep w call (.choose completed)) := by
  simp only [acquireStep]
  split
  · split
    · exact inv_goto hinv hacq (reads_goto _ _ _) rfl (fun _ h => by cases h)
        fun _ _ ho => .inr ho
    · exact inv_goto hinv hacq (reads_goto _ _ _) rfl (fun _ h => by cases h)
        fun _ _ ho => .inr ho
  · split
    · exact allocate_inv hinv
    · exact inv_idle hinv ⟨rfl, rfl, rfl, rfl, rfl, rfl, rfl, rfl, rfl, rfl,
        fun _ => SameBacking.rfl'⟩ rfl

theorem scanBound_inv {w : World} {call : Call} {completed : Nat} {todo : List Nat}
    {bound : Option Nat} (hinv : Inv w)
    (hacq : w.acquirer = some (call, .scanBound completed todo bound)) :
    Inv (acquireStep w call (.scanBound completed todo bound)) := by
  cases todo with
  | cons g todo =>
    exact inv_goto hinv hacq (reads_goto _ _ _) rfl (fun _ h => by cases h)
      fun _ _ ho => .inr ho
  | nil =>
    cases bound with
    | none =>
      exact inv_goto hinv hacq (reads_goto _ _ _) rfl (fun _ h => by cases h)
        fun _ _ ho => .inr ho
    | some g =>
      exact inv_goto hinv hacq (reads_goto _ _ _) rfl (fun _ h => by cases h)
        fun _ _ ho => .inr (.inl ho)

/-! ## Arming -/

/-- Nothing of what is attended hangs on the acquirer, or on the list of threads being short. -/
theorem attended_spawn {w : World} {program : List Instr} {g : Nat} (h : Attended w g) :
    Attended (w.spawn program) g := by
  have hhas : ∀ p, Has w p → Has (w.spawn program) p := fun p hp => has_spawn.mpr (.inl hp)
  rcases h with h | h | h | h | ⟨point, hle, hp⟩
  · exact .inl h
  · exact .inr (.inl h)
  · exact .inr (.inr (.inl h))
  · exact .inr (.inr (.inr (.inl (hhas _ h))))
  · exact .inr (.inr (.inr (.inr ⟨point, hle, hp.imp id (hhas _)⟩)))

theorem clockKept_spawn {w : World} {program : List Instr} (h : ClockKept w) :
    ClockKept (w.spawn program) := by
  have hhas : ∀ p, Has w p → Has (w.spawn program) p := fun p hp => has_spawn.mpr (.inl hp)
  refine ⟨fun hne => ?_, fun point hp => ?_⟩
  · exact (h.armed hne).imp (Or.imp id (hhas _)) (hhas _)
  · rcases h.reached point hp with h | h | h | ⟨lowest, hle, h⟩
    · exact .inl h
    · exact .inr (.inl (hhas _ h))
    · exact .inr (.inr (.inl (hhas _ h)))
    · exact .inr (.inr (.inr ⟨lowest, hle, hhas _ h⟩))

theorem subscription_only {call : Call} {request : BackingRequest}
    (h : ∃ instr ∈ subscription call, instr.Subscribes request) : call.request = request := by
  obtain ⟨instr, hi, hs⟩ := h
  unfold subscription at hi
  split at hi
  · rw [List.mem_singleton.mp hi] at hs
    exact hs
  · exact absurd hi List.not_mem_nil

/-- The empty result is returned: from here on the caller is covered, not searching. -/
theorem finishEmpty_inv {w : World} {call : Call} (hinv : Inv w)
    (hcov : Covered w call.request) : Inv (finishEmpty w call) := by
  have hst : ∀ c e, (finishEmpty w call).acquirer ≠ some (c, .storeScanEvents e) :=
    fun c e he => by cases he
  have hhas : ∀ p, Has w p → Has (finishEmpty w call) p :=
    fun p hp => has_spawn.mpr (.inl hp)
  have hq : Quiet w (finishEmpty w call) :=
    ⟨fun _ h => h, fun _ _ _ => rfl, fun _ _ ha => attended_spawn ha,
      fun hb => ⟨hb.1, fun c e he => absurd he (hst c e)⟩⟩
  refine ⟨⟨hinv.books.scanned, fun c e he => absurd he (hst c e), fun g hg hl => ?_⟩,
    clockKept_spawn ⟨hinv.clock.armed, hinv.clock.reached⟩,
    wakesOwed_quiet hinv.wakes hq rfl (fun _ h => h) (fun c e he => absurd he (hst c e))
      (fun _ _ h => hhas _ h) (fun request hr => ?_) (fun c p hp => by cases hp)⟩
  · exact (hinv.books.placed g hg hl).imp_right (Or.imp_right (hhas _))
  · refine (has_spawn.mp hr).imp (fun h => h) fun h => ?_
    exact hq.covered (subscription_only h ▸ hcov)

/-- The armed point is no later than any point in the loop, and 0 only if all are. -/
theorem armFold_le {w : World} : ∀ (l : List Nat) (point : Nat),
    let result := l.foldl (fun point g =>
      if armAt w g ≠ 0 ∧ (point = 0 ∨ armAt w g < point) then armAt w g else point) point
    (point ≠ 0 → result ≠ 0 ∧ result ≤ point)
      ∧ ∀ g ∈ l, armAt w g ≠ 0 → result ≠ 0 ∧ result ≤ armAt w g := by
  intro l
  induction l with
  | nil => exact fun point => ⟨fun h => ⟨h, Nat.le_refl _⟩, fun g h => absurd h List.not_mem_nil⟩
  | cons x l ih =>
    intro point
    simp only [List.foldl_cons]
    generalize hp : (if armAt w x ≠ 0 ∧ (point = 0 ∨ armAt w x < point) then armAt w x
      else point) = point'
    obtain ⟨hle, hmem⟩ := ih point'
    refine ⟨fun h => ?_, fun g hg hne => ?_⟩
    · have : point' ≠ 0 ∧ point' ≤ point := by
        rw [← hp]
        split <;> omega
      exact ⟨(hle this.1).1, Nat.le_trans (hle this.1).2 this.2⟩
    · rcases List.mem_cons.mp hg with rfl | hg
      · have : point' ≠ 0 ∧ point' ≤ armAt w g := by
          rw [← hp]
          split <;> omega
        exact ⟨(hle this.1).1, Nat.le_trans (hle this.1).2 this.2⟩
      · exact hmem g hg hne

/-- A free backing of the class still bound is armed for. -/
theorem armPoint_le {w : World} {request : BackingRequest} {g : Nat} (hfree : g ∈ w.free)
    (hfits : fits (w.backing g) request = true) (hbound : w.completed < (w.backing g).safeAt) :
    armPoint w request ≠ 0 ∧ armPoint w request ≤ (w.backing g).safeAt := by
  have harm : armAt w g = (w.backing g).safeAt := by
    unfold armAt
    rw [if_pos hbound]
  have := (armFold_le (w.free.filter fun g => fits (w.backing g) request) 0).2 g
    (List.mem_filter.mpr ⟨hfree, hfits⟩) (by rw [harm]; omega)
  rw [harm] at this
  exact this

theorem armClock_inv {w : World} {call : Call} {completed : Nat} (hinv : Inv w)
    (hacq : w.acquirer = some (call, .armClock completed))
    (hkeep : w.events ≠ w.scanEvents ∨ ∀ g ∈ w.free, fits (w.backing g) call.request = true →
      completed < (w.backing g).safeAt → (w.backing g).safeAt ≤ w.completed → Attended w g) :
    Inv (acquireStep w call (.armClock completed)) := by
  -- past this reading of the clock, whatever is not attended is armed for
  have harmed : Behind w ∨ ∀ g ∈ w.all, fits (w.backing g) call.request = true →
      Attended w g ∨ (armPoint w call.request ≠ 0
        ∧ armPoint w call.request ≤ (w.backing g).safeAt) := by
    rcases hinv.wakes.searching call _ hacq with hb | hs
    · exact .inl hb
    rcases hkeep with hne | hkeep
    · refine .inl ⟨hne, fun c e he => ?_⟩
      rw [hacq] at he
      cases he
    · refine .inr fun g hg hf => ?_
      rcases hs g hg hf with ha | ⟨hfree, hlt⟩
      · exact .inl ha
      · rcases Nat.lt_or_ge w.completed (w.backing g).safeAt with hbound | hpassed
        · exact .inr (armPoint_le hfree hf hbound)
        · exact .inl (hkeep g hfree hf hlt hpassed)
  simp only [acquireStep]
  split
  · rename_i hzero
    refine finishEmpty_inv hinv (harmed.imp_right fun h g hg hf => ?_)
    exact (h g hg hf).resolve_right fun hne => hne.1 hzero
  · refine (reads_goto _ _ _).inv hinv (fun c e he => by cases he) fun hq c p hp => ?_
    cases hp
    refine harmed.imp hq.behind fun h g hg hf => ?_
    exact (h g hg hf).imp (hq.attended g hg) fun hle => hle.2

/-- A point armed already at or before the one wanted attends the class. -/
theorem armLoaded_inv {w : World} {call : Call} {point : Nat} {phase : AcquirePhase}
    (hinv : Inv w) (hacq : w.acquirer = some (call, phase))
    (hopen : ∀ g, Open w phase g → point ≤ (w.backing g).safeAt) :
    Inv (armLoaded w call point) := by
  unfold armLoaded
  split
  · rename_i harmed
    refine finishEmpty_inv hinv ((hinv.wakes.searching call phase hacq).imp_right
      fun h g hg hf => ?_)
    rcases h g hg hf with ha | ho
    · exact ha
    · have hle : w.armedAt ≤ (w.backing g).safeAt := Nat.le_trans harmed.2 (hopen g ho)
      rcases hinv.clock.armed harmed.1 with hp | ⟨t, ht, i, hi, rfl⟩
      · exact .inr (.inr (.inr (.inr ⟨_, hle, hp⟩)))
      · exact .inr (.inr (.inr (.inl ⟨t, ht, _, hi, trivial⟩)))
  · exact inv_goto hinv hacq (reads_goto _ _ _) rfl (fun _ h => by cases h)
      fun g _ ho => .inr (hopen g ho)

theorem armTry_inv {w : World} {call : Call} {point armed : Nat} (hinv : Inv w)
    (hacq : w.acquirer = some (call, .armTry point armed)) :
    Inv (acquireStep w call (.armTry point armed)) := by
  simp only [acquireStep]
  split
  swap
  · exact armLoaded_inv hinv hacq fun _ ho => ho
  generalize hw' : ({ w with armedAt := point }.goto call .subscribing).spawn
    [.clockSubscribe point, .endAcquire call] = w'
  have hback : ∀ g, w'.backing g = w.backing g := fun g => by rw [← hw']; rfl
  have hhas : ∀ p, Has w p → Has w' p := fun p hp => by
    rw [← hw']
    exact has_spawn.mpr (.inl hp)
  have hacq' : w'.acquirer = some (call, .subscribing) := by rw [← hw']; rfl
  have hpend : ClockPending w' point := by
    rw [← hw']
    exact .inr (has_spawn.mpr (.inr ⟨_, List.mem_cons_self, rfl⟩))
  have hatt : ∀ g, Attended w g → Attended w' g := fun g ha => by
    rw [← hw']
    exact attended_spawn ha
  have hst : ∀ c e, w'.acquirer ≠ some (c, .storeScanEvents e) := fun c e he => by
    rw [hacq'] at he
    cases he
  have hq : Quiet w w' := by
    refine ⟨fun _ h => ?_, fun g _ _ => by rw [hback], fun g _ => hatt g,
      fun hb => ⟨?_, fun c e he => absurd he (hst c e)⟩⟩
    · rw [← hw'] at h
      exact h
    · rw [← hw']
      exact hb.1
  refine ⟨⟨?_, fun c e he => absurd he (hst c e), fun g hg hl => ?_⟩, ⟨fun _ => ?_, ?_⟩,
    wakesOwed_quiet hinv.wakes hq (by rw [← hw']; rfl) (fun _ h => ?_)
      (fun c e he => absurd he (hst c e)) (fun _ _ h => hhas _ h) (fun request hr => ?_)
      (fun c p hp => ?_)⟩
  · rw [← hw']
    exact hinv.books.scanned
  · rw [hback] at hl
    have := hinv.books.placed g (hq.all g hg) hl
    rw [← hw']
    exact this.imp_right (Or.imp_right fun h => has_spawn.mpr (.inl h))
  · rw [← hw'] at hpend ⊢
    exact .inl hpend
  · have hkept : ClockKept (({ w with armedAt := 0 }.goto call .subscribing).spawn
        [.clockSubscribe point, .endAcquire call]) :=
      clockKept_spawn ⟨fun h => absurd rfl h, hinv.clock.reached⟩
    rw [← hw']
    exact hkept.reached
  · rw [← hw'] at h
    exact h
  · rw [← hw'] at hr
    refine (has_spawn.mp hr).imp (fun h => h) fun ⟨i, hi, hs⟩ => ?_
    -- the caller now waits for the point just armed
    rcases List.mem_cons.mp hi with rfl | hi
    · exact absurd hs id
    · rw [List.mem_singleton.mp hi] at hs
      obtain ⟨_, rfl⟩ := hs
      rcases hinv.wakes.searching call _ hacq with hb | hsearch
      · exact .inl (hq.behind hb)
      · refine .inr fun g hg hf => ?_
        rw [hback] at hf
        rcases hsearch g (hq.all g hg) hf with ha | ho
        · exact hatt g ha
        · refine .inr (.inr (.inr (.inr ⟨point, ?_, hpend⟩)))
          rw [hback]
          exact ho
  · rw [hacq'] at hp
    cases hp
    exact .inr fun _ _ _ => .inr trivial

/-- **Every access of the acquirer keeps the invariant.** -/
theorem acquireStep_inv {w : World} {call : Call} {phase : AcquirePhase} (hinv : Inv w)
    (hacq : w.acquirer = some (call, phase)) (hkeep : KeepsWakes w .acquirer) :
    Inv (acquireStep w call phase) := by
  unfold KeepsWakes at hkeep
  simp only [hacq] at hkeep
  cases phase with
  | loadEvents => exact loadEvents_inv hinv hkeep
  | storeScanEvents events => exact storeScanEvents_inv hinv hacq
  | takeReturned => exact takeReturned_inv hinv
  | readClock =>
    exact inv_goto hinv hacq (reads_goto _ _ _) rfl (fun _ h => by cases h)
      fun _ _ ho => .inr ⟨ho, .inl ho⟩
  | scan completed todo same release =>
    cases todo with
    | nil => exact scanDone_inv hinv hacq
    | cons g todo => exact scan_inv hinv hacq
  | claimSet completed claim g => exact claimSet_inv hinv hacq
  | claimRead completed claim g => exact claimRead_inv hinv hacq
  | claimUndo completed claim g => exact claimUndo_inv hinv hacq
  | claimed completed claim g =>
    cases claim with
    | reuse same release => exact claimedReuse_inv hinv hacq
    | release chosen rest => exact claimedRelease_inv hinv hacq
    | bound => exact claimedBound_inv hinv hacq
  | leaseBacking g => exact leaseBacking_inv hinv
  | choose completed => exact choose_inv hinv hacq
  | scanBound completed todo bound => exact scanBound_inv hinv hacq
  | armClock completed => exact armClock_inv hinv hacq hkeep
  | armLoad point => exact armLoaded_inv hinv hacq fun _ ho => ho
  | armTry point armed => exact armTry_inv hinv hacq
  | subscribing => exact hinv

end ModuleServices.Pool.Proof
