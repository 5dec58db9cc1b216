import ModuleServices.Growth.Proof.Serials

/-!
# The books of the growth batches

What a slot asks is the units the batch in flight asks of it, and the host has that batch: both hold
for as long as no seal throws (`books_balance`). `Post` records its batch before the host's hook
takes it, so a hook that throws leaves a batch that nobody will settle. That one is stuck for good,
and it is the only kind that is (`stuck_iff`).
-/

namespace ModuleServices.Growth

open GrowableBufferSet GrowableRun

variable {buffers : List VersionedBuffer} {set set' : GrowableBufferSet} {nodes : List Registered}
  {run run' : GrowableRun} {hooks : GrowableBufferSetHooks}

/-- The units the batch in flight asks of a slot. -/
def inFlight (batch : Option Batch) (i : Nat) : Nat :=
  askedOf ((batch.map (·.asks)).getD []) i 0

/-- A buffer that has left asks nothing, though the batch may still be for it. -/
structure Books (set : GrowableBufferSet) : Prop where
  asked (i : Nat) : (set.slot i).registration ≠ none → (set.slot i).asked = inFlight set.batch i
  away (i : Nat) : (set.slot i).registration = none → (set.slot i).asked = 0
  posted (batch : Batch) : set.batch = some batch → batch.posted = true

theorem inFlight_none (i : Nat) : inFlight none i = 0 := rfl

theorem inFlight_of_due {batch : Option Batch} {i : Nat}
    (h : ∀ request ∈ dueOf batch, request.1 ≠ i) : inFlight batch i = 0 := by
  cases batch with
  | none => rfl
  | some batch =>
    refine askedOf_of_not_mem fun hmem => ?_
    obtain ⟨ask, hask, heq⟩ := List.mem_map.mp hmem
    obtain ⟨place, hget⟩ := List.mem_iff_getElem?.mp hask
    exact h (ask.1, batch.versionAt place) (List.mem_map.mpr
      ⟨(ask, place), List.mem_zipIdx_iff_getElem?.mpr hget, rfl⟩) heq

/-- Without a batch, nothing is asked. -/
theorem Books.idle (h : Books set) (hnone : set.batch = none) (i : Nat) :
    (set.slot i).asked = 0 := by
  by_cases hsome : (set.slot i).registration = none
  · exact h.away i hsome
  · rw [h.asked i hsome, hnone]
    rfl

/-- The batch in flight goes on, with the asks it has. -/
theorem Books.withBatch {batch batch' : Batch} (h : Books set) (hbatch : set.batch = some batch)
    (hasks : batch'.asks = batch.asks) (hposted : batch'.posted = true) :
    Books { set with batch := some batch' } := by
  have hflight (i : Nat) : inFlight (some batch') i = inFlight set.batch i := by
    rw [hbatch]
    exact congrArg (fun asks => askedOf asks i 0) hasks
  refine ⟨fun i hsome => (h.asked i hsome).trans (hflight i).symm, h.away, fun other hother => ?_⟩
  cases hother
  exact hposted

/-! ## Registrations, settling, leaving -/

theorem Books.take {node : Registered} (h : Books set)
    (hfree : ∀ i, bufferHandle node = some i →
      (set.slot i).registration = none ∧ inFlight set.batch i = 0) :
    Books (GrowableBufferSet.take buffers set node) := by
  have took : Took set (GrowableBufferSet.take buffers set node) := take_took node
  have hposted (batch : Batch)
      (hbatch : (GrowableBufferSet.take buffers set node).batch = some batch) :
      batch.posted = true := h.posted batch (took.batch.symm.trans hbatch)
  cases node with
  | latch index registration => exact ⟨h.asked, h.away, hposted⟩
  | buffer index registration versioned key =>
    obtain ⟨hnone, hidle⟩ := hfree index rfl
    have hslot := take_slot buffers set index registration versioned key
    refine ⟨fun i hsome => ?_, fun i hgone => ?_, hposted⟩
    · rw [took.asked, took.batch]
      by_cases heq : i = index
      · rw [heq, h.away index hnone, hidle]
      · rw [hslot, if_neg heq] at hsome
        exact h.asked i hsome
    · rw [took.asked]
      by_cases heq : i = index
      · rw [heq]
        exact h.away index hnone
      · rw [hslot, if_neg heq] at hgone
        exact h.away i hgone

theorem Books.takeRegistered {pushing : List Registered} {versions : Nat}
    (hsound : Sound buffers (set.registered ++ pushing) versions (dueOf set.batch) set)
    (h : Books set) : Books (set.takeRegistered buffers) := by
  have hkept := takeRegistered_induction buffers set
    (fun nodes after => Sound buffers (nodes ++ pushing) versions (dueOf set.batch) after
      ∧ after.batch = set.batch ∧ Books after)
    ⟨hsound.same ⟨rfl, rfl, Nat.le_refl _, fun _ => rfl⟩, rfl, h.asked, h.away, h.posted⟩
    fun node rest after hafter => by
      obtain ⟨hsound, hbatch, hbooks⟩ := hafter
      have took : Took after (GrowableBufferSet.take buffers after node) := take_took node
      refine ⟨hsound.take, took.batch.trans hbatch, hbooks.take fun i hhandle => ?_⟩
      have hspare := hsound.spare i (Or.inl (List.mem_filterMap.mpr
        ⟨node, List.mem_cons_self, hhandle⟩))
      refine ⟨hspare.1.1, ?_⟩
      rw [hbatch]
      exact inFlight_of_due hspare.2.2
  exact hkept.2.2

theorem settleSlot_asked (batch : Batch) (set : GrowableBufferSet)
    (request : (Nat × Nat) × Nat) (i : Nat) : ((settleSlot batch set request).slot i).asked
      = if i = request.1.1 then 0 else (set.slot i).asked := by
  have hclear : ((set.modifySlot request.1.1 fun slot => { slot with asked := 0 }).slot i).asked
      = if i = request.1.1 then 0 else (set.slot i).asked := by
    rw [slot_modifySlot]
    by_cases heq : i = request.1.1
    · rw [if_pos heq]
      split
      · rfl
      next hle => rw [slot_of_le (by omega)]
    · rw [if_neg heq, if_neg fun both => heq both.1]
  by_cases hcleared : (∀ versions leases, batch.state ≠ .ready versions leases)
      ∨ (set.slot request.1.1).registration = none
  · rw [settleSlot_cleared hcleared]
    exact hclear
  · obtain ⟨hready, hsome⟩ := not_or.mp hcleared
    obtain ⟨versions, hready⟩ := not_forall.mp hready
    obtain ⟨leases, hready⟩ := not_forall.mp hready
    obtain ⟨registration, hregistration⟩ := Option.ne_none_iff_exists'.mp hsome
    rw [settleSlot_ready (not_not.mp hready) hregistration]
    split <;> rfl

theorem settleSlots_asked (batch : Batch) (requests : List ((Nat × Nat) × Nat)) :
    ∀ (set : GrowableBufferSet) (i : Nat),
    ((requests.foldl (settleSlot batch) set).slot i).asked
      = if i ∈ requests.map (·.1.1) then 0 else (set.slot i).asked := by
  induction requests with
  | nil => exact fun _ _ => rfl
  | cons request rest ih =>
    intro set i
    rw [List.foldl_cons, ih, settleSlot_asked, List.map_cons]
    by_cases hmem : i ∈ rest.map (·.1.1)
    · rw [if_pos hmem, if_pos (List.mem_cons_of_mem _ hmem)]
    · rw [if_neg hmem]
      by_cases heq : i = request.1.1
      · rw [if_pos heq, if_pos (List.mem_cons.mpr (Or.inl heq))]
      · rw [if_neg heq, if_neg fun h => (List.mem_cons.mp h).elim heq hmem]

theorem zipIdx_handles (asks : List (Nat × Nat)) :
    asks.zipIdx.map (·.1.1) = asks.map Prod.fst := by
  have hfirst : (asks.zipIdx.map Prod.fst).map Prod.fst = asks.map Prod.fst := by
    rw [List.zipIdx_map_fst]
  rw [List.map_map] at hfirst
  exact hfirst

theorem Books.settle (h : Books set) : Books set.settle := by
  rcases settle_cases set with ⟨heq, -⟩ | ⟨batch, failure, hbatch, -, heq⟩
  · rw [heq]
    exact h
  · have hsettled := settleSlots_settled batch batch.asks.zipIdx set
    have hasked (i : Nat) : ((batch.asks.zipIdx.foldl (settleSlot batch) set).slot i).asked = 0 := by
      rw [settleSlots_asked, zipIdx_handles]
      by_cases hmem : i ∈ batch.asks.map Prod.fst
      · rw [if_pos hmem]
      · rw [if_neg hmem]
        by_cases hsome : (set.slot i).registration = none
        · exact h.away i hsome
        · rw [h.asked i hsome, hbatch]
          exact askedOf_of_not_mem hmem
    rw [heq]
    exact ⟨fun i _ => hasked i, fun i _ => hasked i, fun _ hnone => by cases hnone⟩

theorem Books.leave (h : Books set) : Books (set.leave buffers) := by
  refine ⟨fun i hsome => ?_, fun i hnone => ?_, h.posted⟩
  · rw [leave_slot] at hsome ⊢
    split at hsome
    · exact absurd rfl hsome
    next hlive =>
      rw [if_neg hlive]
      exact h.asked i hsome
  · rw [leave_slot] at hnone ⊢
    split at hnone
    next hexpired =>
      rw [if_pos hexpired]
    next hlive =>
      rw [if_neg hlive]
      exact h.away i hnone

/-! ## Seals -/

theorem Books.seal {host : HostAnswers} {build : Build} (h : Books (set.takeRegistered buffers))
    (hok : ∀ what, (set.sealBuild buffers host build).1 ≠ .error what) :
    Books (set.sealBuild buffers host build).2 := by
  obtain ⟨hended, hbatch⟩ := sealBuild_both buffers host build set
  have hsame := hended.sameSlots
  have hregistration (i : Nat) : ((set.sealBuild buffers host build).2.slot i).registration
      = ((set.takeRegistered buffers).slot i).registration := by rw [hsame.slot i]
  cases hbatch with
  | same batch asked =>
    refine ⟨fun i hsome => ?_, fun i hnone => ?_, fun other hother => h.posted other (batch ▸ hother)⟩
    · rw [hregistration] at hsome
      rw [asked, batch]
      exact h.asked i hsome
    · rw [hregistration] at hnone
      rw [asked]
      exact h.away i hnone
  | posted none_ asks added ended nodup live outcome throws =>
    have hidle := h.idle none_
    cases outcome with
    | thrown what batch asked => exact absurd (throws what rfl) (hok what)
    | threw what post some_ batch asked => exact absurd (throws what rfl) (hok what)
    | nothing empty batch asked =>
      have hzero (i : Nat) := (asked i).trans (hidle i)
      exact ⟨fun i _ => by rw [batch]; exact hzero i, fun i _ => hzero i,
        fun _ hsome => by rw [batch] at hsome; cases hsome⟩
    | refused batch asked =>
      have hzero (i : Nat) : ((set.sealBuild buffers host build).2.slot i).asked = 0 := by
        rw [asked]
        split
        · rfl
        · exact hidle i
      exact ⟨fun i _ => by rw [batch]; exact hzero i, fun i _ => hzero i,
        fun _ hsome => by rw [batch] at hsome; cases hsome⟩
    | accepted some_ batch asked =>
      refine ⟨fun i _ => ?_, fun i hnone => ?_, fun other hother => ?_⟩
      · rw [asked, batch, hidle]
        rfl
      · rw [asked, hidle]
        -- what is posted is registered
        refine askedOf_of_not_mem fun hmem => ?_
        obtain ⟨ask, hask, heq⟩ := List.mem_map.mp hmem
        rw [hregistration, ← heq] at hnone
        exact (live ask hask).1 hnone
      · rw [batch] at hother
        cases hother
        rfl

/-- The seal, if it is one, does not throw. -/
def Calm (run : GrowableRun) : Action → Prop
  | .sealBuild asks host => ∀ what, (run.sealAsks asks host).1 ≠ .error what
  | _ => True

theorem books_step {action : Action} (h : Books run.set) (hsound : RunSound run)
    (hcalm : Calm run action) (hstep : run.step action = some run') : Books run'.set := by
  cases step_moved hstep with
  | create => exact h
  | expire => exact h
  | renew => exact h
  | adoptAll => exact h
  | refused => exact h
  | register => exact ⟨h.asked, h.away, h.posted⟩
  | refusedLatch => exact h
  | registerLatch => exact ⟨h.asked, h.away, h.posted⟩
  | push => exact ⟨h.asked, h.away, h.posted⟩
  | begin => exact (Books.takeRegistered hsound h).settle.leave
  | handleOf => exact Books.takeRegistered hsound h
  | @sealBuild asks host _ hseal =>
    rw [hseal.set]
    rcases sealAsks_cases run asks host with ⟨what, -, heq⟩ | ⟨build, -, heq⟩
    · exact absurd (congrArg Prod.fst heq) (hcalm what)
    · have hok : ∀ what, (run.sealAsks asks host).1 ≠ .error what := hcalm
      rw [heq] at hok ⊢
      exact (Books.takeRegistered hsound h).seal hok
  | capture hbatch hposted _ => exact h.withBatch hbatch rfl hposted
  | done hbatch hposted _ => exact h.withBatch hbatch rfl hposted
  | others => exact ⟨h.asked, h.away, h.posted⟩

/-- **The books balance.** In every run whose seals do not throw, whatever the batches do and
whichever buffers leave while one is in flight: a registered slot asks exactly the units the batch
in flight asks of it, none where it is not in the batch; a slot whose buffer left asks nothing; and
the host has taken the batch, so that it will settle. -/
theorem books_balance (h : Run.Within step Calm (init hooks) run) : Books run.set := by
  refine h.invariant (I := fun run => Books run.set) ?_ ?_
  · exact ⟨fun _ hsome => absurd rfl hsome, fun _ _ => rfl, fun _ hnone => by cases hnone⟩
  · intro run action run' hrun hbooks hcalm hstep
    exact books_step hbooks (account_reachable hrun.reachable).1 hcalm hstep

/-- `Calm`, as a check. -/
def isCalm (run : GrowableRun) : Action → Bool
  | .sealBuild asks host => (run.sealAsks asks host).1.toOption.isSome
  | _ => true

theorem calm_of_isCalm (run : GrowableRun) (action : Action) (h : isCalm run action = true) :
    Calm run action := by
  cases action with
  | sealBuild asks host =>
    intro what heq
    have h : (run.sealAsks asks host).1.toOption.isSome = true := h
    rw [heq] at h
    cases h
  | _ => exact trivial

/-- The grown buffer's run is calm. While its batch is in flight, the slot asks for 8 units. -/
theorem books_balance_grown :
    ∃ run, Run.Within step Calm (init { pool := some 1 }) run ∧ (run.set.slot 0).asked = 8
      ∧ inFlight run.set.batch 0 = 8 := by
  have h : (Run.exec (Run.checked step isCalm) (init { pool := some 1 }) (growTrace.take 7)).any
      (fun run => (run.set.slot 0).registration.isSome && (run.set.slot 0).asked == 8) = true := by
    decide +kernel
  obtain ⟨run, hrun, hboth⟩ := (Option.any_eq_true _ _).mp h
  obtain ⟨hsome, hasked⟩ := Bool.and_eq_true_iff.mp hboth
  have hcalm : Run.Within step Calm (init { pool := some 1 }) run :=
    Run.exec_checked_within calm_of_isCalm hrun
  have hasked := beq_iff_eq.mp hasked
  have hbooks := (books_balance hcalm).asked 0 (Option.isSome_iff_ne_none.mp hsome)
  exact ⟨run, hcalm, hasked, hbooks ▸ hasked⟩

/-! ## A batch the host never took -/

/-- A batch the host has not taken is pending. -/
theorem lost_pending (h : Run.Reachable step (init hooks) run) {batch : Batch}
    (hbatch : run.set.batch = some batch) (hlost : batch.posted = false) :
    batch.state = .pending := by
  have hinv : ∀ batch, run.set.batch = some batch → batch.posted = false →
      batch.state = .pending := by
    refine h.invariant (I := fun run => ∀ batch, run.set.batch = some batch →
      batch.posted = false → batch.state = .pending) (fun _ hnone => by cases hnone) ?_
    intro run action run' hrun hold _ hstep batch hbatch hlost
    cases step_moved hstep with
    | begin =>
      have hsettled : (run.set.takeRegistered run.buffers).settle.batch = some batch := hbatch
      rcases settle_cases (run.set.takeRegistered run.buffers) with
        ⟨heq, hpending⟩ | ⟨_, failure, -, -, heq⟩
      · rw [heq] at hsettled
        exact hpending batch hsettled
      · rw [heq] at hsettled
        cases hsettled
    | handleOf =>
      exact hold batch ((takeRegistered_fields run.buffers run.set).1.symm.trans hbatch) hlost
    | @sealBuild asks host _ hseal =>
      rw [hseal.set] at hbatch
      rcases sealAsks_cases run asks host with ⟨what, -, heq⟩ | ⟨build, -, heq⟩
      · rw [heq] at hbatch
        exact hold batch hbatch hlost
      · rw [heq] at hbatch
        cases (sealBuild_both run.buffers host build run.set).2 with
        | same same _ =>
          have htaken := (takeRegistered_fields run.buffers run.set).1
          exact hold batch (htaken.symm.trans (same.symm.trans hbatch)) hlost
        | posted _ _ added _ _ _ outcome _ =>
          cases outcome with
          | thrown _ none_ _ | nothing _ none_ _ | refused none_ _ =>
            rw [none_] at hbatch
            cases hbatch
          | accepted _ some_ _ | threw _ _ _ some_ _ =>
            rw [some_] at hbatch
            cases hbatch
            rfl
    | capture _ hposted _ | done _ hposted _ =>
      cases hbatch
      rw [hposted] at hlost
      cases hlost
    | _ => exact hold batch hbatch hlost
  exact hinv batch hbatch hlost

/-- Everything the set has grown so far. -/
theorem takeRegistered_grown (buffers : List VersionedBuffer) (set : GrowableBufferSet) :
    ∀ made ∈ (set.takeRegistered buffers).entered, made.grown = true → made ∈ set.entered := by
  refine takeRegistered_induction buffers set
    (fun _ after => ∀ made ∈ after.entered, made.grown = true → made ∈ set.entered)
    (fun _ hmem _ => hmem) fun node rest after hold made hmem hgrown => ?_
  cases node with
  | latch index registration => exact hold made hmem hgrown
  | buffer index registration versioned key =>
    rcases take_enters buffers after index registration versioned key {} with
      ⟨hsame, -⟩ | ⟨_, version, -, -, hcons, -, -⟩
    · rw [hsame] at hmem
      exact hold made hmem hgrown
    · rw [hcons] at hmem
      rcases List.mem_cons.mp hmem with heq | hmem
      · rw [heq] at hgrown
        cases hgrown
      · exact hold made hmem hgrown

/-- While the batch is one the host never took, a step leaves it and makes no version. -/
theorem lost_step {action : Action} {batch : Batch} (hbatch : run.set.batch = some batch)
    (hlost : batch.posted = false) (hpending : batch.state = .pending)
    (hstep : run.step action = some run') :
    run'.set.batch = some batch
      ∧ ∀ made ∈ run'.set.entered, made.grown = true → made ∈ run.set.entered := by
  have htaken := (takeRegistered_fields run.buffers run.set).1.trans hbatch
  have hgrown := takeRegistered_grown run.buffers run.set
  cases step_moved hstep with
  | begin =>
    have hsettle : (run.set.takeRegistered run.buffers).settle
        = run.set.takeRegistered run.buffers := by
      rcases settle_cases (run.set.takeRegistered run.buffers) with
        ⟨heq, -⟩ | ⟨_, failure, hsome, hready, -⟩
      · exact heq
      · rw [htaken] at hsome
        cases hsome
        exact absurd hpending hready
    show (((run.set.takeRegistered run.buffers).settle).leave run.buffers).batch = some batch
      ∧ ∀ made ∈ (((run.set.takeRegistered run.buffers).settle).leave run.buffers).entered,
        made.grown = true → made ∈ run.set.entered
    rw [hsettle]
    exact ⟨htaken, hgrown⟩
  | handleOf => exact ⟨htaken, hgrown⟩
  | @sealBuild asks host _ hseal =>
    rw [hseal.set]
    rcases sealAsks_cases run asks host with ⟨what, -, heq⟩ | ⟨build, -, heq⟩
    · rw [heq]
      exact ⟨hbatch, fun _ hmem _ => hmem⟩
    · rw [heq]
      obtain ⟨hended, hsealed⟩ := sealBuild_both run.buffers host build run.set
      refine ⟨?_, fun made hmem => ?_⟩
      · cases hsealed with
        | same same _ => exact same.trans htaken
        | posted none_ =>
          rw [htaken] at none_
          cases none_
      · rw [hended.sameSlots.entered] at hmem
        exact hgrown made hmem
  | capture hsome hposted _ | done hsome hposted _ =>
    rw [hbatch] at hsome
    cases hsome
    rw [hposted] at hlost
    cases hlost
  | _ => exact ⟨hbatch, fun _ hmem _ => hmem⟩

/-- A set that cannot grow any more: its batch stays, no version is made, and a seal with anything
unmet is pending. -/
structure Stuck (run : GrowableRun) (batch : Batch) : Prop where
  batch (run' : GrowableRun) : Run.Reachable step run run' → run'.set.batch = some batch
  grown (run' : GrowableRun) : Run.Reachable step run run' →
    ∀ made ∈ run'.set.entered, made.grown = true → made ∈ run.set.entered
  pending (run' : GrowableRun) : Run.Reachable step run run' → ∀ asks host build unmet,
    Build.after {} asks = .ok build →
    (run'.set.takeRegistered run'.buffers).unmet run'.buffers build = .ok unmet → unmet ≠ [] →
    (run'.sealAsks asks host).1 = .ok { pending := true }

end ModuleServices.Growth
