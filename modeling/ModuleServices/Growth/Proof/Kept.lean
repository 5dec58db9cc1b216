import ModuleServices.Growth.Proof.Sealing

/-!
# The very same set

A seal returns the set the last one returned exactly when nothing in between changed a version that
could be named or made a latch block (`kept_iff`). The set's flag is the whole argument: a step that
changes something raises it and only a seal that names lowers it, so what happened between two
sealed sets is in it when the second is made.
-/

namespace ModuleServices.Growth

open GrowableBufferSet GrowableRun

variable {buffers : List VersionedBuffer} {set set' : GrowableBufferSet}
  {run run' : GrowableRun} {hooks : GrowableBufferSetHooks}

/-- A step that changes no version that is named and makes no latch block: nothing is taken, no
buffer leaves, and no batch brings a version to a slot. -/
def Still (run : GrowableRun) : Action → Prop
  | .begin => run.set.registered = []
      ∧ (∀ batch versions leases, run.set.batch = some batch → batch.state = .ready versions leases →
        ∀ ask ∈ batch.asks, (run.set.slot ask.1).registration = none)
      ∧ ∀ i, expired run.buffers (run.set.slot i) = false
  | .handleOf _ => run.set.registered = []
  | .sealBuild asks host => ∀ build, Build.after {} asks = .ok build →
      run.set.registered = [] ∧ (run.sealAsks asks host).2.blocks = run.set.blocks
  | _ => True

theorem settleSlot_raised (batch : Batch) (request : (Nat × Nat) × Nat)
    (h : set.changed = true) : (settleSlot batch set request).changed = true := by
  by_contra hdown
  have hquiet := settleSlot_changed batch set request (Bool.not_eq_true _ ▸ hdown)
  rw [hquiet.changed] at hdown
  exact hdown h

/-- A ready version for a registered slot raises the flag. -/
theorem settleSlots_raised {batch : Batch} {versions : List BufferVersion} {leases : List Nat}
    (hstate : batch.state = .ready versions leases) (requests : List ((Nat × Nat) × Nat)) :
    ∀ set : GrowableBufferSet, (set.changed = true
      ∨ ∃ request ∈ requests, (set.slot request.1.1).registration ≠ none) →
    (requests.foldl (settleSlot batch) set).changed = true := by
  induction requests with
  | nil => exact fun set h => h.elim id fun ⟨_, hmem, _⟩ => absurd hmem List.not_mem_nil
  | cons request rest ih =>
    intro set h
    refine ih (settleSlot batch set request) ?_
    rcases h with hraised | ⟨other, hmem, hsome⟩
    · exact Or.inl (settleSlot_raised batch request hraised)
    · rcases List.mem_cons.mp hmem with heq | hmem
      · refine Or.inl ?_
        rw [heq] at hsome
        obtain ⟨registration, hregistration⟩ := Option.ne_none_iff_exists'.mp hsome
        unfold settleSlot
        simp only [hstate, hregistration]
      · refine Or.inr ⟨other, hmem, ?_⟩
        rw [(settleSlot_settled batch set request).registration]
        exact hsome

theorem takeRegistered_raised (h : set.changed = true ∨ set.registered ≠ []) :
    (set.takeRegistered buffers).changed = true := by
  by_contra hdown
  have hsame := takeRegistered_quiet (Bool.not_eq_true _ ▸ hdown)
  rcases h with hraised | hsome
  · rw [hsame] at hdown
    exact hdown hraised
  · have hnil := (takeRegistered_fields buffers set).2.2.1
    rw [hsame] at hnil
    exact hsome hnil

theorem settle_raised (h : set.changed = true
    ∨ ∃ batch versions leases, set.batch = some batch ∧ batch.state = .ready versions leases
      ∧ ∃ ask ∈ batch.asks, (set.slot ask.1).registration ≠ none) :
    set.settle.changed = true := by
  rcases settle_cases set with ⟨heq, hpending⟩ | ⟨batch, failure, hbatch, hstate, heq⟩
  · rw [heq]
    rcases h with hraised | ⟨batch, versions, leases, hbatch, hready, -⟩
    · exact hraised
    · rw [hpending batch hbatch] at hready
      cases hready
  · rw [heq]
    show (batch.asks.zipIdx.foldl (settleSlot batch) set).changed = true
    rcases h with hraised | ⟨batch', versions, leases, hbatch', hready, ask, hmem, hsome⟩
    · by_contra hdown
      have hquiet := settleSlots_changed batch _ set (Bool.not_eq_true _ ▸ hdown)
      rw [hquiet.changed] at hdown
      exact hdown hraised
    · rw [hbatch] at hbatch'
      cases hbatch'
      refine settleSlots_raised hready _ set (Or.inr ?_)
      obtain ⟨place, hget⟩ := List.mem_iff_getElem?.mp hmem
      refine ⟨(ask, place), ?_, hsome⟩
      exact List.mem_zipIdx_iff_getElem?.mpr hget

theorem leave_raised (h : set.changed = true ∨ ∃ i, expired buffers (set.slot i) = true) :
    (set.leave buffers).changed = true := by
  show (set.changed || set.slots.any (expired buffers)) = true
  rcases h with hraised | ⟨i, hexpired⟩
  · rw [hraised, Bool.true_or]
  · have hlt : i < set.slots.length := by
      by_contra hle
      rw [slot_of_le (by omega)] at hexpired
      cases hexpired
    have hany : set.slots.any (expired buffers) = true := by
      refine List.any_eq_true.mpr ⟨set.slot i, ?_, hexpired⟩
      unfold GrowableBufferSet.slot
      rw [List.getD_eq_getElem?_getD, List.getElem?_eq_getElem hlt]
      exact List.getElem_mem hlt
    rw [hany, Bool.or_true]

theorem begin_raised (h : set.changed = true ∨ set.registered ≠ []) :
    (set.begin buffers).changed = true :=
  leave_raised (Or.inl (settle_raised (Or.inl (takeRegistered_raised h))))

/-! ## One step -/

theorem settleSlots_cleared {batch : Batch} (requests : List ((Nat × Nat) × Nat)) :
    ∀ set : GrowableBufferSet, ((∀ versions leases, batch.state ≠ .ready versions leases)
      ∨ ∀ request ∈ requests, (set.slot request.1.1).registration = none) →
    Quiet set (requests.foldl (settleSlot batch) set) := by
  induction requests with
  | nil => exact fun set _ => Quiet.refl set
  | cons request rest ih =>
    intro set h
    have hclear : Quiet set (settleSlot batch set request) := by
      rw [settleSlot_cleared (h.imp_right fun hnone => hnone request List.mem_cons_self)]
      exact quiet_modifySlot fun _ => rfl
    refine hclear.trans (ih _ (h.imp_right fun hnone other hmem => ?_))
    rw [hclear.registration]
    exact hnone other (List.mem_cons_of_mem _ hmem)

/-- A still `Begin` changes no version. -/
theorem begin_still (h : Still run .begin) : Quiet run.set (run.set.begin run.buffers) := by
  obtain ⟨hnil, hready, hlive⟩ := h
  have hsettled : Quiet run.set run.set.settle := by
    rcases settle_cases run.set with ⟨heq, -⟩ | ⟨batch, failure, hbatch, -, heq⟩
    · rw [heq]
      exact Quiet.refl run.set
    · rw [heq]
      refine (settleSlots_cleared _ run.set ?_).trans (quiet_batch _ _ _)
      by_cases hnever : ∀ versions leases, batch.state ≠ .ready versions leases
      · exact Or.inl hnever
      · obtain ⟨versions, hnever⟩ := not_forall.mp hnever
        obtain ⟨leases, hnever⟩ := not_forall.mp hnever
        refine Or.inr fun request hmem => hready batch versions leases hbatch
          (not_not.mp hnever) request.1 ?_
        have hget := List.mem_zipIdx_iff_getElem?.mp hmem
        exact List.mem_of_getElem? hget
  have hbegin : run.set.begin run.buffers = run.set.settle.leave run.buffers := by
    unfold GrowableBufferSet.begin
    rw [takeRegistered_nil hnil]
  have hleave : run.set.settle.leave run.buffers = run.set.settle := by
    refine leave_same fun i => ?_
    have hslot := hlive i
    unfold expired at hslot ⊢
    rw [hsettled.registration, hsettled.buffer]
    exact hslot
  rw [hbegin, hleave]
  exact hsettled

/-- A `Begin` that is not still raises the flag. -/
theorem begin_stirred (h : ¬Still run .begin) : (run.set.begin run.buffers).changed = true := by
  by_cases hnil : run.set.registered = []
  · have hbegin : run.set.begin run.buffers = run.set.settle.leave run.buffers := by
      unfold GrowableBufferSet.begin
      rw [takeRegistered_nil hnil]
    rw [hbegin]
    refine leave_raised ?_
    by_cases hready : ∀ batch versions leases, run.set.batch = some batch →
        batch.state = .ready versions leases → ∀ ask ∈ batch.asks,
        (run.set.slot ask.1).registration = none
    · have hsome : ∃ i, expired run.buffers (run.set.slot i) = true := by
        by_contra hnone
        refine h ⟨hnil, hready, fun i => ?_⟩
        exact Bool.eq_false_iff.mpr fun hexpired => hnone ⟨i, hexpired⟩
      obtain ⟨i, hexpired⟩ := hsome
      refine Or.inr ⟨i, ?_⟩
      have hsettled : Settled run.set { run.set.settle with batch := run.set.batch } := by
        rcases settle_cases run.set with ⟨heq, -⟩ | ⟨batch, failure, hbatch, -, heq⟩
        · rw [heq]
          exact (Quiet.refl run.set).settled rfl
        · rw [heq]
          have hall := settleSlots_settled batch batch.asks.zipIdx run.set
          exact ⟨hall.hooks, hall.registered, hall.nextHandle, rfl, hall.last, hall.handles,
            hall.latchSlots, hall.serials, hall.entered, hall.length, hall.registration,
            hall.buffer⟩
      have hregistration : (run.set.settle.slot i).registration = (run.set.slot i).registration :=
        hsettled.registration i
      have hbuffer : (run.set.settle.slot i).buffer = (run.set.slot i).buffer := hsettled.buffer i
      unfold expired at hexpired ⊢
      rw [hregistration, hbuffer]
      exact hexpired
    · refine Or.inl (settle_raised (Or.inr ?_))
      by_contra hnone
      refine hready fun batch versions leases hbatch hstate ask hmem => ?_
      by_contra hsome
      exact hnone ⟨batch, versions, leases, hbatch, hstate, ask, hmem, hsome⟩
  · exact begin_raised (Or.inr hnil)

theorem sealNamed_blocks (buffers : List VersionedBuffer) (set : GrowableBufferSet) :
    (set.sealNamed buffers).2.blocks = set.blocks := by
  unfold sealNamed
  split <;> rfl

/-- A still seal returns the last set, or none. -/
theorem seal_still {asks : List Ask} {host : HostAnswers} {named : NamedVersions}
    (hstill : Still run (.sealBuild asks host)) (hdown : run.set.changed = false)
    (hlast : run.set.last = some named) (hstep : SealStep run run' asks host) :
    run'.set.changed = false ∧ run'.set.last = some named
      ∧ (run'.sealed = run.sealed ∨ run'.sealed = named :: run.sealed) := by
  have hset := hstep.set
  have hsealed := hstep.sealed
  rcases sealAsks_cases run asks host with ⟨what, -, heq⟩ | ⟨build, hbuild, heq⟩
  · rw [heq] at hset hsealed
    rcases hsealed with ⟨sealed, named', hok, -, -⟩ | ⟨hsame, -⟩
    · cases hok
    · rw [hset]
      exact ⟨hdown, hlast, Or.inl hsame⟩
  · obtain ⟨hnil, hblocks⟩ := hstill build hbuild
    rw [heq] at hset hsealed hblocks
    obtain ⟨hended, -⟩ := sealBuild_both run.buffers host build run.set
    rw [takeRegistered_nil hnil] at hended
    cases hended with
    | unnamed met quiet latched none_ =>
      have hmade := latched.made (hblocks.trans quiet.blocks.symm)
      rw [hset, hmade]
      refine ⟨quiet.changed.trans hdown, quiet.last.trans hlast, Or.inl ?_⟩
      rcases hsealed with ⟨sealed, named', hok, hnamed, -⟩ | ⟨hsame, -⟩
      · have hnone := none_ sealed hok
        rw [hnamed] at hnone
        cases hnone
      · exact hsame
    | named met made sealed quiet latched ok named' =>
      have hmadeBlocks := sealNamed_blocks run.buffers made
      rw [named'] at hmadeBlocks
      have hmade := latched.made (hmadeBlocks.symm.trans (hblocks.trans quiet.blocks.symm))
      have hchanged : made.changed = false := by
        rw [hmade]
        exact quiet.changed.trans hdown
      have hmadeLast : made.last = some named := by
        rw [hmade]
        exact quiet.last.trans hlast
      rcases sealNamed_cases run.buffers made with ⟨last, -, hlast', hresult⟩ | ⟨hnew, -⟩
      · rw [hresult] at named'
        obtain ⟨hfirst, hafter⟩ := Prod.mk.inj named'
        rw [hset, ← hafter]
        refine ⟨hchanged, hmadeLast, Or.inr ?_⟩
        rcases hsealed with ⟨sealed', named'', hok, hnamed, hsealed⟩ | ⟨-, hnone⟩
        · rw [ok] at hok
          cases hok
          rw [← hfirst] at hnamed
          cases hnamed
          rw [hmadeLast] at hlast'
          cases hlast'
          exact hsealed
        · have hbad := hnone sealed ok
          rw [← hfirst] at hbad
          cases hbad
      · rcases hnew with hraised | hnone
        · rw [hchanged] at hraised
          cases hraised
        · rw [hmadeLast] at hnone
          cases hnone

/-- A seal with the flag up, or one that is not still, leaves it up or makes a new set. -/
theorem seal_stirred {asks : List Ask} {host : HostAnswers}
    (h : run.set.changed = true ∨ ¬Still run (.sealBuild asks host))
    (hstep : SealStep run run' asks host) :
    (run'.set.changed = true ∧ run'.sealed = run.sealed)
      ∨ ∃ named, run'.sealed = named :: run.sealed ∧ run.set.serials < named.serial := by
  have hset := hstep.set
  have hsealed := hstep.sealed
  rcases sealAsks_cases run asks host with ⟨what, hbuild, heq⟩ | ⟨build, hbuild, heq⟩
  · rw [heq] at hset hsealed
    rcases hsealed with ⟨sealed, named', hok, -, -⟩ | ⟨hsame, -⟩
    · cases hok
    · refine Or.inl ⟨?_, hsame⟩
      rw [hset]
      rcases h with hraised | hstirred
      · exact hraised
      · refine absurd (fun build hok => ?_) hstirred
        rw [hbuild] at hok
        cases hok
  · rw [heq] at hset hsealed
    obtain ⟨hended, -⟩ := sealBuild_both run.buffers host build run.set
    have htaken := takeRegistered_keeps run.buffers run.set
    -- the flag is up once the latches are made
    have hup {met made : GrowableBufferSet}
        (quiet : Quiet (run.set.takeRegistered run.buffers) met) (latched : Latched met made)
        (hblocks : made.blocks = (run.set.sealBuild run.buffers host build).2.blocks) :
        made.changed = true := by
      by_contra hdown
      have hsame := latched.same (Bool.not_eq_true _ ▸ hdown)
      rw [hsame, quiet.changed] at hdown
      have htakenSame := takeRegistered_quiet (Bool.not_eq_true _ ▸ hdown)
      have hnil := (takeRegistered_fields run.buffers run.set).2.2.1
      rw [htakenSame] at hnil hdown quiet
      rcases h with hraised | hstirred
      · exact hdown hraised
      · refine hstirred fun build' hbuild' => ⟨hnil, ?_⟩
        rw [heq, ← hblocks, hsame]
        exact quiet.blocks
    cases hended with
    | unnamed met quiet latched none_ =>
      refine Or.inl ⟨?_, ?_⟩
      · rw [hset]
        exact hup quiet latched rfl
      · rcases hsealed with ⟨sealed, named', hok, hnamed, -⟩ | ⟨hsame, -⟩
        · have hnone := none_ sealed hok
          rw [hnamed] at hnone
          cases hnone
        · exact hsame
    | named met made sealed quiet latched ok named' =>
      have hblocks := sealNamed_blocks run.buffers made
      rw [named'] at hblocks
      have hraised := hup quiet latched hblocks.symm
      have hkeeps := htaken.trans (quiet_latched_keeps quiet latched)
      rcases sealNamed_cases run.buffers made with ⟨last, hchanged, -, -⟩ | ⟨-, hresult⟩
      · rw [hraised] at hchanged
        cases hchanged
      · rw [hresult] at named'
        obtain ⟨hfirst, -⟩ := Prod.mk.inj named'
        refine Or.inr ⟨made.nameVersions run.buffers, ?_, Nat.lt_succ_of_le hkeeps.serials⟩
        rcases hsealed with ⟨sealed', named'', hok, hnamed, hsealed⟩ | ⟨-, hnone⟩
        · rw [ok] at hok
          cases hok
          rw [← hfirst] at hnamed
          cases hnamed
          exact hsealed
        · have hbad := hnone sealed ok
          rw [← hfirst] at hbad
          cases hbad

/-- A still step keeps the flag down, and returns no set but the last. -/
theorem still_step {action : Action} {named : NamedVersions} (hstill : Still run action)
    (hdown : run.set.changed = false) (hlast : run.set.last = some named)
    (hstep : run.step action = some run') :
    run'.set.changed = false ∧ run'.set.last = some named
      ∧ (run'.sealed = run.sealed ∨ run'.sealed = named :: run.sealed) := by
  cases step_moved hstep with
  | sealBuild hseal => exact seal_still hstill hdown hlast hseal
  | begin =>
    have hquiet := begin_still hstill
    exact ⟨hquiet.changed.trans hdown, hquiet.last.trans hlast, Or.inl rfl⟩
  | handleOf =>
    rw [takeRegistered_nil hstill]
    exact ⟨hdown, hlast, Or.inl rfl⟩
  | _ => exact ⟨hdown, hlast, Or.inl rfl⟩

/-- A step with the flag up, or one that is not still, leaves it up or seals a new set. -/
theorem stirred_step {action : Action} (h : run.set.changed = true ∨ ¬Still run action)
    (hstep : run.step action = some run') :
    (run'.set.changed = true ∧ run'.sealed = run.sealed)
      ∨ ∃ named, run'.sealed = named :: run.sealed ∧ run.set.serials < named.serial := by
  cases step_moved hstep with
  | sealBuild hseal => exact seal_stirred h hseal
  | begin => exact Or.inl ⟨h.elim (fun hraised => begin_raised (Or.inl hraised)) begin_stirred, rfl⟩
  | handleOf => exact Or.inl ⟨takeRegistered_raised h, rfl⟩
  | _ => exact Or.inl ⟨h.resolve_right (not_not.mpr trivial), rfl⟩

/-! ## Between two seals -/

/-- The sealed sets only grow. -/
theorem step_suffix {action : Action} (hstep : run.step action = some run') :
    run.sealed <:+ run'.sealed := by
  by_cases hseal : ∃ asks host, action = .sealBuild asks host
  · obtain ⟨asks, host, heq⟩ := hseal
    subst heq
    rcases (step_seal hstep).sealed with ⟨sealed, named, -, -, hsealed⟩ | ⟨hsealed, -⟩
    · rw [hsealed]
      exact List.suffix_cons named run.sealed
    · rw [hsealed]
  · have hsealed := (step_keeps hstep fun asks host heq => hseal ⟨asks, host, heq⟩).1
    rw [hsealed]

theorem exec_suffix (actions : List Action) :
    ∀ run : GrowableRun, Run.exec step run actions = some run' → run.sealed <:+ run'.sealed := by
  induction actions with
  | nil =>
    intro run h
    cases h
    exact List.suffix_refl _
  | cons action rest ih =>
    intro run h
    obtain ⟨next, hstep, hrest⟩ := Option.bind_eq_some_iff.mp h
    exact (step_suffix hstep).trans (ih next hrest)

/-- Still steps keep the flag down and the last set. -/
theorem exec_still {named : NamedVersions} (actions : List Action) :
    ∀ run : GrowableRun, run.set.changed = false → run.set.last = some named →
    Run.Meets step Still run actions → Run.exec step run actions = some run' →
    run'.set.changed = false ∧ run'.set.last = some named := by
  induction actions with
  | nil =>
    intro run hdown hlast _ h
    cases h
    exact ⟨hdown, hlast⟩
  | cons action rest ih =>
    intro run hdown hlast hmeets h
    obtain ⟨next, hstep, hrest⟩ := Option.bind_eq_some_iff.mp h
    obtain ⟨hnextDown, hnextLast, -⟩ := still_step hmeets.1 hdown hlast hstep
    exact ih next hnextDown hnextLast (hmeets.2 next hstep) hrest

/-- A step that is not still leaves the flag up until a set is sealed. -/
theorem exec_stirred (actions : List Action) :
    ∀ run : GrowableRun, run.set.changed = true ∨ ¬Run.Meets step Still run actions →
    Run.exec step run actions = some run' → run'.sealed = run.sealed →
    run'.set.changed = true := by
  induction actions with
  | nil =>
    intro run hraised h _
    cases h
    exact hraised.resolve_right (not_not.mpr trivial)
  | cons action rest ih =>
    intro run hraised h hsealed
    obtain ⟨next, hstep, hrest⟩ := Option.bind_eq_some_iff.mp h
    -- nothing was sealed on the way either
    have hafter := (exec_suffix rest next hrest).length_le
    have hnextSealed : next.sealed = run.sealed := by
      rw [hsealed] at hafter
      exact ((step_suffix hstep).eq_of_length_le hafter).symm
    refine ih next ?_ hrest (hsealed.trans hnextSealed.symm)
    by_cases hflag : run.set.changed = true ∨ ¬Still run action
    · rcases stirred_step hflag hstep with ⟨hnext, -⟩ | ⟨named, hgrown, -⟩
      · exact Or.inl hnext
      · rw [hgrown] at hnextSealed
        exact absurd hnextSealed (List.cons_ne_self _ _)
    · obtain ⟨hdown, hstill⟩ := not_or.mp hflag
      have hmissed := hraised.resolve_left hdown
      refine Or.inr fun hrestMeets => hmissed ⟨not_not.mp hstill, fun other hother => ?_⟩
      rw [hstep] at hother
      cases hother
      exact hrestMeets

/-- The step of a seal that returned a set leaves the flag down and the set the last. -/
theorem step_returned {asks : List Ask} {host : HostAnswers} {named : NamedVersions}
    (hstep : run.step (.sealBuild asks host) = some run')
    (hreturned : run'.sealed = named :: run.sealed) :
    run'.set.changed = false ∧ run'.set.last = some named := by
  have hseal := step_seal hstep
  rw [hseal.set]
  rcases hseal.sealed with ⟨sealed, named', hok, hnamed, hsealed⟩ | ⟨hsealed, -⟩
  · rw [hreturned] at hsealed
    cases hsealed
    exact sealAsks_named hok hnamed
  · rw [hreturned] at hsealed
    exact absurd hsealed (List.cons_ne_self _ _)

/-- **The very same set.** A seal returned `named`; after any steps that returned no set, another
seal returns one. It is the same set exactly when every step in between and that seal were still:
they took no registration, settled no batch ready for a registered slot, lost no buffer and made no
latch block. Else its serial is past that of every set before. -/
theorem kept_iff {run₀ run₁ run₂ run₃ : GrowableRun} (h : Run.Reachable step (init hooks) run₀)
    {asks asks' : List Ask} {host host' : HostAnswers} {named named' : NamedVersions}
    {actions : List Action}
    (hseal : run₀.step (.sealBuild asks host) = some run₁)
    (hreturned : run₁.sealed = named :: run₀.sealed)
    (hrun : Run.exec step run₁ actions = some run₂) (hnone : run₂.sealed = run₁.sealed)
    (hseal' : run₂.step (.sealBuild asks' host') = some run₃)
    (hreturned' : run₃.sealed = named' :: run₂.sealed) :
    (named' = named ↔
      Run.Meets step Still run₁ actions ∧ Still run₂ (.sealBuild asks' host'))
      ∧ (named' ≠ named → ∀ older ∈ run₂.sealed, older.serial < named'.serial) := by
  obtain ⟨hdown, hlast⟩ := step_returned hseal hreturned
  have hreachable : Run.Reachable step (init hooks) run₂ :=
    (Run.Within.next h trivial hseal).trans (Run.exec_reachable hrun)
  have hpublished := (account_reachable hreachable).2
  -- something stirred: a new set
  have hnew (hstirred : ¬(Run.Meets step Still run₁ actions
      ∧ Still run₂ (.sealBuild asks' host'))) :
      ∀ older ∈ run₂.sealed, older.serial < named'.serial := by
    have hflag : run₂.set.changed = true ∨ ¬Still run₂ (.sealBuild asks' host') := by
      by_cases hmeets : Run.Meets step Still run₁ actions
      · exact Or.inr fun hstill => hstirred ⟨hmeets, hstill⟩
      · exact Or.inl (exec_stirred actions run₁ (Or.inr hmeets) hrun hnone)
    intro older holder
    have hle := hpublished.serial older holder
    rcases stirred_step hflag hseal' with ⟨-, hsame⟩ | ⟨made, hmade, hlt⟩
    · rw [hreturned'] at hsame
      exact absurd hsame (List.cons_ne_self _ _)
    · rw [hreturned'] at hmade
      cases hmade
      omega
  -- nothing stirred: the last set
  have hsame (hboth : Run.Meets step Still run₁ actions
      ∧ Still run₂ (.sealBuild asks' host')) : named' = named := by
    obtain ⟨hdown₂, hlast₂⟩ := exec_still actions run₁ hdown hlast hboth.1 hrun
    obtain ⟨-, -, hsealed⟩ := still_step hboth.2 hdown₂ hlast₂ hseal'
    rw [hreturned'] at hsealed
    rcases hsealed with hnothing | hkept
    · exact absurd hnothing (List.cons_ne_self _ _)
    · cases hkept
      rfl
  refine ⟨⟨fun hkept => ?_, hsame⟩, fun hdiffer => hnew fun hboth => hdiffer (hsame hboth)⟩
  by_contra hstirred
  have hin : named ∈ run₂.sealed := by
    rw [hnone, hreturned]
    exact List.mem_cons_self
  have hlt := hnew hstirred named hin
  rw [hkept] at hlt
  exact absurd hlt (Nat.lt_irrefl _)

/-- Two seals of the grown buffer with a `Begin` between them: nothing stirred. -/
theorem kept_iff_grown :
    ∃ run₀ run₁ run₂ run₃ : GrowableRun, ∃ named,
      Run.Reachable step (init { pool := some 1 }) run₀
      ∧ run₁.sealed = named :: run₀.sealed ∧ run₃.sealed = named :: run₁.sealed
      ∧ Run.Meets step Still run₁ [.begin] ∧ Still run₂ (.sealBuild [.units 0 3] {}) := by
  have h : (Run.exec step (init { pool := some 1 }) growTrace.dropLast).any (fun run₀ =>
      (run₀.step (.sealBuild [.units 0 5] {})).any fun run₁ =>
      (Run.exec step run₁ [.begin]).any fun run₂ =>
      (run₂.step (.sealBuild [.units 0 3] {})).any fun run₃ =>
        run₁.sealed.head?.any fun named => run₁.sealed = named :: run₀.sealed
          ∧ run₂.sealed = run₁.sealed ∧ run₃.sealed = named :: run₂.sealed) = true := by
    decide +kernel
  obtain ⟨run₀, hrun₀, h⟩ := (Option.any_eq_true _ _).mp h
  obtain ⟨run₁, hseal, h⟩ := (Option.any_eq_true _ _).mp h
  obtain ⟨run₂, hrun, h⟩ := (Option.any_eq_true _ _).mp h
  obtain ⟨run₃, hseal', h⟩ := (Option.any_eq_true _ _).mp h
  obtain ⟨named, -, h⟩ := (Option.any_eq_true _ _).mp h
  obtain ⟨hreturned, hnone, hreturned'⟩ := of_decide_eq_true h
  have hreachable : Run.Reachable step (init { pool := some 1 }) run₀ := Run.exec_reachable hrun₀
  have hboth := (kept_iff hreachable hseal hreturned hrun hnone hseal' hreturned').1.mp rfl
  exact ⟨run₀, run₁, run₂, run₃, named, hreachable, hreturned, hnone ▸ hreturned', hboth⟩

end ModuleServices.Growth
