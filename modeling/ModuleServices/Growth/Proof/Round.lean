import ModuleServices.Growth.Proof.Books
import ModuleServices.Growth.Proof.Sealing
import ModuleServices.Growth.Proof.Extent

/-!
# One round of growth

A seal that waits for growth has posted all that its build lacks, in sizes that hold what was asked.
So once that batch is ready, with versions as large as they were asked for, the next `Begin` leaves
nothing of the build unmet (`one_round`), whatever else went on while the batch was in flight.
-/

namespace ModuleServices.Growth

open GrowableBufferSet GrowableRun ModuleServices.Growth.Proof

namespace GrowableBufferSet

variable {buffers : List VersionedBuffer} {host : HostAnswers} {build : Build}
  {set set' : GrowableBufferSet}

/-! ## What a seal that waits has posted -/

/-- The units asked for an unmet buffer are what its requirement grows to. -/
theorem growthAsks_growTo (unmet : List Nat) : ∀ set {asks : List (Nat × Nat)},
    (growthAsks build unmet set).1 = .ok asks → ∀ ask ∈ asks,
    (build.requiredAt ask.1).growTo
      (((set.slot ask.1).registration.map (·.policy)).getD .doublingPolicy)
      (set.slot ask.1).current.units = .ok ask.2 := by
  induction unmet with
  | nil =>
    intro set asks h ask hmem
    cases h
    exact absurd hmem List.not_mem_nil
  | cons handle rest ih =>
    intro set asks h ask hmem
    have hreset := windowed_modifySlot set handle fun slot => slot.window.reset
    unfold growthAsks at h
    dsimp only at h
    split at h
    · cases h
    next units hunits =>
      split at h
      next more _ heq =>
        cases h
        rcases List.mem_cons.mp hmem with hfirst | hmem
        · rw [hfirst]
          exact hunits
        · have hrest := @ih (set.modifySlot handle fun slot =>
            { slot with window := slot.window.reset }) more (by rw [heq]) ask hmem
          rw [hreset.registration, hreset.current] at hrest
          exact hrest
      · cases h

theorem Live.quiet {i : Nat} (h : Live buffers set i) (hquiet : Quiet set set') :
    Live buffers set' i := by
  unfold Live at h ⊢
  rw [hquiet.registration, hquiet.buffer]
  exact h

/-- A loop that does not throw makes a request of every live buffer. -/
theorem postAsks_all (buffers : List VersionedBuffer) (host : HostAnswers)
    (asks : List (Nat × Nat)) : ∀ posting : Posting,
    (postAsks buffers host asks posting).1 = none → ∀ ask ∈ asks,
    Live buffers posting.set ask.1 → ask ∈ (postAsks buffers host asks posting).2.asks := by
  induction asks with
  | nil => exact fun _ _ _ hmem => absurd hmem List.not_mem_nil
  | cons ask rest ih =>
    intro posting hnone other hmem hlive
    rcases postAsks_cases buffers host ask rest posting with
      ⟨hdead, heq⟩ | ⟨what, -, heq⟩ | ⟨registration, request, -, -, -, heq⟩
    · rw [heq] at hnone ⊢
      rcases List.mem_cons.mp hmem with hfirst | hmem
      · rw [hfirst] at hlive
        exact absurd hlive hdead
      · exact ih posting hnone other hmem hlive
    · rw [heq] at hnone
      cases hnone
    · rw [heq] at hnone ⊢
      rcases List.mem_cons.mp hmem with hfirst | hmem
      · obtain ⟨added, h⟩ := postAsks_added buffers host rest (posting.add ask.1 ask.2 request)
        rw [h.added_eq, hfirst]
        refine List.mem_append_left _ ?_
        exact List.mem_append_right _ (List.mem_singleton.mpr rfl)
      · exact ih _ hnone other hmem (hlive.quiet (quiet_modifySlot fun _ => rfl))

/-- A post that leaves a batch the host took: it is for every live buffer asked for. -/
theorem post_batch {asks : List (Nat × Nat)} {batch : Batch}
    (hok : (set.post buffers host asks).1 = .ok true)
    (hbatch : (set.post buffers host asks).2.batch = some batch) (hidle : set.batch = none) :
    batch.state = .pending ∧ batch.asks.Sublist asks
      ∧ ∀ ask ∈ asks, Live buffers set ask.1 → ask ∈ batch.asks := by
  obtain ⟨added, h⟩ := postAsks_added buffers host asks { set }
  have hall := postAsks_all buffers host asks { set }
  have hadded : (postAsks buffers host asks { set }).2.asks = added := h.added_eq
  unfold post at hok hbatch
  cases hloop : postAsks buffers host asks { set } with
  | mk thrown posting =>
    rw [hloop] at hok hbatch hall hadded h
    cases thrown with
    | some what => cases hok
    | none =>
      dsimp only at hok hbatch
      have hidle : posting.set.batch = none := h.batch.trans hidle
      split at hbatch
      · rw [hidle] at hbatch
        cases hbatch
      next hsome =>
        rw [if_neg hsome] at hok
        cases hpost : host.post with
        | refused =>
          rw [hpost] at hok
          cases hok
        | threw what =>
          rw [hpost] at hok
          cases hok
        | accepted =>
          rw [hpost] at hbatch
          cases hbatch
          dsimp only at hadded
          exact ⟨rfl, hadded ▸ h.sublist, hall rfl⟩

theorem sealMet_pending {sealed : Sealed} (hok : (set.sealMet buffers host build).1 = .ok sealed) :
    sealed.pending = false := by
  obtain ⟨_, latched, -, -, hsealed⟩ := sealMet_named hok
  rcases sealNamed_cases buffers latched with ⟨_, -, -, hresult⟩ | ⟨-, hresult⟩
  · rw [hresult] at hsealed
    rw [← (Prod.mk.inj hsealed).1]
  · rw [hresult] at hsealed
    rw [← (Prod.mk.inj hsealed).1]

/-- What a seal that waits has posted: of the buffers it found unmet, all that live, each with the
units its requirement grows to. -/
structure Waiting (buffers : List VersionedBuffer) (build : Build) (taken after : GrowableBufferSet)
    (batch : Batch) : Prop where
  quiet : Quiet taken after
  posted : after.batch = some batch
  pending : batch.state = .pending
  growTo : ∀ ask ∈ batch.asks, (build.requiredAt ask.1).growTo
    (((taken.slot ask.1).registration.map (·.policy)).getD .doublingPolicy)
    (taken.slot ask.1).current.units = .ok ask.2
  unmet : ∃ unmet, taken.unmet buffers build = .ok unmet
    ∧ ∀ i ∈ unmet, Live buffers taken i → i ∈ batch.asks.map Prod.fst

theorem sealBuild_waiting {sealed : Sealed}
    (hok : (set.sealBuild buffers host build).1 = .ok sealed) (hpending : sealed.pending = true)
    (hidle : (set.takeRegistered buffers).batch = none) :
    ∃ batch, Waiting buffers build (set.takeRegistered buffers)
      (set.sealBuild buffers host build).2 batch := by
  unfold sealBuild at hok ⊢
  generalize set.takeRegistered buffers = taken at hok hidle ⊢
  cases hunmet : taken.unmet buffers build with
  | error what =>
    simp only [hunmet] at hok
    cases hok
  | ok unmet =>
    simp only [hunmet] at hok ⊢
    by_cases hnil : unmet = []
    · rw [if_pos hnil] at hok
      rw [sealMet_pending hok] at hpending
      cases hpending
    · rw [if_neg hnil] at hok ⊢
      have hgrown := growthAsks_windowed build unmet { taken with failure := "" }
      have hhandles := @growthAsks_handles build unmet { taken with failure := "" }
      have hgrowTo := @growthAsks_growTo build unmet { taken with failure := "" }
      unfold sealUnmet at hok ⊢
      have hnone : ¬taken.batch.isSome = true := by
        rw [hidle]
        exact Bool.false_ne_true
      rw [if_neg hnone] at hok ⊢
      cases hasks : growthAsks build unmet { taken with failure := "" } with
      | mk result grown =>
        rw [hasks] at hok hgrown hhandles hgrowTo
        cases result with
        | error what => cases hok
        | ok asks =>
          have hwindowed : Windowed taken grown := (windowed_failure _ _).trans hgrown
          have hposted := post_quiet buffers host grown asks
          dsimp only at hok ⊢
          cases hpost : grown.post buffers host asks with
          | mk result posted =>
            rw [hpost] at hok hposted
            rcases result with what | accepted
            · cases hok
            · cases accepted with
              | false =>
                cases hok
                cases hpending
              | true =>
                dsimp only at hok ⊢
                by_cases hsome : posted.batch.isSome = true
                · rw [if_pos hsome]
                  obtain ⟨batch, hbatch⟩ := Option.isSome_iff_exists.mp hsome
                  obtain ⟨hstate, hsub, hall⟩ := post_batch (by rw [hpost]) (by rw [hpost]; exact hbatch)
                    (hwindowed.batch.trans hidle)
                  refine ⟨batch, hwindowed.toQuiet.trans hposted, hbatch, hstate, fun ask hmem => ?_,
                    unmet, hunmet, fun i hmem hlive => ?_⟩
                  · exact hgrowTo rfl ask (hsub.subset hmem)
                  · rw [← hhandles rfl] at hmem
                    obtain ⟨ask, hask, heq⟩ := List.mem_map.mp hmem
                    rw [← heq] at hlive ⊢
                    exact List.mem_map_of_mem (hall ask hask (hlive.quiet hwindowed.toQuiet))
                · rw [if_neg hsome] at hok
                  rw [sealMet_pending hok] at hpending
                  cases hpending

/-! ## Slots that go on as they are -/

/-- The slot is as it was, until its buffer leaves. -/
def Carries (set set' : GrowableBufferSet) (i : Nat) : Prop :=
  (set'.slot i).registration ≠ none →
    (set'.slot i).registration = (set.slot i).registration
      ∧ (set'.slot i).buffer = (set.slot i).buffer ∧ (set'.slot i).current = (set.slot i).current

theorem carries_of_slot {i : Nat} (h : set'.slot i = set.slot i) : Carries set set' i := by
  intro _
  rw [h]
  exact ⟨rfl, rfl, rfl⟩

theorem Carries.trans {set'' : GrowableBufferSet} {i : Nat} (h : Carries set set' i)
    (h' : Carries set' set'' i) : Carries set set'' i := by
  intro hsome
  obtain ⟨hregistration, hbuffer, hcurrent⟩ := h' hsome
  obtain ⟨hregistration', hbuffer', hcurrent'⟩ := h (hregistration ▸ hsome)
  exact ⟨hregistration.trans hregistration', hbuffer.trans hbuffer', hcurrent.trans hcurrent'⟩

theorem SameSlots.carries (h : SameSlots set set') (i : Nat) : Carries set set' i := by
  intro _
  rw [h.slot i]
  exact ⟨rfl, rfl, rfl⟩

theorem leave_carries (i : Nat) : Carries set (set.leave buffers) i := by
  intro hsome
  rw [leave_slot] at hsome ⊢
  split at hsome
  · exact absurd rfl hsome
  next hlive =>
    rw [if_neg hlive]
    exact ⟨rfl, rfl, rfl⟩

/-- Only the slots of the nodes taken change. -/
theorem takeRegistered_slot {i : Nat} (h : i ∉ set.registered.filterMap bufferHandle) :
    (set.takeRegistered buffers).slot i = set.slot i := by
  have hkept := takeRegistered_induction buffers set
    (fun nodes after => i ∉ nodes.filterMap bufferHandle ∧ after.slot i = set.slot i)
    ⟨h, rfl⟩ fun node rest after hafter => by
      obtain ⟨hnot, hslot⟩ := hafter
      cases node with
      | latch index registration => exact ⟨hnot, hslot⟩
      | buffer index registration versioned key =>
        obtain ⟨hne, hrest⟩ := List.ne_and_not_mem_of_not_mem_cons hnot
        refine ⟨hrest, ?_⟩
        rw [take_slot, if_neg hne]
        exact hslot
  exact hkept.2

/-- Only the slots a batch was for change when it settles. -/
theorem settleSlots_slot {batch : Batch} {i : Nat} (requests : List ((Nat × Nat) × Nat)) :
    ∀ set : GrowableBufferSet, i ∉ requests.map (·.1.1) →
    (requests.foldl (settleSlot batch) set).slot i = set.slot i := by
  induction requests with
  | nil => exact fun _ _ => rfl
  | cons request rest ih =>
    intro set hnot
    obtain ⟨hne, hrest⟩ := List.ne_and_not_mem_of_not_mem_cons hnot
    rw [List.foldl_cons, ih _ hrest]
    by_cases hcleared : (∀ versions leases, batch.state ≠ .ready versions leases)
        ∨ (set.slot request.1.1).registration = none
    · rw [settleSlot_cleared hcleared, slot_modifySlot_ne hne]
    · obtain ⟨hready, hsome⟩ := not_or.mp hcleared
      obtain ⟨versions, hready⟩ := not_forall.mp hready
      obtain ⟨leases, hready⟩ := not_forall.mp hready
      obtain ⟨registration, hregistration⟩ := Option.ne_none_iff_exists'.mp hsome
      rw [settleSlot_ready (not_not.mp hready) hregistration, if_neg hne]

theorem settle_slot {i : Nat} (h : ∀ batch, set.batch = some batch →
    batch.state = .pending ∨ i ∉ batch.asks.map Prod.fst) : set.settle.slot i = set.slot i := by
  rcases settle_cases set with ⟨heq, -⟩ | ⟨batch, failure, hbatch, hready, heq⟩
  · rw [heq]
  · rw [heq]
    refine settleSlots_slot batch.asks.zipIdx set ?_
    rw [zipIdx_handles]
    exact (h batch hbatch).resolve_left hready

/-- The slot of a request, once the whole batch is settled. -/
theorem settleSlots_current {batch : Batch} {versions : List BufferVersion} {leases : List Nat}
    (hstate : batch.state = .ready versions leases) (requests : List ((Nat × Nat) × Nat)) :
    ∀ set : GrowableBufferSet, (requests.map (·.1.1)).Nodup → ∀ request ∈ requests,
    ∀ registration version, (set.slot request.1.1).registration = some registration →
    versions[request.2]? = some version →
    ((requests.foldl (settleSlot batch) set).slot request.1.1).current.units
        = registration.extent.unitsIn version.size
      ∧ set.serials < ((requests.foldl (settleSlot batch) set).slot request.1.1).current.serial := by
  induction requests with
  | nil => exact fun _ _ _ hmem => absurd hmem List.not_mem_nil
  | cons first rest ih =>
    intro set hnodup request hmem registration version hregistration hversion
    obtain ⟨hnot, hrest⟩ := List.nodup_cons.mp hnodup
    rw [List.foldl_cons]
    rcases List.mem_cons.mp hmem with heq | hmem
    · subst heq
      rw [settleSlots_slot rest _ hnot, settleSlot_ready hstate hregistration, if_pos rfl]
      unfold grownEntry
      rw [hversion]
      exact ⟨rfl, Nat.lt_succ_self _⟩
    · have hsettled := settleSlot_settled batch set first
      obtain ⟨hunits, hserial⟩ := ih (settleSlot batch set first) hrest request hmem registration
        version ((hsettled.registration _).trans hregistration) hversion
      exact ⟨hunits, Nat.lt_of_le_of_lt hsettled.serials hserial⟩

/-- A `Begin` that finds the batch ended settles it; the slots that stay are of live buffers. -/
theorem begin_ended {batch : Batch} (buffers : List VersionedBuffer)
    (hbatch : set.batch = some batch) (hended : batch.state ≠ .pending) : (set.begin buffers).batch = none
      ∧ ∀ i, ((set.begin buffers).slot i).registration ≠ none →
        ((set.takeRegistered buffers).slot i).registration ≠ none
          ∧ lock buffers ((set.takeRegistered buffers).slot i).buffer ≠ none
          ∧ ((set.begin buffers).slot i).current = ((batch.asks.zipIdx.foldl (settleSlot batch)
            (set.takeRegistered buffers)).slot i).current := by
  have htaken := (takeRegistered_fields buffers set).1.trans hbatch
  have hbegin : set.begin buffers = (set.takeRegistered buffers).settle.leave buffers := rfl
  rcases settle_cases (set.takeRegistered buffers) with
    ⟨-, hpending⟩ | ⟨_, failure, hsome, -, hsettle⟩
  · exact absurd (hpending batch htaken) hended
  · rw [htaken] at hsome
    cases hsome
    have hsettled := settleSlots_settled batch batch.asks.zipIdx (set.takeRegistered buffers)
    rw [hbegin, hsettle]
    refine ⟨rfl, fun i hleft => ?_⟩
    rw [leave_slot] at hleft ⊢
    split at hleft
    · exact absurd rfl hleft
    next hlive =>
      have hregistration := hsettled.registration i
      have hbuffer := hsettled.buffer i
      rw [if_neg hlive]
      refine ⟨hregistration ▸ hleft, fun hdead => hlive ?_, rfl⟩
      obtain ⟨registration, hsome⟩ := Option.ne_none_iff_exists'.mp hleft
      unfold expired
      rw [hsome]
      show (true && (lock buffers ((batch.asks.zipIdx.foldl (settleSlot batch)
        (set.takeRegistered buffers)).slot i).buffer).isNone) = true
      rw [hbuffer, hdead]
      rfl

end GrowableBufferSet

/-! ## While a batch is in flight -/

variable {run run' : GrowableRun} {hooks : GrowableBufferSetHooks} {batch : Batch} {i : Nat}

/-- A handle that was given out, its node taken. -/
def Used (run : GrowableRun) (i : Nat) : Prop :=
  i < run.set.nextHandle ∧ i ∉ (run.set.registered ++ run.pushing).filterMap bufferHandle

/-- A slot with a registration is of a used handle. -/
theorem used_of_registration (h : RunSound run) (hsome : (run.set.slot i).registration ≠ none) :
    Used run i := by
  have hspare : ¬Spare (run.set.registered ++ run.pushing) run.set i :=
    fun hspare => hsome (h.spare i hspare).1.1
  obtain ⟨hnot, hlt⟩ := not_or.mp hspare
  exact ⟨Nat.not_le.mp hlt, hnot⟩

/-- With the registered nodes taken, a handle that was used still is. -/
theorem Used.taken {set : GrowableBufferSet} (h : Used run i) (hregistered : set.registered = [])
    (hnext : set.nextHandle = run.set.nextHandle) : Used { run with set } i := by
  obtain ⟨hlt, hnot⟩ := h
  refine ⟨hnext ▸ hlt, ?_⟩
  rw [List.filterMap_append] at hnot
  dsimp only
  rw [hregistered]
  exact fun hmem => hnot (List.mem_append_right _ hmem)

/-- The action does not settle the batch, nor end it twice. -/
def Waits (batch : Batch) : Action → Prop
  | .begin => batch.state = .pending
  | .done _ _ => batch.state ≠ .pending
  | _ => True

/-- What holds from one state to a later one, while no batch settles. -/
structure Later (run run' : GrowableRun) : Prop where
  buffers : Aged (fun _ => True) run.buffers run'.buffers
  serials : run.set.serials ≤ run'.set.serials
  used (i : Nat) : Used run i → Used run' i
  slots (i : Nat) : Used run i → Carries run.set run'.set i

theorem Later.trans {run'' : GrowableRun} (h : Later run run') (h' : Later run' run'') :
    Later run run'' where
  buffers := h.buffers.trans h'.buffers
  serials := Nat.le_trans h.serials h'.serials
  used i hused := h'.used i (h.used i hused)
  slots i hused := (h.slots i hused).trans (h'.slots i (h.used i hused))

/-- The batch of `run` is still in flight in `run'`, with its asks and its state. -/
def Flies (batch : Batch) (run' : GrowableRun) : Prop :=
  ∃ batch', run'.set.batch = some batch' ∧ batch'.asks = batch.asks ∧ batch'.state = batch.state

theorem takeRegistered_nextHandle (buffers : List VersionedBuffer) (set : GrowableBufferSet) :
    (set.takeRegistered buffers).nextHandle = set.nextHandle :=
  takeRegistered_induction buffers set (fun _ after => after.nextHandle = set.nextHandle) rfl
    fun node _ after h => ((take_took node : Took after _).nextHandle).trans h

/-- Registrations that are taken carry the slots in use. -/
theorem takeRegistered_carries (h : Used run i) :
    Carries run.set (run.set.takeRegistered run.buffers) i := by
  refine carries_of_slot (takeRegistered_slot fun hmem => h.2 ?_)
  rw [List.filterMap_append]
  exact List.mem_append_left _ hmem

theorem later_step {action : Action} (hbatch : run.set.batch = some batch)
    (hwaits : Waits batch action) (hstep : run.step action = some run') :
    Later run run' ∧ Flies batch run' := by
  obtain ⟨haged, -⟩ := step_buffers hstep
  have htaken := (takeRegistered_fields run.buffers run.set).1.trans hbatch
  obtain ⟨-, -, hnil, htakenSerials, -⟩ := takeRegistered_fields run.buffers run.set
  have hnext := takeRegistered_nextHandle run.buffers run.set
  -- the slots and the batch are as they were
  have hsame (hset : run'.set.batch = some batch ∧ run.set.serials ≤ run'.set.serials
      ∧ run'.set.slots = run.set.slots) (hused : ∀ i, Used run i → Used run' i) :
      Later run run' ∧ Flies batch run' :=
    ⟨⟨haged, hset.2.1, hused,
      fun i _ => carries_of_slot (by unfold GrowableBufferSet.slot; rw [hset.2.2])⟩,
      batch, hset.1, rfl, rfl⟩
  cases step_moved hstep with
  | create => exact hsame ⟨hbatch, Nat.le_refl _, rfl⟩ fun _ h => h
  | expire => exact hsame ⟨hbatch, Nat.le_refl _, rfl⟩ fun _ h => h
  | renew => exact hsame ⟨hbatch, Nat.le_refl _, rfl⟩ fun _ h => h
  | adoptAll => exact hsame ⟨hbatch, Nat.le_refl _, rfl⟩ fun _ h => h
  | refused => exact hsame ⟨hbatch, Nat.le_refl _, rfl⟩ fun _ h => h
  | refusedLatch => exact hsame ⟨hbatch, Nat.le_refl _, rfl⟩ fun _ h => h
  | register =>
    refine hsame ⟨hbatch, Nat.le_succ _, rfl⟩ fun i h => ⟨Nat.lt_succ_of_lt h.1, fun hmem => ?_⟩
    rw [← List.append_assoc, List.filterMap_append] at hmem
    rcases List.mem_append.mp hmem with hold | hnew
    · exact h.2 hold
    · exact absurd (List.mem_singleton.mp hnew) (Nat.ne_of_lt h.1)
  | registerLatch =>
    refine hsame ⟨hbatch, Nat.le_refl _, rfl⟩ fun i h => ⟨h.1, fun hmem => ?_⟩
    rw [← List.append_assoc, List.filterMap_append] at hmem
    rcases List.mem_append.mp hmem with hold | hnew
    · exact h.2 hold
    · exact absurd hnew List.not_mem_nil
  | @push place node hget =>
    refine hsame ⟨hbatch, Nat.le_refl _, rfl⟩ fun i h => ⟨h.1, fun hmem => h.2 ?_⟩
    exact ((push_perm hget).filterMap bufferHandle).mem_iff.mp hmem
  | begin =>
    have hsettle : (run.set.takeRegistered run.buffers).settle
        = run.set.takeRegistered run.buffers := by
      rcases settle_cases (run.set.takeRegistered run.buffers) with
        ⟨heq, -⟩ | ⟨_, failure, hsome, hready, -⟩
      · exact heq
      · rw [htaken] at hsome
        cases hsome
        exact absurd hwaits hready
    have hbegin : run.set.begin run.buffers
        = (run.set.takeRegistered run.buffers).leave run.buffers := by
      unfold GrowableBufferSet.begin
      rw [hsettle]
    rw [hbegin]
    exact ⟨⟨haged, htakenSerials, fun i h => h.taken hnil hnext,
      fun i h => (takeRegistered_carries h).trans (leave_carries i)⟩, batch, htaken, rfl, rfl⟩
  | handleOf =>
    exact ⟨⟨haged, htakenSerials, fun i h => h.taken hnil hnext,
      fun i h => takeRegistered_carries h⟩, batch, htaken, rfl, rfl⟩
  | @sealBuild asks host _ hseal =>
    have hset := hseal.set
    rcases sealAsks_cases run asks host with ⟨what, -, heq⟩ | ⟨build, -, heq⟩
    · rw [heq] at hset
      have hset : run'.set = run.set := hset
      refine hsame ⟨by rw [hset]; exact hbatch, by rw [hset], by rw [hset]⟩ fun i h => ?_
      unfold Used
      rw [hset, hseal.pushing]
      exact h
    · rw [heq] at hset
      obtain ⟨hended, hsealed⟩ := sealBuild_both run.buffers host build run.set
      have hcarried := hended.sameSlots
      have hregistered := hended.registered.trans hnil
      rw [← hset] at hcarried hregistered hsealed
      refine ⟨⟨haged, Nat.le_trans htakenSerials hcarried.serials, fun i h => ?_,
        fun i h => (takeRegistered_carries h).trans (hcarried.carries i)⟩, batch, ?_, rfl, rfl⟩
      · have hafter := h.taken hregistered (hcarried.nextHandle.trans hnext)
        unfold Used at hafter ⊢
        rw [hseal.pushing]
        exact hafter
      · cases hsealed with
        | same same _ => exact same.trans htaken
        | posted none_ =>
          rw [htaken] at none_
          cases none_
  | @capture place stamp batch' hsome _ _ =>
    rw [hbatch] at hsome
    cases hsome
    exact ⟨⟨haged, Nat.le_refl _, fun _ h => h, fun i _ => carries_of_slot rfl⟩, _, rfl, rfl, rfl⟩
  | @done grown error batch' hsome _ hpending =>
    rw [hbatch] at hsome
    cases hsome
    exact absurd hpending hwaits
  | others => exact hsame ⟨hbatch, Nat.le_add_right _ _, rfl⟩ fun _ h => h

theorem later_exec (actions : List Action) : ∀ {run : GrowableRun} {batch : Batch},
    run.set.batch = some batch → (∀ action ∈ actions, Waits batch action) →
    Run.exec step run actions = some run' → Later run run' ∧ Flies batch run' := by
  induction actions with
  | nil =>
    intro run batch hbatch _ h
    cases h
    exact ⟨⟨Aged.refl _ _, Nat.le_refl _, fun _ h => h, fun _ _ => carries_of_slot rfl⟩,
      batch, hbatch, rfl, rfl⟩
  | cons action rest ih =>
    intro run batch hbatch hwaits h
    obtain ⟨next, hstep, hrest⟩ := Option.bind_eq_some_iff.mp h
    obtain ⟨hlater, batch', hbatch', hasks, hstate⟩ :=
      later_step hbatch (hwaits action List.mem_cons_self) hstep
    have hrestWaits (other : Action) (hmem : other ∈ rest) : Waits batch' other := by
      have hother := hwaits other (List.mem_cons_of_mem _ hmem)
      cases other with
      | begin => exact hstate.trans hother
      | done grown error => exact fun hpending => hother (hstate.symm.trans hpending)
      | _ => exact trivial
    obtain ⟨hlater', batch'', hbatch'', hasks', hstate'⟩ := ih hbatch' hrestWaits hrest
    exact ⟨hlater.trans hlater', batch'', hbatch'', hasks'.trans hasks, hstate'.trans hstate⟩

/-! ## Unit sizes -/

/-- Every registration, taken or not, has a unit size. -/
def Sized (nodes : List Registered) (set : GrowableBufferSet) : Prop :=
  (∀ index registration versioned key, .buffer index registration versioned key ∈ nodes →
      registration.extent.unitBytes ≠ 0)
    ∧ ∀ i registration, (set.slot i).registration = some registration →
      registration.extent.unitBytes ≠ 0

theorem Sized.carries {nodes : List Registered} {set set' : GrowableBufferSet}
    (h : Sized nodes set) (hkept : ∀ i, (set'.slot i).registration ≠ none →
      (set'.slot i).registration = (set.slot i).registration) : Sized nodes set' :=
  ⟨h.1, fun i registration hregistration => h.2 i registration
    ((hkept i (hregistration ▸ Option.some_ne_none _)).symm.trans hregistration)⟩

theorem Sized.takeRegistered {set : GrowableBufferSet} {pushing : List Registered}
    (h : Sized (set.registered ++ pushing) set) (buffers : List VersionedBuffer) :
    Sized pushing (set.takeRegistered buffers) :=
  takeRegistered_induction buffers set (fun nodes after => Sized (nodes ++ pushing) after) h
    fun node rest after hafter => by
      have hrest : Sized (rest ++ pushing) after :=
        ⟨fun index registration versioned key hmem =>
          hafter.1 index registration versioned key (List.mem_cons_of_mem _ hmem), hafter.2⟩
      cases node with
      | latch index registration => exact hrest
      | buffer index registration versioned key =>
        refine ⟨hrest.1, fun i other hother => ?_⟩
        rw [take_slot] at hother
        split at hother
        · cases hother
          exact hafter.1 index registration versioned key List.mem_cons_self
        · exact hrest.2 i other hother

theorem sized_reachable (h : Run.Reachable step (init hooks) run) :
    Sized (run.set.registered ++ run.pushing) run.set := by
  refine h.invariant (I := fun run => Sized (run.set.registered ++ run.pushing) run.set)
    ⟨fun _ _ _ _ hmem => absurd hmem List.not_mem_nil, fun _ _ hnone => by cases hnone⟩ ?_
  intro run action run' _ hsized _ hstep
  have htaken := Sized.takeRegistered hsized run.buffers
  obtain ⟨-, -, hnil, -⟩ := takeRegistered_fields run.buffers run.set
  cases step_moved hstep with
  | register _ hunit =>
    refine ⟨fun index registration versioned key hmem => ?_, hsized.2⟩
    rw [← List.append_assoc] at hmem
    rcases List.mem_append.mp hmem with hold | hnew
    · exact hsized.1 index registration versioned key hold
    · cases List.mem_singleton.mp hnew
      exact hunit
  | registerLatch =>
    refine ⟨fun index registration versioned key hmem => ?_, hsized.2⟩
    rw [← List.append_assoc] at hmem
    rcases List.mem_append.mp hmem with hold | hnew
    · exact hsized.1 index registration versioned key hold
    · cases List.mem_singleton.mp hnew
  | push hget =>
    exact ⟨fun index registration versioned key hmem =>
      hsized.1 index registration versioned key ((push_perm hget).mem_iff.mp hmem), hsized.2⟩
  | begin =>
    have hregistered : (run.set.begin run.buffers).registered = [] := begin_registered _ _
    dsimp only
    rw [hregistered]
    refine htaken.carries fun i hsome => ?_
    have hkept : Carries _ (run.set.begin run.buffers) i := leave_carries i
    have hleft := hkept hsome
    refine hleft.1.trans ?_
    rcases settle_cases (run.set.takeRegistered run.buffers) with
      ⟨heq, -⟩ | ⟨batch, failure, -, -, heq⟩
    · rw [heq]
    · rw [heq]
      exact (settleSlots_settled batch _ _).registration i
  | handleOf =>
    dsimp only
    rw [hnil]
    exact htaken
  | @sealBuild asks host _ hseal =>
    rw [hseal.set, hseal.pushing]
    rcases sealAsks_cases run asks host with ⟨what, -, heq⟩ | ⟨build, -, heq⟩
    · rw [heq]
      exact hsized
    · rw [heq]
      obtain ⟨hended, -⟩ := sealBuild_both run.buffers host build run.set
      rw [hended.registered, hnil]
      exact htaken.carries fun i hsome => (hended.sameSlots.carries i hsome).1
  | _ => exact hsized

/-! ## The round -/

/-- The host's versions are at least as large as the units they were asked for. -/
def Large (set : GrowableBufferSet) (batch : Batch) (made : List MadeVersion) : Prop :=
  ∀ entry ∈ batch.asks.zip made, ∀ registration ∈ (set.slot entry.1.1).registration,
    exactBytes registration.extent entry.1.2 ≤ entry.2.size

/-- What is asked and held is within 64 bits, and the serials asked past are known. -/
def Wide (build : Build) (serials : Nat) (set : GrowableBufferSet) : Prop :=
  (∀ required ∈ build.required, required.units ≤ kMax ∧ required.newerThan ≤ serials)
    ∧ ∀ slot ∈ set.slots, slot.current.units ≤ kMax
      ∧ ∀ registration ∈ slot.registration, registration.policy.minimum ≤ kMax

instance (set : GrowableBufferSet) (batch : Batch) (made : List MadeVersion) :
    Decidable (Large set batch made) :=
  inferInstanceAs (Decidable (∀ entry ∈ batch.asks.zip made,
    ∀ registration ∈ (set.slot entry.1.1).registration,
      exactBytes registration.extent entry.1.2 ≤ entry.2.size))

instance (build : Build) (serials : Nat) (set : GrowableBufferSet) :
    Decidable (Wide build serials set) :=
  inferInstanceAs (Decidable ((∀ required ∈ build.required, _ ∧ _) ∧ ∀ slot ∈ set.slots, _ ∧
    ∀ registration ∈ slot.registration, _))

theorem getD_of_all {α : Type} {P : α → Prop} {entries : List α} (fill : α)
    (h : ∀ entry ∈ entries, P entry) (hfill : P fill) (i : Nat) : P (entries.getD i fill) := by
  rw [List.getD_eq_getElem?_getD]
  cases hget : entries[i]? with
  | none => exact hfill
  | some entry => exact h entry (List.mem_of_getElem? hget)

/-- A round of growth: a seal that waits, and the batch it posted ready at some later time. -/
structure Round (asks : List Ask) (build : Build) (run₀ run₁ run₂ run₃ : GrowableRun) : Prop where
  asked : Build.after {} asks = .ok build
  idle : run₀.set.batch = none
  waiting : ∃ host sealed, run₀.step (.sealBuild asks host) = some run₁
    ∧ (run₀.sealAsks asks host).1 = .ok sealed ∧ sealed.pending = true
  wide : Wide build run₀.set.serials run₁.set
  flying : ∃ actions, Run.exec step run₁ actions = some run₂
    ∧ ∀ grown error, Action.done grown error ∉ actions
  done : ∃ made leases error actions next, (∀ batch, run₁.set.batch = some batch →
      made.length = batch.asks.length ∧ leases.length = batch.asks.length
        ∧ Large run₁.set batch made)
    ∧ run₂.step (.done (some (made, leases)) error) = some next
    ∧ Run.exec step next actions = some run₃ ∧ Action.begin ∉ actions

theorem doneState_ready {batch : Batch} {made : List MadeVersion} {leases : List Nat}
    (versions : Nat) (error : String) (hmade : made.length = batch.asks.length)
    (hleases : leases.length = batch.asks.length) :
    doneState batch versions (some (made, leases)) error
      = .ready (made.zipIdx.map fun entry => entry.1.version (versions + entry.2)) leases := by
  unfold doneState
  dsimp only
  rw [if_pos ⟨hmade, hleases⟩]

/-- The batch of a round is ready at its end, and the slots are as the seal left them. -/
theorem Round.arrives {asks : List Ask} {build : Build} {run₀ run₁ run₂ run₃ : GrowableRun}
    (h : Round asks build run₀ run₁ run₂ run₃) :
    ∃ batch, Waiting run₀.buffers build (run₀.set.takeRegistered run₀.buffers) run₁.set batch
      ∧ run₁.buffers = run₀.buffers ∧ Later run₁ run₃
      ∧ ∃ batch₃ made versions leases, run₃.set.batch = some batch₃ ∧ batch₃.asks = batch.asks
        ∧ batch₃.state
          = .ready (made.zipIdx.map fun entry => entry.1.version (versions + entry.2)) leases
        ∧ made.length = batch.asks.length ∧ Large run₁.set batch made := by
  obtain ⟨host, sealed, hstep, hok, hpending⟩ := h.waiting
  have hseal := step_seal hstep
  obtain ⟨batch, hwaiting⟩ : ∃ batch, Waiting run₀.buffers build
      (run₀.set.takeRegistered run₀.buffers) run₁.set batch := by
    rcases sealAsks_cases run₀ asks host with ⟨what, hfail, -⟩ | ⟨build', hbuild, heq⟩
    · rw [h.asked] at hfail
      cases hfail
    · rw [h.asked] at hbuild
      cases hbuild
      rw [hseal.set]
      rw [heq] at hok ⊢
      exact sealBuild_waiting hok hpending
        ((takeRegistered_fields run₀.buffers run₀.set).1.trans h.idle)
  refine ⟨batch, hwaiting, hseal.buffers, ?_⟩
  obtain ⟨first, hflown, hnever⟩ := h.flying
  obtain ⟨hlater, batch₂, hbatch₂, hasks₂, hstate₂⟩ := later_exec first hwaiting.posted
    (fun action hmem => by
      cases action with
      | begin => exact hwaiting.pending
      | done grown error => exact absurd hmem (hnever grown error)
      | _ => exact trivial) hflown
  obtain ⟨made, leases, error, second, next, hmade, hdone, hheld, hunbegun⟩ := h.done
  obtain ⟨hlength, hleases, hlarge⟩ := hmade batch hwaiting.posted
  rw [← hasks₂] at hlength hleases
  cases step_moved hdone with
  | @done _ _ batch' hsome _ _ =>
    rw [hbatch₂] at hsome
    cases hsome
    have hready := doneState_ready run₂.versions error hlength hleases
    obtain ⟨hlater', batch₃, hbatch₃, hasks₃, hstate₃⟩ := later_exec second rfl
      (fun action hmem => by
        cases action with
        | begin => exact absurd hmem hunbegun
        | done grown error' =>
          show doneState batch₂ run₂.versions (some (made, leases)) error ≠ .pending
          rw [hready]
          exact Batch.State.noConfusion
        | _ => exact trivial) hheld
    have hended : Later run₂ { run₂ with
        set := { run₂.set with batch := some { batch₂ with
          state := doneState batch₂ run₂.versions (some (made, leases)) error } }
        versions := run₂.versions + ((some (made, leases)).map (·.1.length)).getD 0 } :=
      ⟨Aged.refl _ _, Nat.le_refl _, fun _ h => h, fun _ _ => carries_of_slot rfl⟩
    exact ⟨(hlater.trans hended).trans hlater', batch₃, made, run₂.versions, leases, hbatch₃,
      hasks₃.trans hasks₂, hstate₃.trans hready, hlength.trans (congrArg _ hasks₂), hlarge⟩

/-- What is asked for a buffer holds its requirement, once it is made that large. -/
theorem GrowableBufferSet.Waiting.holds {buffers : List VersionedBuffer} {build : Build}
    {taken after : GrowableBufferSet} {batch : Batch} (h : Waiting buffers build taken after batch)
    {serials : Nat} (hwide : Wide build serials after) {ask : Nat × Nat} (hmem : ask ∈ batch.asks)
    {registration : GrowableRegistration}
    (hregistration : (after.slot ask.1).registration = some registration)
    (hunit : registration.extent.unitBytes ≠ 0) {size : Nat}
    (hsize : exactBytes registration.extent ask.2 ≤ size) :
    (build.requiredAt ask.1).units ≤ registration.extent.unitsIn size := by
  have hgrow := h.growTo ask hmem
  rw [← h.quiet.registration, ← h.quiet.current, hregistration] at hgrow
  have hasked := (getD_of_all {} hwide.1 ⟨Nat.zero_le _, Nat.zero_le _⟩ ask.1).1
  obtain ⟨hheld, hminimum⟩ := getD_of_all {} hwide.2
    ⟨Nat.zero_le _, fun _ hnone => by cases hnone⟩ ask.1
  have hbounds := growTo_bounds (hminimum registration hregistration) hheld hasked hgrow
  exact Nat.le_trans hbounds (le_unitsIn (Nat.pos_of_ne_zero hunit) hsize)

/-- **One round is enough.** A build's seal waits, having posted with no batch in flight before; the
batch becomes ready with versions that hold what they were asked for; and then comes a `Begin`. In
between anything may have happened: other seals and `Begin`s, registrations, versions made current,
buffers expiring. Every requirement of the build is then met, for each buffer still in the set. -/
theorem one_round {asks : List Ask} {build : Build} {run₀ run₁ run₂ run₃ : GrowableRun}
    (h : Run.Reachable step (init hooks) run₀) (hround : Round asks build run₀ run₁ run₂ run₃) :
    (run₃.set.begin run₃.buffers).batch = none
      ∧ ∀ i, (build.requiredAt i).units ≠ 0 ∨ (build.requiredAt i).newerThan ≠ 0 →
        ((run₃.set.begin run₃.buffers).slot i).registration ≠ none →
        (build.requiredAt i).metBy ((run₃.set.begin run₃.buffers).slot i).current.units
          ((run₃.set.begin run₃.buffers).slot i).current.serial = true := by
  obtain ⟨batch, hwaiting, hbuffers, hlater, batch₃, made, versions, leases, hbatch₃, hasks₃,
    hstate₃, hlength, hlarge⟩ := hround.arrives
  obtain ⟨host, sealed, hstep, -, -⟩ := hround.waiting
  have hreachable : Run.Reachable step (init hooks) run₁ := .next h trivial hstep
  have hsound₁ := (account_reachable hreachable).1
  have hended : batch₃.state ≠ .pending := by
    rw [hstate₃]
    exact Batch.State.noConfusion
  obtain ⟨hnone, hslots⟩ := begin_ended run₃.buffers hbatch₃ hended
  refine ⟨hnone, fun i hasked hleft => ?_⟩
  obtain ⟨hregistration₃, hlive, hcurrent₃⟩ := hslots i hleft
  obtain ⟨unmet, hunmet, hposted⟩ := hwaiting.unmet
  obtain ⟨hregistered, hmeets⟩ := (unmet_spec hunmet).1 i hasked
  -- the slot from the seal to the registrations taken at the end
  have hused : Used run₁ i :=
    used_of_registration hsound₁ (by rw [hwaiting.quiet.registration]; exact hregistered)
  have htaken := takeRegistered_carries (hlater.used i hused)
  obtain ⟨hregistration, hbuffer, hcurrent⟩ :=
    ((hlater.slots i hused).trans htaken) hregistration₃
  rw [hcurrent₃]
  by_cases hmem : i ∈ batch.asks.map Prod.fst
  · -- the batch made its version
    obtain ⟨ask, hask, heq⟩ := List.mem_map.mp hmem
    subst heq
    obtain ⟨place, hget⟩ := List.mem_iff_getElem?.mp hask
    have hlt : place < made.length := hlength ▸ (List.getElem?_eq_some_iff.mp hget).1
    obtain ⟨registration, hsome⟩ := Option.ne_none_iff_exists'.mp hregistration₃
    have hsome₁ := hregistration.symm.trans hsome
    have hnodup : (batch₃.asks.zipIdx.map (·.1.1)).Nodup := by
      have hdue := hsound₁.dueDistinct
      rw [hwaiting.posted] at hdue
      rw [hasks₃, zipIdx_handles]
      unfold dueOf at hdue
      rw [List.map_map] at hdue
      exact (zipIdx_handles batch.asks) ▸ hdue
    have hversion : (made.zipIdx.map fun entry => entry.1.version (versions + entry.2))[place]?
        = some (made[place].version (versions + place)) := by
      rw [List.getElem?_map, List.getElem?_zipIdx, List.getElem?_eq_getElem hlt, Nat.zero_add]
      rfl
    obtain ⟨hunits, hserial⟩ := settleSlots_current hstate₃ batch₃.asks.zipIdx
      (run₃.set.takeRegistered run₃.buffers) hnodup (ask, place)
      (List.mem_zipIdx_iff_getElem?.mpr (hasks₃ ▸ hget)) registration _ hsome hversion
    have hholds := hwaiting.holds hround.wide hask hsome₁
      ((sized_reachable hreachable).2 ask.1 registration hsome₁)
      (hlarge (ask, made[place]) (List.mem_of_getElem? (List.getElem?_zip_eq_some.mpr
        ⟨hget, List.getElem?_eq_getElem hlt⟩)) registration hsome₁)
    have hknown := (getD_of_all {} hround.wide.1 ⟨Nat.zero_le _, Nat.zero_le _⟩ ask.1).2
    have hserials : run₀.set.serials ≤ (run₃.set.takeRegistered run₃.buffers).serials := by
      have hfirst := (takeRegistered_fields run₀.buffers run₀.set).2.2.2.1
      have hseal := hwaiting.quiet.serials
      have hrest := hlater.serials
      have hlast := (takeRegistered_fields run₃.buffers run₃.set).2.2.2.1
      omega
    unfold GrowableRequirement.metBy
    rw [hunits, Bool.and_eq_true_iff, decide_eq_true_iff, decide_eq_true_iff]
    exact ⟨hholds, Nat.lt_of_le_of_lt (Nat.le_trans hknown hserials) hserial⟩
  · -- nothing was posted for it: it was met, as its buffer has not expired
    have hkept : i ∉ batch₃.asks.zipIdx.map (·.1.1) := by
      rw [hasks₃, zipIdx_handles]
      exact hmem
    rw [settleSlots_slot _ _ hkept, hcurrent, hwaiting.quiet.current]
    refine hmeets.resolve_left fun hin => hmem (hposted i hin ⟨hregistered, ?_⟩)
    obtain ⟨held, hlock⟩ := Option.ne_none_iff_exists'.mp hlive
    rw [hbuffer, hwaiting.quiet.buffer] at hlock
    have hplaced := (Sound.takeRegistered (account_reachable h).1).placed i hregistered
    have haged := hlater.buffers
    rw [hbuffers] at haged
    obtain ⟨before, hbefore, -⟩ := lock_of_aged haged hplaced hlock
    rw [hbefore]
    exact Option.some_ne_none before

theorem ok_of_toOption {α : Type} {result : Except String α} {a : α}
    (h : result.toOption = some a) : result = .ok a := by
  cases result with
  | error what => cases h
  | ok a' =>
    cases h
    rfl

/-- What goes on while the grown buffer's batch is in flight: another buffer enters the set. -/
def flyTrace : List Action :=
  [.create 9 none, .register { name := "more", extent := { unitBytes := 4 } } (some 1), .push 0,
    .begin]

/-- The grown buffer's round. -/
theorem one_round_grown :
    ∃ run₀ run₁ run₂ run₃ build, Run.Reachable step (init { pool := some 1 }) run₀
      ∧ Round [.units 0 5] build run₀ run₁ run₂ run₃
      ∧ (run₃.set.begin run₃.buffers).batch = none
      ∧ (build.requiredAt 0).metBy ((run₃.set.begin run₃.buffers).slot 0).current.units
          ((run₃.set.begin run₃.buffers).slot 0).current.serial = true := by
  have h : (Run.exec step (init { pool := some 1 }) (growTrace.take 6)).any (fun run₀ =>
      (Build.after {} [.units 0 5]).toOption.any fun build =>
      (run₀.sealAsks [.units 0 5] {}).1.toOption.any fun sealed =>
      (run₀.step (.sealBuild [.units 0 5] {})).any fun run₁ =>
      run₁.set.batch.any fun batch => (Run.exec step run₁ flyTrace).any fun run₂ =>
      (run₂.step (.done (some ([{ size := 32 }], [3])) "")).any fun run₃ =>
        run₀.set.batch = none ∧ (build.requiredAt 0).units ≠ 0 ∧ sealed.pending = true
          ∧ Wide build run₀.set.serials run₁.set ∧ batch.asks.length = 1
          ∧ Large run₁.set batch [{ size := 32 }]
          ∧ ((run₃.set.begin run₃.buffers).slot 0).registration ≠ none) = true := by
    decide +kernel
  obtain ⟨run₀, hrun₀, h⟩ := (Option.any_eq_true _ _).mp h
  obtain ⟨build, hbuild, h⟩ := (Option.any_eq_true _ _).mp h
  obtain ⟨sealed, hsealed, h⟩ := (Option.any_eq_true _ _).mp h
  obtain ⟨run₁, hstep, h⟩ := (Option.any_eq_true _ _).mp h
  obtain ⟨batch, hbatch, h⟩ := (Option.any_eq_true _ _).mp h
  obtain ⟨run₂, hflown, h⟩ := (Option.any_eq_true _ _).mp h
  obtain ⟨run₃, hdone, h⟩ := (Option.any_eq_true _ _).mp h
  obtain ⟨hidle, hasked, hpending, hwide, hlength, hlarge, hleft⟩ := of_decide_eq_true h
  have hreachable : Run.Reachable step (init { pool := some 1 }) run₀ := Run.exec_reachable hrun₀
  have hround : Round [.units 0 5] build run₀ run₁ run₂ run₃ := by
    refine ⟨ok_of_toOption hbuild, hidle, ⟨{}, sealed, hstep, ok_of_toOption hsealed, hpending⟩,
      hwide, ⟨flyTrace, hflown, fun _ _ hmem => ?_⟩,
      [{ size := 32 }], [3], "", [], run₃, fun batch' hbatch' => ?_, hdone, rfl, List.not_mem_nil⟩
    · unfold flyTrace at hmem
      simp at hmem
    · rw [hbatch] at hbatch'
      cases hbatch'
      exact ⟨hlength.symm, hlength.symm, hlarge⟩
  obtain ⟨hnone, hmet⟩ := one_round hreachable hround
  exact ⟨run₀, run₁, run₂, run₃, build, hreachable, hround, hnone, hmet 0 (Or.inl hasked) hleft⟩

end ModuleServices.Growth
