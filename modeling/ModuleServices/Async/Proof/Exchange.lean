import ModuleServices.Async.Exchange
import Mathlib.Data.Fintype.Option

/-!
# The two sides never meet in a slot

`Placed` places every slot: the indices somebody has are of different slots, and a slot
nobody has the index of is empty or retired. `Relies` is what the producer's call knows
at each access. The consumer has the index of two slots at most, so that with no
successor ready one is left, and what the consumer does meanwhile only frees more.
-/

namespace ModuleServices.Exchange.Proof

variable {α : Type} {w w' : World α} {i j k : Fin 3} {call : Call α} {phase : ProducerPhase}

/-! ## Where the slots are -/

/-- The slots in their places: who has which index, and the states. `settling` is the active slot
whose state is still to be stored. -/
structure Placed (ready held examined active outgoing settling : Option (Fin 3))
    (state : Fin 3 → SlotState) : Prop where
  apart : ∀ i, [ready, held, examined, active, outgoing].count (some i) ≤ 1
  free : ∀ i, [ready, held, examined, active, outgoing].count (some i) = 0 →
    state i = .empty ∨ state i = .retired
  waiting : ∀ i, ready = some i ∨ held = some i ∨ examined = some i ∨ settling = some i →
    state i = .ready
  current : ∀ i, settling = some i → active = some i
  active : ∀ i, active = some i → settling = none → state i = .active
  outgoing : ∀ i, outgoing = some i → state i = .active

variable {r h e a o s : Option (Fin 3)} {state : Fin 3 → SlotState}

theorem Placed.select (hp : Placed (some i) h none a o s state) :
    Placed none h (some i) a o s state := by
  obtain ⟨h1, h2, h3, h4, h5, h6⟩ := hp
  constructor <;> grind

theorem Placed.accept (hp : Placed r h (some i) a none none state) :
    Placed r h none (some i) a (some i) state := by
  obtain ⟨h1, h2, h3, h4, h5, h6⟩ := hp
  constructor <;> grind

theorem Placed.reject (hp : Placed r h (some i) a o s state) :
    Placed r h none a o s (Function.update state i .retired) := by
  obtain ⟨h1, h2, h3, h4, h5, h6⟩ := hp
  constructor <;> grind [Function.update_apply]

theorem Placed.settle (hp : Placed r h e a o (some i) state) :
    Placed r h e a o none (Function.update state i .active) := by
  obtain ⟨h1, h2, h3, h4, h5, h6⟩ := hp
  constructor <;> grind [Function.update_apply]

theorem Placed.retire (hp : Placed r h e a (some i) none state) :
    Placed r h e a none none (Function.update state i .retired) := by
  obtain ⟨h1, h2, h3, h4, h5, h6⟩ := hp
  constructor <;> grind [Function.update_apply]

theorem Placed.clear (hp : Placed r h e (some i) none none state) :
    Placed r h e none (some i) none state := by
  obtain ⟨h1, h2, h3, h4, h5, h6⟩ := hp
  constructor <;> grind

theorem Placed.takeBack (hp : Placed (some i) none e a o s state) :
    Placed none (some i) e a o s state := by
  obtain ⟨h1, h2, h3, h4, h5, h6⟩ := hp
  constructor <;> grind

theorem Placed.retireTaken (hp : Placed r (some i) e a o s state) :
    Placed r none e a o s (Function.update state i .retired) := by
  obtain ⟨h1, h2, h3, h4, h5, h6⟩ := hp
  constructor <;> grind [Function.update_apply]

theorem Placed.reclaim (hp : Placed r h e a o s state) (hi : state i = .retired) :
    Placed r h e a o s (Function.update state i .empty) := by
  obtain ⟨h1, h2, h3, h4, h5, h6⟩ := hp
  constructor <;> grind [Function.update_apply]

theorem Placed.fill (hp : Placed r none e a o s state) (hi : state i = .empty) :
    Placed r (some i) e a o s (Function.update state i .ready) := by
  obtain ⟨h1, h2, h3, h4, h5, h6⟩ := hp
  cases s <;> constructor <;> grind [Function.update_apply]

theorem Placed.offer (hp : Placed none (some i) e a o s state) :
    Placed (some i) none e a o s state := by
  obtain ⟨h1, h2, h3, h4, h5, h6⟩ := hp
  constructor <;> grind

/-! ## What the sides rely on -/

def states (w : World α) (i : Fin 3) : SlotState := (w.slot i).state

def values (w : World α) (i : Fin 3) : Option α := (w.slot i).value

@[simp] theorem states_setState (s : SlotState) :
    states (w.setState i s) = Function.update (states w) i s := by
  funext j
  by_cases h : j = i <;> simp [states, World.setState, h]

@[simp] theorem values_setState (s : SlotState) : values (w.setState i s) = values w := by
  funext j
  by_cases h : j = i <;> simp [values, World.setState, h]

@[simp] theorem states_setValue (value : Option α) : states (w.setValue i value) = states w := by
  funext j
  by_cases h : j = i <;> simp [states, World.setValue, h]

@[simp] theorem values_setValue (value : Option α) :
    values (w.setValue i value) = Function.update (values w) i value := by
  funext j
  by_cases h : j = i <;> simp [values, World.setValue, h]

/-- The active slot whose state is still to be stored. -/
def settling (w : World α) : Option (Fin 3) :=
  match w.consumer with
  | .storeActive i _ => some i
  | _ => none

/-- A slot that reclaiming from `k` on will find free. -/
def Spare (w : World α) (k : Fin 3) : Prop :=
  ∃ z, states w z = .empty ∨ states w z = .retired ∧ k ≤ z

/-- A call that publishes, and no successor is ready. -/
def Publishes (w : World α) (call : Call α) : Prop :=
  call.candidate.isSome = true ∧ w.ready = none

/-- What the producer's call relies on at its next access. -/
def Relies (w : World α) (call : Call α) : ProducerPhase → Prop
  | .exchangeReady => ∃ candidate, call = .tryReplace candidate
  | .storeTaken _ => Publishes w call
  | .loadReady => ∀ candidate, call = .tryReplace candidate → Publishes w call
  | .loadRetired k => call ≠ .reclaimRetired → Publishes w call ∧ Spare w k
  | .resetValue k | .storeEmpty k =>
    states w k = .retired ∧ (call ≠ .reclaimRetired → Publishes w call)
  | .loadEmpty k => Publishes w call ∧ ∃ z, k ≤ z ∧ states w z = .empty
  | .moveValue k => Publishes w call ∧ states w k = .empty
  | .storeState k => Publishes w call ∧ states w k = .empty ∧ values w k = call.candidate
  | .storeReady k => Publishes w call ∧ values w k = call.candidate

structure Inv (w : World α) : Prop where
  placed : Placed w.ready (held w) (examined w) w.active (outgoing w) (settling w) (states w)
  relies : ∀ call phase, w.producer = some (call, phase) → Relies w call phase

theorem inv_start : Inv ({} : World α) := by
  refine ⟨?_, by simp⟩
  constructor <;> simp [held, examined, Exchange.outgoing, settling, states]

theorem mem_named : i ∈ named w ↔ w.ready = some i ∨ held w = some i ∨ examined w = some i ∨
    w.active = some i ∨ outgoing w = some i := by
  simp only [named, List.mem_append, Option.mem_toList, or_assoc]

/-- A slot somebody has the index of is ready or active. -/
theorem named_state (h : Inv w) (hi : i ∈ named w) :
    states w i = .ready ∨ states w i = .active := by
  obtain ⟨h1, h2, h3, h4, h5, h6⟩ := h.placed
  rw [mem_named] at hi
  cases hsettling : settling w <;> grind

theorem not_named (h : Inv w) (hi : states w i = .empty ∨ states w i = .retired) :
    i ∉ named w := by
  intro hn
  rcases named_state h hn with hs | hs <;> simp [hs] at hi

/-! ## The consumer's accesses -/

theorem Publishes.mono (h : Publishes w call) (hready : w.ready = none → w'.ready = none) :
    Publishes w' call := ⟨h.1, hready h.2⟩

/-- What the producer relies on survives whatever leaves the values and the free slots alone. -/
theorem Relies.mono (h : Relies w call phase) (hready : w.ready = none → w'.ready = none)
    (hfree : ∀ i, states w i = .empty ∨ states w i = .retired → states w' i = states w i)
    (hvalue : values w' = values w) : Relies w' call phase := by
  have hempty : ∀ i, states w i = .empty → states w' i = .empty :=
    fun i hi => (hfree i (.inl hi)).trans hi
  have hretired : ∀ i, states w i = .retired → states w' i = .retired :=
    fun i hi => (hfree i (.inr hi)).trans hi
  cases phase with
  | exchangeReady => exact h
  | storeTaken => exact Publishes.mono h hready
  | loadReady => exact fun candidate hc => (h candidate hc).mono hready
  | loadRetired k =>
    intro hc
    obtain ⟨hp, z, hz⟩ := h hc
    exact ⟨hp.mono hready, z, hz.imp (hempty z) fun hz => ⟨hretired z hz.1, hz.2⟩⟩
  | resetValue | storeEmpty => exact ⟨hretired _ h.1, fun hc => (h.2 hc).mono hready⟩
  | loadEmpty =>
    obtain ⟨hp, z, hk, hz⟩ := h
    exact ⟨hp.mono hready, z, hk, hempty z hz⟩
  | moveValue => exact ⟨h.1.mono hready, hempty _ h.2⟩
  | storeState => exact ⟨h.1.mono hready, hempty _ h.2.1, by rw [hvalue, h.2.2]⟩
  | storeReady => exact ⟨h.1.mono hready, by rw [hvalue, h.2]⟩

/-- The consumer stores the state of a slot it has the index of. -/
theorem Inv.store (h : Inv w) {s : SlotState} {consumer : ConsumerPhase} (hi : i ∈ named w)
    (hplaced : Placed w.ready (held w) (examined { w with consumer }) w.active
      (outgoing { w with consumer }) (settling { w with consumer })
      (Function.update (states w) i s)) :
    Inv { w.setState i s with consumer } where
  placed := by
    have hstates : states ({ w.setState i s with consumer }) = Function.update (states w) i s :=
      states_setState s
    rw [hstates]
    exact hplaced
  relies call phase hp := by
    refine (h.relies call phase hp).mono (fun hr => hr) (fun j hj => ?_) (values_setState s)
    have hne : j ≠ i := fun heq => not_named h hj (heq ▸ hi)
    exact (congrFun (states_setState s) j).trans (Function.update_of_ne hne _ _)

theorem inv_consumer {accepts : Bool} (h : Inv w)
    (hs : step w (.consumer accepts) = some w') : Inv w' := by
  have hplaced := h.placed
  simp only [step] at hs
  cases hc : w.consumer with
  | idle => simp [World.consume, hc] at hs
  | accept i =>
    simp only [examined, Exchange.outgoing, settling, hc] at hplaced
    simp only [World.consume, hc] at hs
    split at hs <;> cases hs
    · exact ⟨hplaced.accept, h.relies⟩
    · exact ⟨hplaced, h.relies⟩
  | storeRejected i =>
    simp only [examined, Exchange.outgoing, settling, hc] at hplaced
    simp only [World.consume, hc] at hs
    cases hs
    exact h.store (mem_named.mpr (by simp [examined, hc])) hplaced.reject
  | storeActive i previous =>
    simp only [examined, Exchange.outgoing, settling, hc] at hplaced
    simp only [World.consume, hc] at hs
    cases hs
    refine h.store (mem_named.mpr (by simp [hplaced.current i rfl])) ?_
    cases previous <;> exact hplaced.settle
  | storePrevious i =>
    simp only [examined, Exchange.outgoing, settling, hc] at hplaced
    simp only [World.consume, hc] at hs
    cases hs
    exact h.store (mem_named.mpr (by simp [Exchange.outgoing, hc])) hplaced.retire

theorem inv_trySelect (h : Inv w) (hs : step w .trySelect = some w') : Inv w' := by
  have hplaced := h.placed
  simp only [step, ne_eq, ite_not] at hs
  split at hs
  · rename_i hidle
    simp only [examined, Exchange.outgoing, settling, hidle] at hplaced
    split at hs <;> cases hs
    · rename_i i hready
      rw [hready] at hplaced
      exact ⟨hplaced.select, fun call phase hp =>
        (h.relies call phase hp).mono (fun _ => rfl) (fun _ _ => rfl) rfl⟩
    · exact h
  · cases hs

theorem inv_clearActive (h : Inv w) (hs : step w .clearActive = some w') : Inv w' := by
  have hplaced := h.placed
  simp only [step, ne_eq, ite_not] at hs
  split at hs
  · rename_i hidle
    simp only [examined, Exchange.outgoing, settling, hidle] at hplaced
    split at hs <;> cases hs
    · rename_i i hactive
      rw [hactive] at hplaced
      exact ⟨hplaced.clear, h.relies⟩
    · exact h
  · cases hs

/-! ## The producer's accesses -/

/-- The consumer is examining a slot or retiring one, never both. -/
theorem examined_or_outgoing : examined w = none ∨ outgoing w = none := by
  unfold examined Exchange.outgoing
  cases w.consumer <;> simp

/-- The consumer has the index of two slots at most, and a third is ready or free. -/
theorem spare_of_not_ready (h : Inv w) (hready : w.ready = none) (hheld : held w = none) :
    Spare w 0 := by
  have hthird : ∀ p q : Option (Fin 3), ∃ z, p ≠ some z ∧ q ≠ some z := by decide
  have hfree : ∃ z, examined w ≠ some z ∧ w.active ≠ some z ∧ outgoing w ≠ some z := by
    rcases examined_or_outgoing (w := w) with he | ho
    · obtain ⟨z, hz⟩ := hthird w.active (outgoing w)
      exact ⟨z, by simp [he], hz⟩
    · obtain ⟨z, hz⟩ := hthird (examined w) w.active
      exact ⟨z, hz.1, hz.2, by simp [ho]⟩
  obtain ⟨z, h1, h2, h3⟩ := hfree
  refine ⟨z, (h.placed.free z ?_).imp id fun hs => ⟨hs, Fin.zero_le z⟩⟩
  simp [hready, hheld, h1, h2, h3]

/-- What the slot at `k` was found to be leaves the search to the slots after it. -/
theorem Spare.next (h : Spare w k) (hk : states w k ≠ .retired) (hj : World.next k = some j) :
    Spare w j := by
  obtain ⟨z, hz⟩ := h
  unfold World.next at hj
  split at hj <;> cases hj
  refine ⟨z, hz.imp id fun hz => ⟨hz.1, ?_⟩⟩
  have hne : z ≠ k := fun heq => hk (heq ▸ hz.1)
  have := hz.2
  grind

theorem Spare.last (h : Spare w k) (hk : states w k ≠ .retired) (hj : World.next k = none) :
    ∃ z, 0 ≤ z ∧ states w z = .empty := by
  obtain ⟨z, hz | hz⟩ := h
  · exact ⟨z, Fin.zero_le z, hz⟩
  · have hne : z ≠ k := fun heq => hk (heq ▸ hz.1)
    have := hz.2
    unfold World.next at hj
    grind

/-- `ReclaimRetired` leaves the slot at `k` behind. -/
theorem inv_reclaimed (hplaced : Placed w.ready none (examined w) w.active (outgoing w) (settling w)
    (states w)) (hk : states w k ≠ .retired)
    (h : call ≠ .reclaimRetired → Publishes w call ∧ Spare w k) : Inv (w.reclaimed call k) := by
  unfold World.reclaimed
  split
  · rename_i j hj
    refine ⟨hplaced, fun call' phase hp => ?_⟩
    cases hp
    exact fun hc => ⟨(h hc).1, (h hc).2.next hk hj⟩
  · rename_i hj
    split
    · exact ⟨hplaced, by simp [World.answer]⟩
    · rename_i hc
      refine ⟨hplaced, fun call' phase hp => ?_⟩
      cases hp
      exact ⟨(h hc).1, (h hc).2.last hk hj⟩

/-- The producer's call goes on to an access that names no slot. -/
theorem Inv.goto (hplaced : Placed w.ready (held (w.goto call phase)) (examined w) w.active
    (outgoing w) (settling w) (states w)) (h : Relies w call phase) :
    Inv (w.goto call phase) := by
  refine ⟨hplaced, fun call' phase' hp => ?_⟩
  cases hp
  exact h

theorem Inv.answer {result : Bool} (hplaced : Placed w.ready none (examined w) w.active
    (outgoing w) (settling w) (states w)) : Inv (w.answer call result) :=
  ⟨hplaced, by simp [World.answer]⟩

theorem inv_call (h : Inv w) (hs : step w (.call call) = some w') : Inv w' := by
  simp only [step] at hs
  split at hs <;> cases hs
  rename_i hnone
  have hproducer : w.producer = none := by simpa using hnone
  have hplaced := h.placed
  simp only [held, hproducer] at hplaced
  cases call with
  | tryPublish candidate => exact .goto hplaced nofun
  | tryReplace candidate => exact .goto hplaced ⟨candidate, rfl⟩
  | reclaimRetired => exact .goto hplaced fun hc => absurd rfl hc

theorem inv_producer (h : Inv w) (hs : step w .producer = some w') : Inv w' := by
  simp only [step, Option.map_eq_some_iff, Prod.exists] at hs
  obtain ⟨call, phase, hproducer, rfl⟩ := hs
  have hplaced := h.placed
  have hrelies := h.relies call phase hproducer
  cases phase with
  | exchangeReady =>
    simp only [held, hproducer] at hplaced
    simp only [World.produce]
    split
    · exact .answer hplaced
    · rename_i hsome
      split
      · rename_i i hready
        rw [hready] at hplaced
        exact .goto hplaced.takeBack ⟨by simpa [Option.isSome_iff_ne_none] using hsome, rfl⟩
      · rename_i hready
        exact .goto hplaced fun _ _ => ⟨by simpa [Option.isSome_iff_ne_none] using hsome, hready⟩
  | storeTaken i =>
    simp only [held, hproducer] at hplaced
    refine .goto ?_ fun _ _ => hrelies
    rw [states_setState]
    exact hplaced.retireTaken
  | loadReady =>
    simp only [held, hproducer] at hplaced
    simp only [World.produce]
    split
    · exact .answer hplaced
    · rename_i hgo
      have hpublishes : Publishes w call := by
        simpa [Publishes, Option.isSome_iff_ne_none] using hgo
      refine .goto hplaced fun _ => ⟨hpublishes, spare_of_not_ready h hpublishes.2 ?_⟩
      simp [held, hproducer]
  | loadRetired k =>
    simp only [held, hproducer] at hplaced
    simp only [World.produce]
    split
    · rename_i hretired
      exact .goto hplaced ⟨hretired, fun hc => (hrelies hc).1⟩
    · rename_i hk
      exact inv_reclaimed hplaced hk hrelies
  | resetValue k =>
    simp only [held, hproducer] at hplaced
    refine .goto ?_ ?_
    · rw [states_setValue]
      exact hplaced
    · exact ⟨by rw [states_setValue, hrelies.1], hrelies.2⟩
  | storeEmpty k =>
    simp only [held, hproducer] at hplaced
    have hempty : states (w.setState k .empty) k = .empty := by simp
    refine inv_reclaimed ?_ (by simp) fun hc => ⟨hrelies.2 hc, k, .inl hempty⟩
    rw [states_setState]
    exact hplaced.reclaim hrelies.1
  | loadEmpty k =>
    simp only [held, hproducer] at hplaced
    obtain ⟨hpublishes, z, hz, hempty⟩ := hrelies
    simp only [World.produce]
    split
    · rename_i hk
      exact .goto hplaced ⟨hpublishes, hk⟩
    · rename_i hk
      split
      · rename_i j hj
        refine .goto hplaced ⟨hpublishes, z, ?_, hempty⟩
        have hne : z ≠ k := fun heq => hk (heq ▸ hempty)
        unfold World.next at hj
        grind
      · exact .answer hplaced
  | moveValue k =>
    simp only [held, hproducer] at hplaced
    refine .goto ?_ ⟨hrelies.1, ?_, ?_⟩
    · rw [states_setValue]
      exact hplaced
    · rw [states_setValue, hrelies.2]
    · simp
  | storeState k =>
    simp only [held, hproducer] at hplaced
    refine .goto ?_ ⟨hrelies.1, ?_⟩
    · rw [states_setState]
      exact hplaced.fill hrelies.2.1
    · rw [values_setState, hrelies.2.2]
  | storeReady k =>
    simp only [held, hproducer] at hplaced
    refine .answer ?_
    rw [hrelies.1.2] at hplaced
    exact hplaced.offer

theorem inv_step {a : Action α} (h : Inv w) (hs : step w a = some w') : Inv w' := by
  cases a with
  | call call => exact inv_call h hs
  | producer => exact inv_producer h hs
  | trySelect => exact inv_trySelect h hs
  | clearActive => exact inv_clearActive h hs
  | acquireActive =>
    simp only [step] at hs
    split at hs <;> cases hs
    exact h
  | consumer accepts => exact inv_consumer h hs

/-! ## What the slots hold -/

/-- A slot with an index somebody has, but for the one being published, holds what was published in
it last. -/
structure Kept (w : World α) : Prop where
  value : ∀ i ∈ named w, (∀ call, w.producer ≠ some (call, .storeReady i)) →
    (values w i).isSome = true ∧ values w i = w.published[w.serial i]?

/-- The order the candidates are selected in, by when they were published. -/
structure Ordered (w : World α) : Prop where
  selected : w.selected.Pairwise (· < ·)
  published : ∀ n ∈ w.selected, n < w.published.length
  taken : ∀ n ∈ w.takenBack, n < w.published.length ∧ n ∉ w.selected
  ready : ∀ i, w.ready = some i → w.serial i < w.published.length ∧ w.serial i ∉ w.takenBack
    ∧ ∀ n ∈ w.selected, n < w.serial i
  accept : ∀ i, w.consumer = .accept i → w.serial i < w.published.length
    ∧ w.serial i ∉ w.takenBack ∧ (∀ n ∈ w.selected, n < w.serial i)
    ∧ ∀ j, w.ready = some j → w.serial i < w.serial j

theorem kept_start : Kept ({} : World α) := ⟨by simp [named, held, examined, Exchange.outgoing]⟩

theorem ordered_start : Ordered ({} : World α) := by constructor <;> simp

/-- The consumer's accesses leave the producer's part alone. -/
structure Frame (w w' : World α) : Prop where
  producer : w'.producer = w.producer
  values : values w' = values w
  serial : w'.serial = w.serial
  published : w'.published = w.published
  takenBack : w'.takenBack = w.takenBack
  returned : w'.returned = w.returned
  named : ∀ i ∈ named w', i ∈ named w

theorem frame_refl : Frame w w := ⟨rfl, rfl, rfl, rfl, rfl, rfl, fun _ h => h⟩

theorem frame_consumer {accepts : Bool} (h : Inv w) (hs : step w (.consumer accepts) = some w') :
    Frame w w' := by
  have hplaced := h.placed
  simp only [step] at hs
  cases hc : w.consumer with
  | idle => simp [World.consume, hc] at hs
  | accept i =>
    simp only [World.consume, hc] at hs
    split at hs <;> cases hs
    all_goals
      refine ⟨rfl, rfl, rfl, rfl, rfl, rfl, fun j hj => ?_⟩
      simp [mem_named, held, examined, Exchange.outgoing, hc] at hj ⊢
      grind
  | storeRejected i =>
    simp only [World.consume, hc] at hs
    cases hs
    refine ⟨rfl, values_setState _, rfl, rfl, rfl, rfl, fun j hj => ?_⟩
    simp [mem_named, held, examined, Exchange.outgoing, World.setState, hc] at hj ⊢
    grind
  | storeActive i previous =>
    simp only [World.consume, hc] at hs
    cases hs
    refine ⟨rfl, values_setState _, rfl, rfl, rfl, rfl, fun j hj => ?_⟩
    simp [mem_named, held, examined, Exchange.outgoing, World.setState, hc] at hj ⊢
    cases previous <;> grind
  | storePrevious i =>
    simp only [World.consume, hc] at hs
    cases hs
    refine ⟨rfl, values_setState _, rfl, rfl, rfl, rfl, fun j hj => ?_⟩
    simp [mem_named, held, examined, Exchange.outgoing, World.setState, hc] at hj ⊢
    grind

theorem frame_trySelect (hs : step w .trySelect = some w') : Frame w w' := by
  simp only [step, ne_eq, ite_not] at hs
  split at hs
  · rename_i hidle
    split at hs <;> cases hs
    · refine ⟨rfl, rfl, rfl, rfl, rfl, rfl, fun j hj => ?_⟩
      simp [mem_named, held, examined, Exchange.outgoing, hidle] at hj ⊢
      grind
    · exact frame_refl
  · cases hs

theorem frame_clearActive (hs : step w .clearActive = some w') : Frame w w' := by
  simp only [step, ne_eq, ite_not] at hs
  split at hs
  · rename_i hidle
    split at hs <;> cases hs
    · refine ⟨rfl, rfl, rfl, rfl, rfl, rfl, fun j hj => ?_⟩
      simp [mem_named, held, examined, Exchange.outgoing, hidle] at hj ⊢
      grind
    · exact frame_refl
  · cases hs

theorem frame_step {a : Action α} (h : Inv w) (hs : step w a = some w') (hproducer : a ≠ .producer)
    (hcall : ∀ call, a ≠ .call call) : Frame w w' := by
  cases a with
  | call call => exact absurd rfl (hcall call)
  | producer => exact absurd rfl hproducer
  | trySelect => exact frame_trySelect hs
  | clearActive => exact frame_clearActive hs
  | acquireActive =>
    simp only [step] at hs
    split at hs <;> cases hs
    exact frame_refl
  | consumer accepts => exact frame_consumer h hs

theorem Kept.frame (h : Kept w) (hf : Frame w w') : Kept w' where
  value i hi hne := by
    rw [hf.producer] at hne
    rw [hf.values, hf.serial, hf.published]
    exact h.value i (hf.named i hi) hne

/-- The producer is not about to publish. -/
def Unready (w : World α) : Prop := ∀ call i, w.producer ≠ some (call, .storeReady i)

theorem Kept.setState (h : Kept w) (i : Fin 3) (s : SlotState) : Kept (w.setState i s) where
  value j hj hne := by
    rw [values_setState]
    exact h.value j hj hne

theorem Kept.setValue (h : Kept w) (hi : i ∉ named w) (value : Option α) :
    Kept (w.setValue i value) where
  value j hj hne := by
    have hji : j ≠ i := by
      rintro rfl
      exact hi hj
    rw [values_setValue, Function.update_of_ne hji]
    exact h.value j hj hne

/-- The producer's next access, and the call's end, name no slot to anybody new. -/
theorem Kept.goto (h : Kept w) (hunready : Unready w) (hheld : held (w.goto call phase) = none) :
    Kept (w.goto call phase) where
  value i hi _ := by
    refine h.value i ?_ fun call' => hunready call' i
    rw [mem_named, hheld] at hi
    exact mem_named.mpr (hi.imp id fun hi => .inr (hi.resolve_left nofun))

theorem Kept.answer (h : Kept w) (hunready : Unready w) {result : Bool} :
    Kept (w.answer call result) where
  value i hi _ := by
    refine h.value i ?_ fun call' => hunready call' i
    rw [mem_named] at hi
    exact mem_named.mpr (hi.imp id fun hi => .inr (hi.resolve_left nofun))

theorem Kept.reclaimed (h : Kept w) (hunready : Unready w) : Kept (w.reclaimed call k) := by
  unfold World.reclaimed
  split
  · exact h.goto hunready rfl
  · split
    · exact h.answer hunready
    · exact h.goto hunready rfl

/-- Taking a ready successor back moves its index from one side to the other. -/
theorem kept_takeBack (h : Kept w) (hunready : Unready w) (hready : w.ready = some i)
    {takenBack : List Nat} :
    Kept ({ w with ready := none, takenBack }.goto call (.storeTaken i)) where
  value j hj _ := by
    refine h.value j ?_ fun call' => hunready call' j
    rw [mem_named] at hj ⊢
    rcases hj with hj | hj | hj
    · cases hj
    · exact .inl (hready.trans hj)
    · exact .inr (.inr hj)

theorem kept_storeState (h : Kept w) (hunready : Unready w) :
    Kept ((w.setState k .ready).goto call (.storeReady k)) where
  value i hi hne := by
    have hik : some k ≠ some i := fun heq => by
      cases heq
      exact hne call rfl
    have hmem : i ∈ named w := by
      rw [mem_named] at hi ⊢
      exact hi.imp id fun hi => .inr (hi.resolve_left hik)
    exact (h.setState k .ready).value i hmem fun call' => hunready call' i

/-- The candidate published is what its slot holds. -/
theorem kept_storeReady (hinv : Inv w) (h : Kept w)
    (hproducer : w.producer = some (call, .storeReady k)) :
    Kept (w.produce call (.storeReady k)) where
  value i hi _ := by
    obtain ⟨⟨hsome, _⟩, hvalue⟩ := hinv.relies call _ hproducer
    obtain ⟨candidate, hcandidate⟩ := Option.isSome_iff_exists.mp hsome
    rw [hcandidate] at hvalue
    change (values w i).isSome = true ∧ values w i
      = (w.published ++ call.candidate.toList)[Function.update w.serial k w.published.length i]?
    rw [hcandidate]
    by_cases hik : i = k
    · subst hik
      simp [hvalue]
    · have hmem : i ∈ named w := by
        rw [mem_named] at hi ⊢
        rcases hi with hi | hi | hi
        · cases hi
          exact absurd rfl hik
        · cases hi
        · exact .inr (.inr hi)
      have hne : ∀ call', w.producer ≠ some (call', .storeReady i) := by
        intro call' heq
        rw [hproducer] at heq
        cases heq
        exact hik rfl
      obtain ⟨hsome', heq⟩ := h.value i hmem hne
      rw [Function.update_of_ne hik]
      refine ⟨hsome', ?_⟩
      rw [heq] at hsome' ⊢
      rw [List.getElem?_append_left]
      exact (List.getElem?_eq_some_iff.mp (Option.isSome_iff_exists.mp hsome').choose_spec).1

theorem kept_producer (hinv : Inv w) (h : Kept w) (hs : step w .producer = some w') : Kept w' := by
  simp only [step, Option.map_eq_some_iff, Prod.exists] at hs
  obtain ⟨call, phase, hproducer, rfl⟩ := hs
  have hrelies := hinv.relies call phase hproducer
  by_cases hstore : ∃ k, phase = .storeReady k
  · obtain ⟨k, rfl⟩ := hstore
    exact kept_storeReady hinv h hproducer
  have hunready : Unready w := by
    intro call' i heq
    rw [hproducer] at heq
    cases heq
    exact hstore ⟨i, rfl⟩
  cases phase with
  | exchangeReady =>
    simp only [World.produce]
    split
    · exact h.answer hunready
    · split
      · exact kept_takeBack h hunready ‹_›
      · exact h.goto hunready rfl
  | storeTaken i => exact (h.setState i .retired).goto hunready rfl
  | loadReady =>
    simp only [World.produce]
    split
    · exact h.answer hunready
    · exact h.goto hunready rfl
  | loadRetired k =>
    simp only [World.produce]
    split
    · exact h.goto hunready rfl
    · exact h.reclaimed hunready
  | resetValue k => exact (h.setValue (not_named hinv (.inr hrelies.1)) none).goto hunready rfl
  | storeEmpty k => exact (h.setState k .empty).reclaimed hunready
  | loadEmpty k =>
    simp only [World.produce]
    split
    · exact h.goto hunready rfl
    · split
      · exact h.goto hunready rfl
      · exact h.answer hunready
  | moveValue k => exact (h.setValue (not_named hinv (.inl hrelies.2)) _).goto hunready rfl
  | storeState k => exact kept_storeState h hunready
  | storeReady k => exact absurd ⟨k, rfl⟩ hstore

theorem kept_step {a : Action α} (hinv : Inv w) (h : Kept w) (hs : step w a = some w') :
    Kept w' := by
  by_cases hproducer : a = .producer
  · exact kept_producer hinv h (hproducer ▸ hs)
  by_cases hcall : ∃ call, a = .call call
  · obtain ⟨call, rfl⟩ := hcall
    simp only [step] at hs
    split at hs <;> cases hs
    rename_i hnone
    refine h.goto (fun call' i heq => hnone (by simp [heq])) ?_
    cases call <;> rfl
  · exact h.frame (frame_step hinv hs hproducer fun call hc => hcall ⟨call, hc⟩)

/-! ## The order -/

/-- The accesses that leave the order of things alone. -/
theorem Ordered.mono (h : Ordered w) (hselected : w'.selected = w.selected)
    (hpublished : w'.published = w.published) (htaken : w'.takenBack = w.takenBack)
    (hserial : w'.serial = w.serial) (hready : ∀ i, w'.ready = some i → w.ready = some i)
    (haccept : ∀ i, w'.consumer = .accept i → w.consumer = .accept i) : Ordered w' := by
  obtain ⟨h1, h2, h3, h4, h5⟩ := h
  constructor <;> simp only [hselected, hpublished, htaken, hserial]
  · exact h1
  · exact h2
  · exact h3
  · exact fun i hi => h4 i (hready i hi)
  · exact fun i hi => ⟨(h5 i (haccept i hi)).1, (h5 i (haccept i hi)).2.1, (h5 i (haccept i hi)).2.2.1,
      fun j hj => (h5 i (haccept i hi)).2.2.2 j (hready j hj)⟩

theorem ordered_accept (h : Ordered w) (hc : w.consumer = .accept i) :
    Ordered { w with
      active := some i, consumer := .storeActive i w.active
      selected := w.selected ++ [w.serial i] } := by
  obtain ⟨hlt, hnot, hlast, hnext⟩ := h.accept i hc
  have hmem : ∀ n ∈ w.selected ++ [w.serial i], n ∈ w.selected ∨ n = w.serial i := by simp
  constructor
  · rw [List.pairwise_append]
    exact ⟨h.selected, List.pairwise_singleton _ _, by simpa using hlast⟩
  · intro n hn
    rcases hmem n hn with hn | rfl
    · exact h.published n hn
    · exact hlt
  · intro n hn
    refine ⟨(h.taken n hn).1, fun hsel => ?_⟩
    rcases hmem n hsel with hsel | rfl
    · exact (h.taken n hn).2 hsel
    · exact hnot hn
  · intro j hj
    obtain ⟨hj1, hj2, hj3⟩ := h.ready j hj
    refine ⟨hj1, hj2, fun n hn => ?_⟩
    rcases hmem n hn with hn | rfl
    · exact hj3 n hn
    · exact hnext j hj
  · nofun

theorem ordered_trySelect (h : Ordered w) (hs : step w .trySelect = some w') : Ordered w' := by
  simp only [step, ne_eq, ite_not] at hs
  split at hs
  · split at hs <;> cases hs
    · rename_i i hready
      obtain ⟨h1, h2, h3⟩ := h.ready i hready
      refine ⟨h.selected, h.published, h.taken, nofun, fun j hj => ?_⟩
      cases hj
      exact ⟨h1, h2, h3, nofun⟩
    · exact h
  · cases hs

/-- A successor taken back is not selected later: no slot of the consumer's has its number. -/
theorem ordered_takeBack (h : Ordered w) (hready : w.ready = some i) :
    Ordered ({ w with ready := none, takenBack := w.takenBack ++ [w.serial i] }.goto call
      (.storeTaken i)) := by
  obtain ⟨hlt, -, hlast⟩ := h.ready i hready
  constructor
  · exact h.selected
  · exact h.published
  · intro n hn
    rcases List.mem_append.mp hn with hn | hn
    · exact h.taken n hn
    · cases List.mem_singleton.mp hn
      exact ⟨hlt, fun hsel => Nat.lt_irrefl _ (hlast _ hsel)⟩
  · nofun
  · intro j hj
    obtain ⟨h1, h2, h3, h4⟩ := h.accept j hj
    refine ⟨h1, fun hmem => ?_, h3, nofun⟩
    rcases List.mem_append.mp hmem with hmem | hmem
    · exact h2 hmem
    · have heq : w.serial j = w.serial i := List.mem_singleton.mp hmem
      exact Nat.ne_of_lt (h4 i hready) heq

theorem ordered_storeReady (hinv : Inv w) (h : Ordered w)
    (hproducer : w.producer = some (call, .storeReady k)) :
    Ordered (w.produce call (.storeReady k)) := by
  obtain ⟨⟨hsome, hnone⟩, -⟩ := hinv.relies call _ hproducer
  obtain ⟨candidate, hcandidate⟩ := Option.isSome_iff_exists.mp hsome
  have hlength : (w.published ++ call.candidate.toList).length = w.published.length + 1 := by
    simp [hcandidate]
  have hother : ∀ i, w.consumer = .accept i → i ≠ k := by
    rintro i hi rfl
    have hapart := hinv.placed.apart i
    simp only [held, examined, hproducer, hi] at hapart
    grind
  constructor
  · exact h.selected
  · intro n hn
    exact lt_of_lt_of_eq (Nat.lt_succ_of_lt (h.published n hn)) hlength.symm
  · intro n hn
    exact ⟨lt_of_lt_of_eq (Nat.lt_succ_of_lt (h.taken n hn).1) hlength.symm, (h.taken n hn).2⟩
  · intro i hi
    cases hi
    change Function.update w.serial k w.published.length k < (w.published ++ _).length
      ∧ Function.update w.serial k w.published.length k ∉ w.takenBack
      ∧ ∀ n ∈ w.selected, n < Function.update w.serial k w.published.length k
    rw [Function.update_self, hlength]
    exact ⟨Nat.lt_succ_self _, fun hmem => Nat.lt_irrefl _ (h.taken _ hmem).1, h.published⟩
  · intro i hi
    obtain ⟨h1, h2, h3, -⟩ := h.accept i hi
    change Function.update w.serial k w.published.length i < (w.published ++ _).length
      ∧ Function.update w.serial k w.published.length i ∉ w.takenBack
      ∧ (∀ n ∈ w.selected, n < Function.update w.serial k w.published.length i)
      ∧ ∀ j, some k = some j → Function.update w.serial k w.published.length i
        < Function.update w.serial k w.published.length j
    rw [Function.update_of_ne (hother i hi), hlength]
    refine ⟨Nat.lt_succ_of_lt h1, h2, h3, fun j hj => ?_⟩
    cases hj
    rw [Function.update_self]
    exact h1

/-- Where the producer goes next, and what it answers, is not in the order. -/
theorem Ordered.reclaimed (h : Ordered w) : Ordered (w.reclaimed call k) := by
  unfold World.reclaimed
  split
  · exact h.mono rfl rfl rfl rfl (fun _ hi => hi) fun _ hi => hi
  · split <;> exact h.mono rfl rfl rfl rfl (fun _ hi => hi) fun _ hi => hi

theorem ordered_producer (hinv : Inv w) (h : Ordered w) (hs : step w .producer = some w') :
    Ordered w' := by
  simp only [step, Option.map_eq_some_iff, Prod.exists] at hs
  obtain ⟨call, phase, hproducer, rfl⟩ := hs
  have hsame : ∀ u : World α, u.selected = w.selected → u.published = w.published →
      u.takenBack = w.takenBack → u.serial = w.serial → u.ready = w.ready →
      u.consumer = w.consumer → Ordered u := fun u h1 h2 h3 h4 h5 h6 =>
    h.mono h1 h2 h3 h4 (fun _ hi => h5 ▸ hi) fun _ hi => h6 ▸ hi
  cases phase with
  | exchangeReady =>
    simp only [World.produce]
    split
    · exact hsame _ rfl rfl rfl rfl rfl rfl
    · split
      · exact ordered_takeBack h ‹_›
      · exact hsame _ rfl rfl rfl rfl rfl rfl
  | storeReady k => exact ordered_storeReady hinv h hproducer
  | loadRetired k =>
    simp only [World.produce]
    split
    · exact hsame _ rfl rfl rfl rfl rfl rfl
    · exact h.reclaimed
  | storeEmpty k => exact (hsame (w.setState k .empty) rfl rfl rfl rfl rfl rfl).reclaimed
  | loadEmpty k =>
    simp only [World.produce]
    split
    · exact hsame _ rfl rfl rfl rfl rfl rfl
    · split <;> exact hsame _ rfl rfl rfl rfl rfl rfl
  | loadReady =>
    simp only [World.produce]
    split <;> exact hsame _ rfl rfl rfl rfl rfl rfl
  | storeTaken _ | resetValue _ | moveValue _ | storeState _ =>
    exact hsame _ rfl rfl rfl rfl rfl rfl

theorem ordered_consumer {accepts : Bool} (h : Ordered w)
    (hs : step w (.consumer accepts) = some w') : Ordered w' := by
  simp only [step] at hs
  cases hc : w.consumer with
  | idle => simp [World.consume, hc] at hs
  | accept i =>
    simp only [World.consume, hc] at hs
    split at hs <;> cases hs
    · exact ordered_accept h hc
    · exact h.mono rfl rfl rfl rfl (fun _ hi => hi) nofun
  | storeRejected i | storePrevious i =>
    simp only [World.consume, hc] at hs
    cases hs
    exact h.mono rfl rfl rfl rfl (fun _ hi => hi) nofun
  | storeActive i previous =>
    simp only [World.consume, hc] at hs
    cases hs
    refine h.mono rfl rfl rfl rfl (fun _ hi => hi) fun j hj => ?_
    cases previous <;> cases hj

theorem ordered_step {a : Action α} (hinv : Inv w) (h : Ordered w) (hs : step w a = some w') :
    Ordered w' := by
  cases a with
  | call call =>
    simp only [step] at hs
    split at hs <;> cases hs
    exact h.mono rfl rfl rfl rfl (fun _ hi => hi) fun _ hi => hi
  | producer => exact ordered_producer hinv h hs
  | trySelect => exact ordered_trySelect h hs
  | clearActive =>
    simp only [step] at hs
    split at hs
    · cases hs
    · split at hs <;> cases hs
      · exact h.mono rfl rfl rfl rfl (fun _ hi => hi) nofun
      · exact h
  | acquireActive =>
    simp only [step] at hs
    split at hs <;> cases hs
    exact h
  | consumer accepts => exact ordered_consumer h hs

/-! ## The promises -/

/-- What an access of the producer's answers, if it is the call's last. -/
theorem returned_produce (h : Relies w call phase) :
    (w.produce call phase).returned = w.returned ∨ ∃ result,
      (w.produce call phase).returned = w.returned ++ [(call, result)]
        ∧ ∀ candidate, call = .tryReplace (some candidate) → result = true := by
  have hreclaimed : ∀ (u : World α) k, u.returned = w.returned →
      (u.reclaimed call k).returned = w.returned ∨ ∃ result,
        (u.reclaimed call k).returned = w.returned ++ [(call, result)]
          ∧ ∀ candidate, call = .tryReplace (some candidate) → result = true := by
    intro u k hu
    unfold World.reclaimed
    split
    · exact .inl hu
    · split
      · exact .inr ⟨true, by rw [← hu]; rfl, fun _ _ => rfl⟩
      · exact .inl hu
  cases phase with
  | exchangeReady =>
    simp only [World.produce]
    split
    · rename_i hnone
      refine .inr ⟨false, rfl, fun candidate hc => ?_⟩
      simp [hc, Call.candidate] at hnone
    · split <;> exact .inl rfl
  | loadReady =>
    simp only [World.produce]
    split
    · rename_i hno
      refine .inr ⟨false, rfl, fun candidate hc => ?_⟩
      simp [hc, Call.candidate, (h _ hc).2] at hno
    · exact .inl rfl
  | loadRetired k =>
    simp only [World.produce]
    split
    · exact .inl rfl
    · exact hreclaimed w k rfl
  | storeEmpty k => exact hreclaimed (w.setState k .empty) k rfl
  | loadEmpty k =>
    obtain ⟨-, z, hz, hempty⟩ := h
    simp only [World.produce]
    split
    · exact .inl rfl
    · rename_i hk
      split
      · exact .inl rfl
      · rename_i hlast
        have hne : z ≠ k := by
          rintro rfl
          exact hk hempty
        unfold World.next at hlast
        grind
  | storeReady k => exact .inr ⟨true, rfl, fun _ _ => rfl⟩
  | storeTaken _ | resetValue _ | moveValue _ | storeState _ => exact .inl rfl

theorem replaceSucceeds_step {a : Action α} (hinv : Inv w) (h : ReplaceSucceeds w)
    (hs : step w a = some w') : ReplaceSucceeds w' := by
  by_cases hproducer : a = .producer
  · subst hproducer
    simp only [step, Option.map_eq_some_iff, Prod.exists] at hs
    obtain ⟨call, phase, hproducer, rfl⟩ := hs
    intro candidate result hmem
    rcases returned_produce (hinv.relies call phase hproducer) with hret | ⟨answer, hret, htrue⟩
    · exact h candidate result (hret ▸ hmem)
    · rw [hret] at hmem
      rcases List.mem_append.mp hmem with hmem | hmem
      · exact h candidate result hmem
      · cases List.mem_singleton.mp hmem
        exact htrue candidate rfl
  by_cases hcall : ∃ call, a = .call call
  · obtain ⟨call, rfl⟩ := hcall
    simp only [step] at hs
    split at hs <;> cases hs
    exact h
  · have hframe := frame_step hinv hs hproducer fun call hc => hcall ⟨call, hc⟩
    intro candidate result hmem
    exact h candidate result (hframe.returned ▸ hmem)

/-- An access of the producer's goes on with the call, or it is the call's last and publishes the
candidate if the answer is true. -/
theorem produce_outcome :
    (∃ phase', (w.produce call phase).producer = some (call, phase')
        ∧ (w.produce call phase).published = w.published
        ∧ (w.produce call phase).returned = w.returned)
      ∨ (w.produce call phase).producer = none ∧ ∃ result,
        (w.produce call phase).returned = w.returned ++ [(call, result)]
          ∧ (w.produce call phase).published
            = w.published ++ if result then call.candidate.toList else [] := by
  have hgoto : ∀ (u : World α) phase', u.published = w.published → u.returned = w.returned →
      ∃ phase'', (u.goto call phase').producer = some (call, phase'')
        ∧ (u.goto call phase').published = w.published
        ∧ (u.goto call phase').returned = w.returned :=
    fun u phase' hp hr => ⟨phase', rfl, hp, hr⟩
  have hfalse : (w.answer call false).producer = none ∧ ∃ result,
      (w.answer call false).returned = w.returned ++ [(call, result)]
        ∧ (w.answer call false).published
          = w.published ++ if result then call.candidate.toList else [] :=
    ⟨rfl, false, rfl, by simp [World.answer]⟩
  have hreclaimed : ∀ (u : World α) k, u.published = w.published → u.returned = w.returned →
      (∃ phase', (u.reclaimed call k).producer = some (call, phase')
          ∧ (u.reclaimed call k).published = w.published
          ∧ (u.reclaimed call k).returned = w.returned)
        ∨ (u.reclaimed call k).producer = none ∧ ∃ result,
          (u.reclaimed call k).returned = w.returned ++ [(call, result)]
            ∧ (u.reclaimed call k).published
              = w.published ++ if result then call.candidate.toList else [] := by
    intro u k hp hr
    unfold World.reclaimed
    split
    · exact .inl (hgoto u _ hp hr)
    · split
      · exact .inr ⟨rfl, true, by simp [World.answer, hr], by
          simp [World.answer, hp, Call.candidate]⟩
      · exact .inl (hgoto u _ hp hr)
  cases phase with
  | exchangeReady =>
    simp only [World.produce]
    split
    · exact .inr hfalse
    · split <;> exact .inl (hgoto _ _ rfl rfl)
  | loadReady =>
    simp only [World.produce]
    split
    · exact .inr hfalse
    · exact .inl (hgoto w _ rfl rfl)
  | loadRetired k =>
    simp only [World.produce]
    split
    · exact .inl (hgoto w _ rfl rfl)
    · exact hreclaimed w k rfl rfl
  | storeEmpty k => exact hreclaimed (w.setState k .empty) k rfl rfl
  | loadEmpty k =>
    simp only [World.produce]
    split
    · exact .inl (hgoto w _ rfl rfl)
    · split
      · exact .inl (hgoto w _ rfl rfl)
      · exact .inr hfalse
  | storeReady k => exact .inr ⟨rfl, true, rfl, rfl⟩
  | storeTaken k => exact .inl (hgoto (w.setState k .retired) _ rfl rfl)
  | resetValue k => exact .inl (hgoto (w.setValue k none) _ rfl rfl)
  | moveValue k => exact .inl (hgoto (w.setValue k call.candidate) _ rfl rfl)
  | storeState k => exact .inl (hgoto (w.setState k .ready) _ rfl rfl)

/-- What is selected is what the consumer accepts. -/
theorem selected_produce : (w.produce call phase).selected = w.selected := by
  cases phase <;> simp only [World.produce, World.reclaimed] <;> (repeat' split) <;> rfl

theorem remaining_reclaimed : remaining (w.reclaimed call k) < 13 - 3 * k.val := by
  have hk := k.isLt
  unfold World.reclaimed World.next
  split
  · rename_i j hj
    split at hj <;> cases hj
    simp only [remaining, World.goto]
    omega
  · split
    · simp only [remaining, World.answer]
      omega
    · simp only [remaining, World.goto]
      simp only [Fin.val_zero]
      omega

theorem remaining_produce (hproducer : w.producer = some (call, phase)) :
    remaining (w.produce call phase) < remaining w := by
  cases phase with
  | exchangeReady =>
    simp only [World.produce]
    split
    · simp [remaining, World.answer, hproducer]
    · split <;> simp [remaining, World.goto, hproducer]
  | loadReady =>
    simp only [World.produce]
    split <;> simp [remaining, World.answer, World.goto, hproducer]
  | loadRetired k =>
    have hk := k.isLt
    simp only [World.produce]
    split
    · simp only [remaining, World.goto, hproducer]
      omega
    · refine lt_of_lt_of_le remaining_reclaimed ?_
      simp only [remaining, hproducer]
      omega
  | resetValue k =>
    have hk := k.isLt
    simp only [World.produce, remaining, World.goto, hproducer]
    omega
  | storeEmpty k =>
    refine lt_of_lt_of_eq remaining_reclaimed ?_
    simp only [remaining, hproducer]
  | loadEmpty k =>
    have hk := k.isLt
    simp only [World.produce]
    split
    · simp only [remaining, World.goto, hproducer]
      omega
    · split
      · rename_i j hj
        unfold World.next at hj
        split at hj <;> cases hj
        simp only [remaining, World.goto, hproducer]
        omega
      · simp only [remaining, World.answer, hproducer]
        omega
  | storeReady k => simp [World.produce, remaining, World.answer, hproducer]
  | storeTaken _ | moveValue _ | storeState _ =>
    simp [World.produce, remaining, World.goto, hproducer]

theorem producerProceeds (hinv : Inv w) : ProducerProceeds w := by
  refine ⟨fun hbusy => ?_, fun a w' hproducer hcall hs =>
    (frame_step hinv hs hproducer hcall).producer⟩
  obtain ⟨⟨call, phase⟩, hproducer⟩ := Option.ne_none_iff_exists'.mp hbusy
  exact ⟨w.produce call phase, by simp [step, hproducer], remaining_produce hproducer⟩

/-- The producer writes to no slot somebody has the index of. -/
theorem values_producer (hinv : Inv w) (hi : i ∈ named w) (hs : step w .producer = some w') :
    values w' i = values w i := by
  simp only [step, Option.map_eq_some_iff, Prod.exists] at hs
  obtain ⟨call, phase, hproducer, rfl⟩ := hs
  have hrelies := hinv.relies call phase hproducer
  have hreclaimed : ∀ (u : World α) k, values (u.reclaimed call k) = values u := by
    intro u k
    unfold World.reclaimed
    split
    · rfl
    · split <;> rfl
  have hfree : ∀ k, states w k = .empty ∨ states w k = .retired → i ≠ k := by
    rintro k hk rfl
    exact not_named hinv hk hi
  cases phase with
  | loadRetired k =>
    simp only [World.produce]
    split
    · rfl
    · rw [hreclaimed]
  | storeEmpty k => simp only [World.produce, hreclaimed, values_setState]
  | resetValue k =>
    have hvalues : values (w.produce call (.resetValue k)) = Function.update (values w) k none :=
      values_setValue none
    rw [hvalues, Function.update_of_ne (hfree k (.inr hrelies.1))]
  | moveValue k =>
    have hvalues : values (w.produce call (.moveValue k))
      = Function.update (values w) k call.candidate := values_setValue _
    rw [hvalues, Function.update_of_ne (hfree k (.inl hrelies.2))]
  | storeTaken k | storeState k => exact congrFun (values_setState _) i
  | exchangeReady =>
    simp only [World.produce]
    split
    · rfl
    · split <;> rfl
  | loadReady =>
    simp only [World.produce]
    split <;> rfl
  | loadEmpty k =>
    simp only [World.produce]
    split
    · rfl
    · split <;> rfl
  | storeReady k => rfl

theorem consumerUndisturbed (hinv : Inv w) (h : Kept w) : ConsumerUndisturbed w := by
  intro i hi
  have hmem : i ∈ named w := by
    rw [mem_named]
    rcases hi with hi | hi
    · exact .inr (.inr (.inr (.inl hi)))
    · exact .inr (.inr (.inl hi))
  have hnot : ∀ call, w.producer ≠ some (call, .storeReady i) := by
    intro call hproducer
    have hapart := hinv.placed.apart i
    simp only [held, hproducer] at hapart
    grind
  obtain ⟨hsome, hvalue⟩ := h.value i hmem hnot
  exact ⟨hsome, hvalue, fun w' hs => values_producer hinv hmem hs⟩

theorem hasRole_unique (hinv : Inv w) {role role' : Role} (h : HasRole w i role)
    (h' : HasRole w i role') : role = role' := by
  obtain ⟨h1, h2, h3, h4, h5, h6⟩ := hinv.placed
  have hapart := h1 i
  have hstate : (w.slot i).state = states w i := rfl
  cases role <;> cases role' <;> simp only [HasRole, hstate, mem_named] at h h' <;> grind

theorem oneRole (hinv : Inv w) : OneRole w := by
  intro i
  have hrole : ∃ role, HasRole w i role := by
    by_cases hmem : i ∈ named w
    · have hstate := named_state hinv hmem
      rw [mem_named] at hmem
      rcases hmem with hi | hi | hi | hi | hi
      · exact ⟨.ready, hinv.placed.waiting i (.inl hi), .inl hi⟩
      · exact ⟨.ready, hinv.placed.waiting i (.inr (.inl hi)), .inr hi⟩
      · exact ⟨.selecting, hinv.placed.waiting i (.inr (.inr (.inl hi))), hi⟩
      · exact ⟨.active, hstate.symm, .inl hi⟩
      · exact ⟨.active, hstate.symm, .inr hi⟩
    · have hcount : [w.ready, held w, examined w, w.active, outgoing w].count (some i) = 0 := by
        simp only [mem_named, not_or] at hmem
        obtain ⟨h1, h2, h3, h4, h5⟩ := hmem
        simp [h1, h2, h3, h4, h5]
      rcases hinv.placed.free i hcount with hs | hs
      · exact ⟨.empty, hs, hmem⟩
      · exact ⟨.retired, hs, hmem⟩
  obtain ⟨role, hrole⟩ := hrole
  exact ⟨role, hrole, fun role' h' => hasRole_unique hinv h' hrole⟩

end ModuleServices.Exchange.Proof

namespace ModuleServices.Exchange

open ModuleServices.Exchange.Proof

/-- **The publication exchange.** Whatever the two sides do, and in whatever order their accesses
fall: a replacement succeeds, a candidate is selected at most once, in the order of publication,
and never after it was taken back, the producer leaves the consumer's slots alone, and every slot
has one role. -/
theorem exchange_exclusive {α : Type} {w : World α} (h : Run.Reachable step {} w) :
    ReplaceSucceeds w ∧ ProducerProceeds w ∧ SelectsInOrder w ∧ ConsumerUndisturbed w
      ∧ OneRole w := by
  have hall : (Inv w ∧ Kept w) ∧ Ordered w ∧ ReplaceSucceeds w := by
    refine h.invariant (I := fun w => (Inv w ∧ Kept w) ∧ Ordered w ∧ ReplaceSucceeds w)
      ⟨⟨inv_start, kept_start⟩, ordered_start, by simp [ReplaceSucceeds]⟩ ?_
    rintro w a w' - ⟨⟨hinv, hkept⟩, hordered, hreplaced⟩ - hs
    exact ⟨⟨inv_step hinv hs, kept_step hinv hkept hs⟩, ordered_step hinv hordered hs,
      replaceSucceeds_step hinv hreplaced hs⟩
  obtain ⟨⟨hinv, hkept⟩, hordered, hreplaced⟩ := hall
  exact ⟨hreplaced, producerProceeds hinv,
    ⟨hordered.selected, fun n hn => ⟨hordered.published n hn, fun hmem =>
      (hordered.taken n hmem).2 hn⟩⟩, consumerUndisturbed hinv hkept, oneRole hinv⟩

/-- Two replacements in a row, the second of which takes the first candidate back and is selected
while a third is being published. -/
def replacedTrace : List (Action Nat) :=
  [.call (.tryReplace (some 10)), .producer, .producer, .producer, .producer, .producer, .producer,
    .producer, .producer, .producer, .call (.tryReplace (some 11)), .producer, .producer, .producer,
    .producer, .producer, .producer, .producer, .producer, .producer, .producer, .producer,
    .producer, .call (.tryReplace (some 12)), .trySelect, .consumer true, .producer, .consumer true]

theorem exchange_exclusive_replaced : ∃ w : World Nat, Run.Reachable step {} w ∧
    (w.takenBack = [0] ∧ w.selected = [1] ∧ w.acquireActive = some 11
      ∧ w.producer = some (.tryReplace (some 12), .loadReady)) ∧
    ReplaceSucceeds w ∧ ProducerProceeds w ∧ SelectsInOrder w ∧ ConsumerUndisturbed w
      ∧ OneRole w := by
  have htrace : (Run.exec step {} replacedTrace).any (fun w : World Nat =>
      w.takenBack = [0] ∧ w.selected = [1] ∧ w.acquireActive = some 11
        ∧ w.producer = some (.tryReplace (some 12), .loadReady)) = true := by
    decide +kernel
  obtain ⟨w, hrun, hw⟩ := (Option.any_eq_true _ _).mp htrace
  have hreach : Run.Reachable step {} w := Run.exec_reachable hrun
  exact ⟨w, hreach, of_decide_eq_true hw, exchange_exclusive hreach⟩

end ModuleServices.Exchange
