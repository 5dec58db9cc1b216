import ModuleServices.Growth.Proof.Serials

/-!
# A sealed set shows the newest versions, and they meet the build

While the flag is down the last set shows exactly what naming anew would (`Shows`): every change of a
version or a block raises it, and a buffer that expires keeps its entry until it leaves. That is kept
over every run (`coherent_reachable`), so a seal that answers with the set it made before answers as
well as one that made its own, and `sealed_meets` holds of both.
-/

namespace ModuleServices.Growth

open GrowableBufferSet GrowableRun

/-! ## Lookup by key -/

theorem pairLE_iff (a b : Nat × Nat) :
    pairLE a b = true ↔ a.1 < b.1 ∨ a.1 = b.1 ∧ a.2 ≤ b.2 := by
  unfold pairLE
  rw [Bool.or_eq_true, Bool.and_eq_true, decide_eq_true_iff, decide_eq_true_iff, beq_iff_eq]

theorem pairLE_trans (a b c : Nat × Nat) (h : pairLE a b = true) (h' : pairLE b c = true) :
    pairLE a c = true := by
  rw [pairLE_iff] at *
  omega

theorem pairLE_total (a b : Nat × Nat) : (pairLE a b || pairLE b a) = true := by
  rw [Bool.or_eq_true, pairLE_iff, pairLE_iff]
  omega

/-- In a sorted table, the first entry not below a key is that of the least handle with it. -/
theorem find_sorted {table : List (Nat × Nat)} {key i : Nat}
    (hsorted : table.Pairwise fun a b => pairLE a b = true) (h : (key, i) ∈ table) :
    ∃ j, table.find? (fun entry => !decide (entry.1 < key)) = some (key, j) ∧ (key, j) ∈ table
      ∧ j ≤ i := by
  have hsome : (table.find? fun entry => !decide (entry.1 < key)).isSome = true := by
    rw [List.find?_isSome]
    refine ⟨(key, i), h, ?_⟩
    simp
  obtain ⟨entry, hfind⟩ := Option.isSome_iff_exists.mp hsome
  obtain ⟨hfirst, before, after, heq, hbefore⟩ := List.find?_eq_some_iff_append.mp hfind
  have hge : key ≤ entry.1 := by simpa using hfirst
  have hle : pairLE entry (key, i) = true ∨ entry = (key, i) := by
    rw [heq] at h hsorted
    rcases List.mem_append.mp h with hmem | hmem
    · have hbelow := hbefore (key, i) hmem
      simp at hbelow
    · rcases List.mem_cons.mp hmem with hsame | hmem
      · exact Or.inr hsame.symm
      · have htail := (List.pairwise_append.mp hsorted).2.1
        exact Or.inl ((List.pairwise_cons.mp htail).1 (key, i) hmem)
  have hboth : entry.1 = key ∧ entry.2 ≤ i := by
    rcases hle with hle | hsame
    · rw [pairLE_iff] at hle
      omega
    · rw [hsame]
      exact ⟨rfl, Nat.le_refl _⟩
  have hentry : entry = (key, entry.2) := Prod.ext hboth.1 rfl
  refine ⟨entry.2, ?_, ?_, hboth.2⟩
  · rw [hfind, ← hentry]
  · rw [← hentry]
    exact List.mem_of_find?_eq_some hfind

/-! ## What a set shows -/

/-- The set shows the slots and the latch blocks, and its table has every live buffer it names. -/
structure Shows (buffers : List VersionedBuffer) (set : GrowableBufferSet) (named : NamedVersions) :
    Prop where
  entry (i : Nat) : named.entries.getD i {}
    = if nameable (set.slot i) then (set.slot i).current else {}
  buffer (i : Nat) : named.buffers.getD i none
    = if nameable (set.slot i) then some (set.slot i).buffer else none
  latches : named.latches = set.latchSlots.map (·.block)
  sorted : named.byKey.Pairwise fun a b => pairLE a b = true
  keyed (i : Nat) (held : VersionedBuffer) : nameable (set.slot i) = true →
    lock buffers (set.slot i).buffer = some held → (held.key, i) ∈ named.byKey
  inTable (key i : Nat) : (key, i) ∈ named.byKey → nameable (set.slot i) = true
  same (key i j : Nat) : (key, i) ∈ named.byKey → (key, j) ∈ named.byKey →
    (set.slot i).buffer = (set.slot j).buffer

/-- Two live buffers have two keys. -/
def Keys (buffers : List VersionedBuffer) : Prop :=
  ∀ i j held held', lock buffers i = some held → lock buffers j = some held' →
    held.key = held'.key → i = j

variable {buffers buffers' : List VersionedBuffer} {set set' : GrowableBufferSet}
  {named : NamedVersions}

theorem mem_byKey (buffers : List VersionedBuffer) (set : GrowableBufferSet) (key i : Nat) :
    (key, i) ∈ (set.nameVersions buffers).byKey ↔ nameable (set.slot i) = true
      ∧ ∃ held, lock buffers (set.slot i).buffer = some held ∧ held.key = key := by
  unfold nameVersions
  dsimp only
  rw [List.mem_mergeSort, List.mem_filterMap]
  constructor
  · intro ⟨entry, hmem, heq⟩
    have hget := List.mem_zipIdx_iff_getElem?.mp hmem
    have hslot : set.slot entry.2 = entry.1 := by
      unfold GrowableBufferSet.slot
      rw [List.getD_eq_getElem?_getD, hget]
      rfl
    by_cases hnameable : nameable entry.1 = true
    · rw [if_pos hnameable] at heq
      obtain ⟨held, hlock, hpair⟩ := Option.map_eq_some_iff.mp heq
      obtain ⟨hkey, hindex⟩ := Prod.mk.inj hpair
      rw [← hindex, hslot]
      exact ⟨hnameable, held, hlock, hkey⟩
    · rw [if_neg hnameable] at heq
      cases heq
  · intro ⟨hnameable, held, hlock, hkey⟩
    have hlt : i < set.slots.length := by
      by_contra hle
      rw [slot_of_le (by omega)] at hnameable
      cases hnameable
    refine ⟨(set.slot i, i), ?_, ?_⟩
    · refine List.mem_zipIdx_iff_getElem?.mpr ?_
      unfold GrowableBufferSet.slot
      rw [List.getD_eq_getElem?_getD, List.getElem?_eq_getElem hlt]
      rfl
    · rw [if_pos hnameable, hlock, ← hkey]
      rfl

/-- A new set shows what it was made of. -/
theorem shows_nameVersions (hkeys : Keys buffers) : Shows buffers set (set.nameVersions buffers)
    where
  entry := nameVersions_entry buffers set
  buffer i := by
    unfold nameVersions GrowableBufferSet.slot
    simp only [List.getD_eq_getElem?_getD, List.getElem?_map]
    cases set.slots[i]? with
    | none => rfl
    | some slot => rfl
  latches := rfl
  sorted := List.pairwise_mergeSort pairLE_trans pairLE_total _
  keyed i held hnameable hlock := (mem_byKey buffers set held.key i).mpr ⟨hnameable, held, hlock, rfl⟩
  inTable key i hmem := ((mem_byKey buffers set key i).mp hmem).1
  same key i j hmem hmem' := by
    obtain ⟨-, held, hlock, hkey⟩ := (mem_byKey buffers set key i).mp hmem
    obtain ⟨-, held', hlock', hkey'⟩ := (mem_byKey buffers set key j).mp hmem'
    exact hkeys _ _ held held' hlock hlock' (hkey.trans hkey'.symm)

/-- What is shown depends on the versions and blocks alone. -/
theorem Shows.same_slots (h : Shows buffers set named) (hquiet : Quiet set set') :
    Shows buffers set' named where
  entry i := by
    rw [hquiet.nameable, hquiet.current]
    exact h.entry i
  buffer i := by
    rw [hquiet.nameable, hquiet.buffer]
    exact h.buffer i
  latches := by
    rw [hquiet.latchSlots]
    exact h.latches
  sorted := h.sorted
  keyed i held hnameable hlock := by
    rw [hquiet.nameable] at hnameable
    rw [hquiet.buffer] at hlock
    exact h.keyed i held hnameable hlock
  inTable key i hmem := by
    rw [hquiet.nameable]
    exact h.inTable key i hmem
  same key i j hmem hmem' := by
    rw [hquiet.buffer, hquiet.buffer]
    exact h.same key i j hmem hmem'

/-- Buffers that age keep their keys; one that expires only leaves the table more than it needs. -/
theorem Shows.aged {known : BufferVersion → Prop} (h : Shows buffers set named)
    (haged : Aged known buffers buffers')
    (hplaced : ∀ i, nameable (set.slot i) = true → (set.slot i).buffer < buffers.length) :
    Shows buffers' set named :=
  { h with
    keyed := fun i held hnameable hlock => by
      obtain ⟨hget, hlive⟩ := GrowableBufferSet.lock_mem hlock
      obtain ⟨before, hbefore, hkey, hold⟩ := haged.buffer _ held hget (hplaced i hnameable)
      have hlocked : lock buffers (set.slot i).buffer = some before := by
        unfold lock
        rw [hbefore]
        exact Option.filter_eq_some_iff.mpr ⟨rfl, hold hlive⟩
      rw [hkey]
      exact h.keyed i before hnameable hlocked }

theorem Shows.congr (h : Shows buffers set named) (hslots : set'.slots = set.slots)
    (hlatches : set'.latchSlots = set.latchSlots) : Shows buffers set' named := by
  have hslot (i : Nat) : set'.slot i = set.slot i := by
    unfold GrowableBufferSet.slot
    rw [hslots]
  refine ⟨fun i => ?_, fun i => ?_, ?_, h.sorted, fun i => ?_, fun key i => ?_, fun key i j => ?_⟩
  · rw [hslot]
    exact h.entry i
  · rw [hslot]
    exact h.buffer i
  · rw [hlatches]
    exact h.latches
  · rw [hslot]
    exact h.keyed i
  · rw [hslot]
    exact h.inTable key i
  · rw [hslot, hslot]
    exact h.same key i j

/-! ## Over runs -/

variable {run run' : GrowableRun} {hooks : GrowableBufferSetHooks}

/-- While the flag is down, the last set shows what there is. -/
def Coherent (run : GrowableRun) : Prop :=
  run.set.changed = false → ∃ named, run.set.last = some named ∧ Shows run.buffers run.set named

theorem lock_of_aged {known : BufferVersion → Prop} (haged : Aged known buffers buffers')
    {i : Nat} {held : VersionedBuffer} (hlt : i < buffers.length)
    (hlock : lock buffers' i = some held) :
    ∃ before, lock buffers i = some before ∧ before.key = held.key := by
  obtain ⟨hget, hlive⟩ := lock_mem hlock
  obtain ⟨before, hbefore, hkey, hold⟩ := haged.buffer i held hget hlt
  refine ⟨before, ?_, hkey.symm⟩
  unfold lock
  rw [hbefore]
  exact Option.filter_eq_some_iff.mpr ⟨rfl, hold hlive⟩

theorem lt_of_lock {i : Nat} {held : VersionedBuffer} (hlock : lock buffers i = some held) :
    i < buffers.length :=
  (List.getElem?_eq_some_iff.mp (lock_mem hlock).1).1

theorem Keys.aged {known : BufferVersion → Prop} (h : Keys buffers)
    (haged : Aged known buffers buffers') (hlength : buffers'.length = buffers.length) :
    Keys buffers' := by
  intro i j held held' hlock hlock' hkey
  obtain ⟨before, hbefore, hsame⟩ := lock_of_aged haged (hlength ▸ lt_of_lock hlock) hlock
  obtain ⟨before', hbefore', hsame'⟩ := lock_of_aged haged (hlength ▸ lt_of_lock hlock') hlock'
  exact h i j before before' hbefore hbefore' (hsame.trans (hkey.trans hsame'.symm))

/-- A buffer whose key no live one has. -/
theorem Keys.append {created : VersionedBuffer} (h : Keys buffers)
    (hnew : ∀ held ∈ buffers, held.live = true → held.key ≠ created.key) :
    Keys (buffers ++ [created]) := by
  have hold {i : Nat} {held : VersionedBuffer} (hlock : lock (buffers ++ [created]) i = some held) :
      (lock buffers i = some held ∧ held ∈ buffers) ∨ (i = buffers.length ∧ held = created) := by
    obtain ⟨hget, hlive⟩ := lock_mem hlock
    by_cases hlt : i < buffers.length
    · rw [List.getElem?_append_left hlt] at hget
      refine Or.inl ⟨?_, List.mem_of_getElem? hget⟩
      unfold lock
      rw [hget]
      exact Option.filter_eq_some_iff.mpr ⟨rfl, hlive⟩
    · have hlast := lt_of_lock hlock
      rw [List.length_append, List.length_singleton] at hlast
      have heq : i = buffers.length := by omega
      rw [heq, List.getElem?_concat_length] at hget
      exact Or.inr ⟨heq, (Option.some.inj hget).symm⟩
  intro i j held held' hlock hlock' hkey
  rcases hold hlock with ⟨hfirst, hmem⟩ | ⟨hi, heq⟩ <;>
    rcases hold hlock' with ⟨hsecond, hmem'⟩ | ⟨hj, heq'⟩
  · exact h i j held held' hfirst hsecond hkey
  · rw [heq'] at hkey
    exact absurd hkey (hnew held hmem (lock_mem hfirst).2)
  · rw [heq] at hkey
    exact absurd hkey.symm (hnew held' hmem' (lock_mem hsecond).2)
  · rw [hi, hj]

/-- What a step does to the buffers of the process. -/
theorem step_buffers {action : Action} (hstep : run.step action = some run') :
    Aged (fun _ => True) run.buffers run'.buffers ∧ (Keys run.buffers → Keys run'.buffers)
      ∧ (run'.buffers = run.buffers ∨ run'.set = run.set) := by
  have hsame : Aged (fun _ => True) run.buffers run.buffers
      ∧ (Keys run.buffers → Keys run.buffers)
      ∧ (run.buffers = run.buffers ∨ run'.set = run.set) := ⟨Aged.refl _ _, id, Or.inl rfl⟩
  cases step_moved hstep with
  | create hfresh =>
    refine ⟨⟨?_, fun j after hget hlt => ?_, fun _ _ _ _ _ => trivial⟩,
      fun h => h.append hfresh, Or.inr rfl⟩
    · rw [List.length_append]
      exact Nat.le_add_right _ _
    · rw [List.getElem?_append_left hlt] at hget
      exact ⟨after, hget, rfl, id⟩
  | @expire buffer =>
    have haged : Aged (fun _ => True) run.buffers (run.buffers.modify buffer _) :=
      aged_modify (fun held => { held with live := false }) (fun _ => rfl)
        (fun _ h => Bool.noConfusion h) (fun _ _ _ => Or.inr trivial) run.buffers buffer
    exact ⟨haged, fun h => h.aged haged (List.length_modify ..), Or.inr rfl⟩
  | @renew buffer made =>
    have haged : Aged (fun _ => True) run.buffers (run.buffers.modify buffer _) :=
      aged_modify (fun held => { held with current := some (made.version run.versions) })
        (fun _ => rfl) (fun _ h => h) (fun _ _ _ => Or.inr trivial) run.buffers buffer
    exact ⟨haged, fun h => h.aged haged (List.length_modify ..), Or.inr rfl⟩
  | @adoptAll place named _ =>
    have haged : Aged (fun _ => True) run.buffers (named.adoptAll run.buffers) :=
      adoptAll_aged (fun _ _ _ _ => trivial) run.buffers
    exact ⟨haged, fun h => h.aged haged (length_adoptAll named run.buffers), Or.inr rfl⟩
  | @sealBuild asks host _ hseal =>
    rw [hseal.buffers]
    exact hsame
  | _ => exact hsame

theorem Coherent.congr (h : Coherent run) (hbuffers : run'.buffers = run.buffers)
    (hchanged : run'.set.changed = run.set.changed) (hlast : run'.set.last = run.set.last)
    (hslots : run'.set.slots = run.set.slots)
    (hlatches : run'.set.latchSlots = run.set.latchSlots) : Coherent run' := by
  intro hdown
  rw [hchanged] at hdown
  obtain ⟨named, hnamed, hshows⟩ := h hdown
  rw [hbuffers]
  exact ⟨named, hlast.trans hnamed, hshows.congr hslots hlatches⟩

/-- A call that lowers the flag no further than it was, and changed no version. -/
theorem Coherent.quiet (h : Coherent run) (hbuffers : run'.buffers = run.buffers)
    (hquiet : run'.set.changed = false → Quiet run.set run'.set) : Coherent run' := by
  intro hdown
  have hset := hquiet hdown
  rw [hset.changed] at hdown
  obtain ⟨named, hnamed, hshows⟩ := h hdown
  rw [hbuffers]
  exact ⟨named, hset.last.trans hnamed, hshows.same_slots hset⟩

theorem takeRegistered_quiet
    (h : (set.takeRegistered buffers).changed = false) : set.takeRegistered buffers = set := by
  rcases takeRegistered_changed buffers set with heq | hchanged
  · exact heq
  · rw [hchanged] at h
    cases h

/-- A seal leaves the flag down only where the last set shows what there is: the one it returned
before, or the one it made. -/
theorem Coherent.seal {asks : List Ask} {host : HostAnswers} (h : Coherent run)
    (hkeys : Keys run.buffers) (hstep : SealStep run run' asks host) : Coherent run' := by
  rcases sealAsks_cases run asks host with ⟨what, -, heq⟩ | ⟨build, -, heq⟩
  · have hset := hstep.set
    rw [heq] at hset
    have hset : run'.set = run.set := hset
    exact h.congr hstep.buffers (by rw [hset]) (by rw [hset]) (by rw [hset]) (by rw [hset])
  · have hset := hstep.set
    rw [heq] at hset
    obtain ⟨hended, -⟩ := sealBuild_both run.buffers host build run.set
    -- with the flag down to the end, nothing was taken and no block was made
    have hdown {met made : GrowableBufferSet}
        (quiet : Quiet (run.set.takeRegistered run.buffers) met) (latched : Latched met made)
        (hmade : made.changed = false) : Quiet run.set made := by
      have hsame := latched.same hmade
      rw [hsame] at hmade ⊢
      have htaken := takeRegistered_quiet (quiet.changed.symm.trans hmade)
      rw [htaken] at quiet
      exact quiet
    cases hended with
    | unnamed met quiet latched none_ =>
      refine h.quiet hstep.buffers fun hchanged => ?_
      rw [hset] at hchanged ⊢
      exact hdown quiet latched hchanged
    | named met made sealed quiet latched ok named =>
      rcases sealNamed_cases run.buffers made with ⟨last, hchanged, -, hresult⟩ | ⟨-, hresult⟩
      · rw [hresult] at named
        refine h.quiet hstep.buffers fun _ => ?_
        rw [hset, ← (Prod.mk.inj named).2]
        exact hdown quiet latched hchanged
      · intro _
        rw [hresult] at named
        rw [hset, hstep.buffers, ← (Prod.mk.inj named).2]
        exact ⟨_, rfl, (shows_nameVersions hkeys).congr rfl rfl⟩

theorem coherent_step {action : Action} (h : Coherent run) (hsound : RunSound run)
    (hkeys : Keys run.buffers) (hstep : run.step action = some run') : Coherent run' := by
  obtain ⟨haged, -⟩ := step_buffers hstep
  have haway (hset : run'.set = run.set) : Coherent run' := by
    intro hdown
    rw [hset] at hdown ⊢
    obtain ⟨named, hnamed, hshows⟩ := h hdown
    refine ⟨named, hnamed, hshows.aged haged fun i hnameable => hsound.placed i fun hnone => ?_⟩
    unfold nameable at hnameable
    rw [hnone] at hnameable
    cases hnameable
  cases step_moved hstep with
  | create => exact haway rfl
  | expire => exact haway rfl
  | renew => exact haway rfl
  | adoptAll => exact haway rfl
  | refused => exact h
  | register => exact h.congr rfl rfl rfl rfl rfl
  | refusedLatch => exact h
  | registerLatch => exact h.congr rfl rfl rfl rfl rfl
  | push => exact h.congr rfl rfl rfl rfl rfl
  | begin => exact h.quiet rfl begin_quiet
  | handleOf =>
    refine h.quiet rfl fun hchanged => ?_
    dsimp only at hchanged ⊢
    rw [takeRegistered_quiet hchanged]
    exact Quiet.refl run.set
  | sealBuild hseal => exact h.seal hkeys hseal
  | capture => exact h.congr rfl rfl rfl rfl rfl
  | done => exact h.congr rfl rfl rfl rfl rfl
  | others => exact h.congr rfl rfl rfl rfl rfl

theorem coherent_reachable (h : Run.Reachable step (init hooks) run) :
    Coherent run ∧ Keys run.buffers := by
  have hboth := h.invariant (I := fun run => Run.Reachable step (init hooks) run
    ∧ Coherent run ∧ Keys run.buffers)
    ⟨.start, fun hdown => Bool.noConfusion hdown, fun _ _ _ _ hlock _ _ => by cases hlock⟩
    fun hr hinv _ hstep => ⟨.next hinv.1 trivial hstep,
      coherent_step hinv.2.1 (account_reachable hinv.1).1 hinv.2.2 hstep,
      (step_buffers hstep).2.1 hinv.2.2⟩
  exact hboth.2

/-! ## What the build asked -/

theorem requiredAt_merge {build build' : Build} {handle : Nat} {required : GrowableRequirement}
    (h : build.merge handle required = .ok build') (i : Nat) :
    build'.requiredAt i
      = if i = handle then (build.requiredAt i).merge required else build.requiredAt i := by
  unfold Build.merge at h
  split at h
  · cases h
  · cases h
    unfold Build.requiredAt
    rw [getD_modify, getD_resize, length_resize]
    by_cases heq : i = handle
    · rw [if_pos ⟨heq, by omega⟩, if_pos heq]
    · rw [if_neg fun both => heq both.1, if_neg heq]

/-- A requirement asks at least as much as the other. -/
def AsksMore (required required' : GrowableRequirement) : Prop :=
  required.units ≤ required'.units ∧ required.newerThan ≤ required'.newerThan

/-- A call merges what it asks, and takes nothing back. -/
theorem ask_asks {build build' : Build} {ask : Ask} (h : build.ask ask = .ok build') :
    (∀ i, AsksMore (build.requiredAt i) (build'.requiredAt i))
      ∧ (∀ handle units, ask = .units handle units → units ≤ (build'.requiredAt handle).units)
      ∧ ∀ handle serial, ask = .newer handle serial →
        serial ≤ (build'.requiredAt handle).newerThan := by
  have hmerge {handle : Nat} {required : GrowableRequirement}
      (h : build.merge handle required = .ok build') :
      (∀ i, AsksMore (build.requiredAt i) (build'.requiredAt i))
        ∧ AsksMore required (build'.requiredAt handle) := by
    refine ⟨fun i => ?_, ?_⟩
    · rw [requiredAt_merge h]
      split
      · exact ⟨Nat.le_max_left _ _, Nat.le_max_left _ _⟩
      · exact ⟨Nat.le_refl _, Nat.le_refl _⟩
    · rw [requiredAt_merge h, if_pos rfl]
      exact ⟨Nat.le_max_right _ _, Nat.le_max_right _ _⟩
  cases ask with
  | units handle units =>
    obtain ⟨hmore, hasked⟩ := hmerge h
    refine ⟨hmore, fun handle' units' heq => ?_, fun _ _ heq => by cases heq⟩
    cases heq
    exact hasked.1
  | newer handle serial =>
    obtain ⟨hmore, hasked⟩ := hmerge h
    refine ⟨hmore, fun _ _ heq => (by cases heq), fun handle' serial' heq => ?_⟩
    cases heq
    exact hasked.2
  | latch handle bytes layoutKey =>
    refine ⟨fun i => ?_, fun _ _ heq => (by cases heq), fun _ _ heq => by cases heq⟩
    have h : build.requireLatch handle bytes layoutKey = .ok build' := h
    unfold Build.requireLatch at h
    split at h
    · cases h
    · dsimp only at h
      split at h
      · cases h
      · cases h
        exact ⟨Nat.le_refl _, Nat.le_refl _⟩

theorem after_asks (asks : List Ask) : ∀ {build build' : Build}, build.after asks = .ok build' →
    (∀ i, AsksMore (build.requiredAt i) (build'.requiredAt i))
      ∧ (∀ handle units, .units handle units ∈ asks → units ≤ (build'.requiredAt handle).units)
      ∧ ∀ handle serial, .newer handle serial ∈ asks →
        serial ≤ (build'.requiredAt handle).newerThan := by
  induction asks with
  | nil =>
    intro build build' h
    cases h
    exact ⟨fun i => ⟨Nat.le_refl _, Nat.le_refl _⟩, fun _ _ hmem => absurd hmem List.not_mem_nil,
      fun _ _ hmem => absurd hmem List.not_mem_nil⟩
  | cons ask rest ih =>
    intro build build' h
    unfold Build.after at h
    cases hask : build.ask ask with
    | error what =>
      rw [hask] at h
      cases h
    | ok next =>
      rw [hask] at h
      obtain ⟨hmore, hunits, hnewer⟩ := ask_asks hask
      obtain ⟨hmore', hunits', hnewer'⟩ := ih h
      refine ⟨fun i => ⟨Nat.le_trans (hmore i).1 (hmore' i).1,
        Nat.le_trans (hmore i).2 (hmore' i).2⟩, fun handle units hmem => ?_,
        fun handle serial hmem => ?_⟩
      · rcases List.mem_cons.mp hmem with heq | hmem
        · exact Nat.le_trans (hunits handle units heq.symm) (hmore' handle).1
        · exact hunits' handle units hmem
      · rcases List.mem_cons.mp hmem with heq | hmem
        · exact Nat.le_trans (hnewer handle serial heq.symm) (hmore' handle).2
        · exact hnewer' handle serial hmem

/-! ## What a seal finds unmet -/

theorem unmetRequired_spec {build : Build} (handles : List Nat) : ∀ {unmet : List Nat},
    set.unmetRequired build handles = .ok unmet → ∀ i ∈ handles,
      (build.requiredAt i).units ≠ 0 ∨ (build.requiredAt i).newerThan ≠ 0 →
      (set.slot i).registration ≠ none ∧ (i ∈ unmet
        ∨ (build.requiredAt i).metBy (set.slot i).current.units (set.slot i).current.serial = true)
    := by
  induction handles with
  | nil => exact fun _ i hmem => absurd hmem List.not_mem_nil
  | cons handle rest ih =>
    intro unmet h i hmem hasked
    unfold unmetRequired at h
    dsimp only at h
    split at h
    next hnothing =>
      rcases List.mem_cons.mp hmem with heq | hmem
      · rw [heq] at hasked
        omega
      · exact ih h i hmem hasked
    · split at h
      · cases h
      next hregistration =>
        cases hrest : set.unmetRequired build rest with
        | error what =>
          rw [hrest] at h
          cases h
        | ok more =>
          rw [hrest] at h
          dsimp only at h
          split at h
          next hmet =>
            cases h
            rcases List.mem_cons.mp hmem with heq | hmem
            · rw [heq]
              exact ⟨hregistration, Or.inr hmet⟩
            · exact ih hrest i hmem hasked
          · cases h
            rcases List.mem_cons.mp hmem with heq | hmem
            · rw [heq]
              exact ⟨hregistration, Or.inl List.mem_cons_self⟩
            · obtain ⟨hsome, hmet⟩ := ih hrest i hmem hasked
              exact ⟨hsome, hmet.imp_left (List.mem_cons_of_mem _)⟩

/-- What is required is met or unmet, and a live Zero buffer's first version is unmet. -/
theorem unmet_spec {build : Build} {unmet : List Nat} (h : set.unmet buffers build = .ok unmet) :
    (∀ i, (build.requiredAt i).units ≠ 0 ∨ (build.requiredAt i).newerThan ≠ 0 →
      (set.slot i).registration ≠ none ∧ (i ∈ unmet
        ∨ (build.requiredAt i).metBy (set.slot i).current.units (set.slot i).current.serial = true))
      ∧ ∀ i, unfilled buffers (set.slot i) = true → i ∈ unmet := by
  unfold GrowableBufferSet.unmet at h
  cases hrequired : set.unmetRequired build (List.range build.required.length) with
  | error what =>
    rw [hrequired] at h
    cases h
  | ok required =>
    rw [hrequired] at h
    cases h
    refine ⟨fun i hasked => ?_, fun i hunfilled => ?_⟩
    · have hlt : i < build.required.length := by
        by_contra hle
        unfold Build.requiredAt at hasked
        rw [List.getD_eq_getElem?_getD, List.getElem?_eq_none (by omega)] at hasked
        exact hasked.elim (fun h => h rfl) fun h => h rfl
      obtain ⟨hsome, hmet⟩ := unmetRequired_spec _ hrequired i (List.mem_range.mpr hlt) hasked
      exact ⟨hsome, hmet.imp_left fun hmem => List.mem_append_left _ hmem⟩
    · by_cases hmem : i ∈ required
      · exact List.mem_append_left _ hmem
      · have hlt : i < set.slots.length := by
          by_contra hle
          rw [slot_of_le (by omega)] at hunfilled
          cases hunfilled
        refine List.mem_append_right _ (List.mem_filter.mpr ⟨List.mem_range.mpr hlt, ?_⟩)
        rw [hunfilled, Bool.true_and, Bool.not_eq_true', ← Bool.not_eq_true]
        exact fun hcontains => hmem (List.contains_iff_mem.mp hcontains)

/-! ## The seal -/

/-- What a set answers to a build, sealed with these buffers and leaving the set as `after`. -/
structure Answers (buffers : List VersionedBuffer) (asks : List Ask) (after : GrowableBufferSet)
    (named : NamedVersions) : Prop where
  /-- A buffer that lives is named with the units asked. -/
  units : ∀ handle units, .units handle units ∈ asks → 0 < units →
    lock buffers (after.slot handle).buffer ≠ none →
    ∃ entry, named.of handle = .ok entry ∧ units ≤ entry.units
  /-- And with a version newer than asked. -/
  newer : ∀ handle serial, .newer handle serial ∈ asks → 0 < serial →
    lock buffers (after.slot handle).buffer ≠ none →
    ∃ entry, named.of handle = .ok entry ∧ serial < entry.serial
  /-- What is named is the newest version, its units those its size holds. -/
  newest : ∀ handle entry, named.of handle = .ok entry → entry = (after.slot handle).current
    ∧ ∃ registration version, (after.slot handle).registration = some registration
      ∧ entry.version = some version ∧ entry.bytes = version.size
      ∧ entry.units = registration.extent.unitsIn version.size
  /-- A Zero buffer is named with a version the set made, never its owner's first. -/
  zero : ∀ handle entry registration, named.of handle = .ok entry →
    (after.slot handle).registration = some registration → registration.contents = .zero →
    { handle, entry, grown := true } ∈ after.entered
  /-- By its key, a live buffer is found at the least handle it is registered with. -/
  lookup : ∀ handle held, named.names handle = true →
    lock buffers (after.slot handle).buffer = some held →
    ∃ least, named.indexOf held.key = some least ∧ least ≤ handle ∧ named.names least = true
      ∧ (after.slot least).buffer = (after.slot handle).buffer

/-- After a seal that names a set, the flag is down and the set is the last. -/
theorem sealAsks_named {asks : List Ask} {host : HostAnswers} {sealed : Sealed}
    {named : NamedVersions} (hok : (run.sealAsks asks host).1 = .ok sealed)
    (hnamed : sealed.named = some named) :
    (run.sealAsks asks host).2.changed = false
      ∧ (run.sealAsks asks host).2.last = some named := by
  rcases sealAsks_cases run asks host with ⟨what, -, heq⟩ | ⟨build, -, heq⟩
  · rw [heq] at hok
    cases hok
  · rw [heq] at hok ⊢
    obtain ⟨unmet, met, latched, -, -, -, -, hsealed⟩ := sealBuild_named hok hnamed
    rcases sealNamed_cases run.buffers latched with ⟨last, hchanged, hlast, hresult⟩ | ⟨-, hresult⟩
    · rw [hresult] at hsealed
      obtain ⟨hfirst, hafter⟩ := Prod.mk.inj hsealed
      rw [← hfirst] at hnamed
      rw [← hafter]
      exact ⟨hchanged, hlast.trans hnamed⟩
    · rw [hresult] at hsealed
      obtain ⟨hfirst, hafter⟩ := Prod.mk.inj hsealed
      rw [← hfirst] at hnamed
      rw [← hafter]
      exact ⟨rfl, hnamed⟩

/-- The step of a seal that names a set. -/
theorem step_sealed {asks : List Ask} {host : HostAnswers} {sealed : Sealed}
    {named : NamedVersions} (hok : (run.sealAsks asks host).1 = .ok sealed)
    (hnamed : sealed.named = some named) :
    run.step (.sealBuild asks host) = some { run with
      set := (run.sealAsks asks host).2, sealed := named :: run.sealed } := by
  rcases sealed with ⟨_, pending, error⟩
  cases hnamed
  unfold step
  dsimp only
  cases hresult : run.sealAsks asks host with
  | mk result after =>
    rw [hresult] at hok
    cases hok
    rfl

/-- A live buffer that the build asks for is nameable after a seal that names a set, and its newest
version meets what was asked. -/
theorem sealAsks_met {asks : List Ask} {host : HostAnswers} {sealed : Sealed}
    {named : NamedVersions} {i : Nat} {required : GrowableRequirement}
    (hheld : ∀ i, Held (run.sealAsks asks host).2 i)
    (hok : (run.sealAsks asks host).1 = .ok sealed) (hnamed : sealed.named = some named)
    (hasked : required.units ≠ 0 ∨ required.newerThan ≠ 0)
    (hmore : ∀ build, Build.after {} asks = .ok build → AsksMore required (build.requiredAt i))
    (hlive : lock run.buffers ((run.sealAsks asks host).2.slot i).buffer ≠ none) :
    nameable ((run.sealAsks asks host).2.slot i) = true
      ∧ required.units ≤ ((run.sealAsks asks host).2.slot i).current.units
      ∧ required.newerThan < ((run.sealAsks asks host).2.slot i).current.serial := by
  rcases sealAsks_cases run asks host with ⟨what, -, heq⟩ | ⟨build, hbuild, heq⟩
  · rw [heq] at hok
    cases hok
  · have hasks : AsksMore required (build.requiredAt i) := hmore build hbuild
    unfold AsksMore at hasks
    rw [heq] at hok hlive hheld ⊢
    have hsame := (sealBuild_both run.buffers host build run.set).1.sameSlots
    obtain ⟨unmet, met, latched, hunmet, hdead, -, -, -⟩ := sealBuild_named hok hnamed
    obtain ⟨hrequired, hunfilled⟩ := unmet_spec hunmet
    have hslot := hsame.slot i
    obtain ⟨hsome, hmeets⟩ := hrequired i (by omega)
    have hlocked : lock run.buffers ((run.set.takeRegistered run.buffers).slot i).buffer
        ≠ none := by
      rw [hslot] at hlive
      exact hlive
    have hnotin : i ∉ unmet := fun hmem => hdead i hmem ⟨hsome, hlocked⟩
    have hmetBy := hmeets.resolve_left hnotin
    unfold GrowableRequirement.metBy at hmetBy
    obtain ⟨hunits, hserial⟩ := Bool.and_eq_true_iff.mp hmetBy
    have hunits := of_decide_eq_true hunits
    have hserial := of_decide_eq_true hserial
    have hfilled : unfilled run.buffers ((run.set.takeRegistered run.buffers).slot i) = false :=
      Bool.eq_false_iff.mpr fun h => hnotin (hunfilled i h)
    have hversion : ((run.set.takeRegistered run.buffers).slot i).current.version.isSome
        = true := by
      have hslotHeld := hheld i
      unfold Held at hslotHeld
      rw [hslot] at hslotHeld
      rcases hslotHeld with hempty | ⟨⟨registration, -, hreads⟩, -⟩
      · have hempty : ((run.set.takeRegistered run.buffers).slot i).current = {} := hempty
        rw [hempty] at hserial
        exact absurd hserial (Nat.not_lt_zero _)
      · obtain ⟨version, hversion, -⟩ := hreads.version
        have hversion : ((run.set.takeRegistered run.buffers).slot i).current.version
            = some version := hversion
        rw [hversion]
        rfl
    rw [hslot]
    refine ⟨?_, ?_, ?_⟩
    · obtain ⟨registration, hregistration⟩ := Option.ne_none_iff_exists'.mp hsome
      unfold unfilled at hfilled
      unfold nameable
      rw [hregistration] at hfilled
      dsimp only at hfilled ⊢
      rw [hregistration]
      rw [Option.isSome_iff_ne_none.mpr hlocked, Bool.and_true] at hfilled
      rw [hversion]
      dsimp only
      rw [hfilled]
      rfl
    · exact Nat.le_trans hasks.1 hunits
    · exact Nat.lt_of_le_of_lt hasks.2 hserial

/-- **A sealed set meets its build.** In every state of a run, with registrations, expiring buffers,
settled and failed batches, shrinks and adoptions in any order before it: a seal that names a set
answers everything its build asked of a buffer that lives, with the newest version of each handle,
whether it made the set or returned the one before. -/
theorem sealed_meets (h : Run.Reachable step (init hooks) run) {asks : List Ask}
    {host : HostAnswers} {sealed : Sealed} {named : NamedVersions}
    (hok : (run.sealAsks asks host).1 = .ok sealed) (hnamed : sealed.named = some named) :
    Answers run.buffers asks (run.sealAsks asks host).2 named := by
  obtain ⟨hdown, hlast⟩ := sealAsks_named hok hnamed
  have hnext : Run.Reachable step (init hooks) { run with
      set := (run.sealAsks asks host).2, sealed := named :: run.sealed } :=
    .next h trivial (step_sealed hok hnamed)
  obtain ⟨last, hsame, hshows⟩ := (coherent_reachable hnext).1 hdown
  have hshows : Shows run.buffers (run.sealAsks asks host).2 named := by
    have heq : some named = some last := hlast.symm.trans hsame
    cases heq
    exact hshows
  have hsound := (account_reachable hnext).1
  have hheld (i : Nat) : Held (run.sealAsks asks host).2 i := hsound.held i
  have hentry {i : Nat} {entry : NamedEntry} (hof : named.of i = .ok entry) :
      nameable ((run.sealAsks asks host).2.slot i) = true
        ∧ entry = ((run.sealAsks asks host).2.slot i).current := by
    obtain ⟨heq, hsome⟩ := of_ok hof
    rw [hshows.entry] at heq
    by_cases hnameable : nameable ((run.sealAsks asks host).2.slot i) = true
    · rw [if_pos hnameable] at heq
      exact ⟨hnameable, heq.symm⟩
    · rw [if_neg hnameable] at heq
      rw [← heq] at hsome
      exact absurd rfl hsome
  have hnames {i : Nat} (hnameable : nameable ((run.sealAsks asks host).2.slot i) = true) :
      named.names i = true := by
    unfold NamedVersions.names
    rw [hshows.entry, if_pos hnameable]
    unfold nameable at hnameable
    split at hnameable
    · exact (Bool.and_eq_true_iff.mp hnameable).1
    · cases hnameable
  have hmet {i : Nat} (required : GrowableRequirement)
      (hasked : required.units ≠ 0 ∨ required.newerThan ≠ 0)
      (hmore : ∀ build, Build.after {} asks = .ok build → AsksMore required (build.requiredAt i))
      (hlive : lock run.buffers ((run.sealAsks asks host).2.slot i).buffer ≠ none) :
      named.of i = .ok ((run.sealAsks asks host).2.slot i).current
        ∧ required.units ≤ ((run.sealAsks asks host).2.slot i).current.units
        ∧ required.newerThan < ((run.sealAsks asks host).2.slot i).current.serial := by
    obtain ⟨hnameable, hunits, hserial⟩ := sealAsks_met hheld hok hnamed hasked hmore hlive
    have hof := of_names (hnames hnameable)
    rw [hshows.entry, if_pos hnameable] at hof
    exact ⟨hof, hunits, hserial⟩
  refine ⟨fun handle units hmem hpos hlive => ?_, fun handle serial hmem hpos hlive => ?_,
    fun handle entry hof => ?_, fun handle entry registration hof hregistration hzero => ?_,
    fun handle held hnamed' hlock => ?_⟩
  · obtain ⟨hof, hunits, -⟩ := hmet { units } (Or.inl (Nat.ne_of_gt hpos))
      (fun build hbuild => ⟨(after_asks asks hbuild).2.1 handle units hmem, Nat.zero_le _⟩) hlive
    exact ⟨_, hof, hunits⟩
  · obtain ⟨hof, -, hserial⟩ := hmet { newerThan := serial }
      (Or.inr (Nat.ne_of_gt hpos))
      (fun build hbuild => ⟨Nat.zero_le _, (after_asks asks hbuild).2.2 handle serial hmem⟩) hlive
    exact ⟨_, hof, hserial⟩
  · obtain ⟨-, heq⟩ := hentry hof
    obtain ⟨-, hsome⟩ := of_ok hof
    rw [heq] at hsome ⊢
    refine ⟨rfl, ?_⟩
    rcases hheld handle with hempty | ⟨⟨registration, hregistration, hreads⟩, -⟩
    · rw [hempty] at hsome
      exact absurd rfl hsome
    · obtain ⟨version, hversion, hbytes, hunits⟩ := hreads.version
      exact ⟨registration, version, hregistration, hversion, hbytes, hunits⟩
  · obtain ⟨hnameable, heq⟩ := hentry hof
    obtain ⟨-, hsome⟩ := of_ok hof
    have hmade : ((run.sealAsks asks host).2.slot handle).made = true := by
      unfold nameable at hnameable
      rw [hregistration] at hnameable
      have hnot := (Bool.and_eq_true_iff.mp hnameable).2
      rw [hzero] at hnot
      simpa using hnot
    rcases hheld handle with hempty | ⟨-, hin⟩
    · rw [heq, hempty] at hsome
      exact absurd rfl hsome
    · rw [hmade, ← heq] at hin
      exact hin
  · have hnameable : nameable ((run.sealAsks asks host).2.slot handle) = true :=
      (hentry (of_names hnamed')).1
    obtain ⟨least, hfind, hmem, hle⟩ := find_sorted hshows.sorted
      (hshows.keyed handle held hnameable hlock)
    refine ⟨least, ?_, hle, hnames (hshows.inTable _ _ hmem), ?_⟩
    · unfold NamedVersions.indexOf
      rw [hfind]
      exact if_pos rfl
    · exact hshows.same _ _ _ hmem (hshows.keyed handle held hnameable hlock)

/-- The grown buffer's set holds what was asked. -/
theorem sealed_meets_grown :
    ∃ run named entry, Run.Reachable step (init { pool := some 1 }) run
      ∧ named.of 0 = .ok entry ∧ 5 ≤ entry.units
      ∧ (run.sealAsks [.units 0 5] {}).2.last = some named := by
  have h : (Run.exec step (init { pool := some 1 }) growTrace.dropLast).any (fun run =>
      (lock run.buffers ((run.sealAsks [.units 0 5] {}).2.slot 0).buffer).isSome
        && (run.sealAsks [.units 0 5] {}).1.toOption.any fun sealed => sealed.named.isSome)
      = true := by
    decide +kernel
  obtain ⟨run, hrun, hboth⟩ := (Option.any_eq_true _ _).mp h
  obtain ⟨hlive, hok⟩ := Bool.and_eq_true_iff.mp hboth
  obtain ⟨sealed, hsealed, hsome⟩ := (Option.any_eq_true _ _).mp hok
  obtain ⟨named, hnamed⟩ := Option.isSome_iff_exists.mp hsome
  have hreachable : Run.Reachable step (init { pool := some 1 }) run := Run.exec_reachable hrun
  have hok : (run.sealAsks [.units 0 5] {}).1 = .ok sealed := by
    cases hresult : (run.sealAsks [.units 0 5] {}).1 with
    | error what =>
      rw [hresult] at hsealed
      cases hsealed
    | ok sealed' =>
      rw [hresult] at hsealed
      cases hsealed
      rfl
  obtain ⟨entry, hof, hunits⟩ := (sealed_meets hreachable hok hnamed).units 0 5
    List.mem_cons_self (by decide) (Option.isSome_iff_ne_none.mp hlive)
  exact ⟨run, named, entry, hreachable, hof, hunits, (sealAsks_named hok hnamed).2⟩

end ModuleServices.Growth
