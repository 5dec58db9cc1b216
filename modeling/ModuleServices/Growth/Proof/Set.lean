import ModuleServices.Growth.Seal

/-!
# What the calls of a growable set change

Most of a seal changes only what is asked, the windows of the shrink policy and the batch (`Quiet`).
What a set names changes in few places: a registration is taken, a batch's versions become current,
an expired buffer leaves. Each of them raises the flag that has the next seal name anew.
-/

namespace ModuleServices.Growth

theorem getD_resize {α : Type} (entries : List α) (size : Nat) (fill : α) (i : Nat) :
    (resize entries size fill).getD i fill = entries.getD i fill := by
  unfold resize
  simp only [List.getD_eq_getElem?_getD, List.getElem?_append, List.getElem?_replicate]
  split
  · rfl
  next h =>
    rw [List.getElem?_eq_none (by omega)]
    split <;> rfl

theorem length_resize {α : Type} (entries : List α) (size : Nat) (fill : α) :
    (resize entries size fill).length = max entries.length size := by
  simp only [resize, List.length_append, List.length_replicate]
  omega

theorem getD_modify {α : Type} (entries : List α) (handle : Nat) (f : α → α) (fill : α) (i : Nat) :
    (entries.modify handle f).getD i fill
      = if i = handle ∧ i < entries.length then f (entries.getD i fill) else entries.getD i fill := by
  simp only [List.getD_eq_getElem?_getD, List.getElem?_modify]
  by_cases hlt : i < entries.length
  · rw [List.getElem?_eq_getElem hlt]
    by_cases heq : handle = i
    · simp [heq, hlt]
    · simp [heq, Ne.symm heq]
  · rw [List.getElem?_eq_none (by omega), if_neg (by omega)]
    simp

namespace GrowableBufferSet

variable {buffers : List VersionedBuffer} {host : HostAnswers} {build : Build}
  {set set' set'' : GrowableBufferSet} {handle : Nat}

/-! ## Slots -/

theorem slot_modifySlot (set : GrowableBufferSet) (handle : Nat) (f : Slot → Slot) (i : Nat) :
    (set.modifySlot handle f).slot i
      = if i = handle ∧ i < set.slots.length then f (set.slot i) else set.slot i :=
  getD_modify set.slots handle f {} i

theorem slot_modifySlot_self {f : Slot → Slot} (h : handle < set.slots.length) :
    (set.modifySlot handle f).slot handle = f (set.slot handle) := by
  rw [slot_modifySlot, if_pos ⟨rfl, h⟩]

theorem slot_modifySlot_ne {f : Slot → Slot} {i : Nat} (h : i ≠ handle) :
    (set.modifySlot handle f).slot i = set.slot i := by
  rw [slot_modifySlot, if_neg fun both => h both.1]

theorem slot_of_le (h : set.slots.length ≤ handle) : set.slot handle = {} := by
  unfold slot
  rw [List.getD_eq_getElem?_getD, List.getElem?_eq_none h]
  rfl

theorem lt_of_registration (h : (set.slot handle).registration ≠ none) :
    handle < set.slots.length := by
  by_contra hle
  rw [slot_of_le (by omega)] at h
  exact h rfl

@[simp] theorem length_modifySlot (f : Slot → Slot) :
    (set.modifySlot handle f).slots.length = set.slots.length :=
  List.length_modify ..

/-! ## What a seal changes before it names -/

/-- The slots' asks and windows, the batch and the failure apart, the sets are the same. -/
structure Quiet (set set' : GrowableBufferSet) : Prop where
  rest : set' = { set with slots := set'.slots, batch := set'.batch, failure := set'.failure }
  length : set'.slots.length = set.slots.length
  slot (i : Nat) : set'.slot i
    = { set.slot i with asked := (set'.slot i).asked, window := (set'.slot i).window }

namespace Quiet

theorem refl (set : GrowableBufferSet) : Quiet set set := ⟨rfl, rfl, fun _ => rfl⟩

theorem trans (h : Quiet set set') (h' : Quiet set' set'') : Quiet set set'' where
  rest := by
    have hrest := h'.rest
    rw [h.rest] at hrest
    exact hrest
  length := h'.length.trans h.length
  slot i := by
    have hslot := h'.slot i
    rw [h.slot i] at hslot
    exact hslot

variable (h : Quiet set set')
include h

theorem changed : set'.changed = set.changed := by rw [h.rest]
theorem last : set'.last = set.last := by rw [h.rest]
theorem hooks : set'.hooks = set.hooks := by rw [h.rest]
theorem serials : set'.serials = set.serials := by rw [h.rest]
theorem blocks : set'.blocks = set.blocks := by rw [h.rest]
theorem entered : set'.entered = set.entered := by rw [h.rest]
theorem handles : set'.handles = set.handles := by rw [h.rest]
theorem latchSlots : set'.latchSlots = set.latchSlots := by rw [h.rest]
theorem registered : set'.registered = set.registered := by rw [h.rest]
theorem nextHandle : set'.nextHandle = set.nextHandle := by rw [h.rest]

theorem current (i : Nat) : (set'.slot i).current = (set.slot i).current := by
  rw [h.slot i]
theorem registration (i : Nat) : (set'.slot i).registration = (set.slot i).registration := by
  rw [h.slot i]
theorem buffer (i : Nat) : (set'.slot i).buffer = (set.slot i).buffer := by
  rw [h.slot i]
theorem made (i : Nat) : (set'.slot i).made = (set.slot i).made := by
  rw [h.slot i]

theorem nameable (i : Nat) : nameable (set'.slot i) = nameable (set.slot i) := by
  rw [h.slot i]
  rfl

end Quiet

/-- A change of one slot's ask or window. -/
theorem quiet_modifySlot {f : Slot → Slot}
    (hf : ∀ slot, f slot = { slot with asked := (f slot).asked, window := (f slot).window }) :
    Quiet set (set.modifySlot handle f) where
  rest := rfl
  length := length_modifySlot f
  slot i := by
    rw [slot_modifySlot]
    split
    · exact hf _
    · rfl

/-- Only windows, and the failure, differ. -/
structure Windowed (set set' : GrowableBufferSet) : Prop extends Quiet set set' where
  batch : set'.batch = set.batch
  asked (i : Nat) : (set'.slot i).asked = (set.slot i).asked

theorem Windowed.refl (set : GrowableBufferSet) : Windowed set set :=
  ⟨Quiet.refl set, rfl, fun _ => rfl⟩

theorem Windowed.trans (h : Windowed set set') (h' : Windowed set' set'') : Windowed set set'' :=
  ⟨h.toQuiet.trans h'.toQuiet, h'.batch.trans h.batch, fun i => (h'.asked i).trans (h.asked i)⟩

theorem windowed_failure (set : GrowableBufferSet) (failure : String) :
    Windowed set { set with failure } := ⟨⟨rfl, rfl, fun _ => rfl⟩, rfl, fun _ => rfl⟩

theorem windowed_modifySlot (set : GrowableBufferSet) (handle : Nat)
    (window : Slot → ShrinkWindow) :
    Windowed set (set.modifySlot handle fun slot => { slot with window := window slot }) where
  toQuiet := quiet_modifySlot fun _ => rfl
  batch := rfl
  asked i := by
    rw [slot_modifySlot]
    split <;> rfl

theorem growthAsks_windowed (build : Build) (unmet : List Nat) : ∀ set,
    Windowed set (growthAsks build unmet set).2 := by
  induction unmet with
  | nil => exact fun set => Windowed.refl set
  | cons handle rest ih =>
    intro set
    have hreset := windowed_modifySlot set handle fun slot => slot.window.reset
    have hrest := hreset.trans (ih _)
    unfold growthAsks
    dsimp only
    split
    · exact hreset
    · split
      next heq => rw [heq] at hrest; exact hrest
      next heq => rw [heq] at hrest; exact hrest

theorem observe_windowed (host : HostAnswers) (build : Build) (handles : List Nat) : ∀ set,
    Windowed set (observe host build handles set).2 := by
  induction handles with
  | nil => exact fun set => Windowed.refl set
  | cons handle rest ih =>
    intro set
    unfold observe
    dsimp only
    split
    · exact ih set
    · split
      · exact ih set
      · split
        · exact windowed_modifySlot set handle fun slot => slot.window.count _ host.now
        next target window hobserve =>
          have hrest := (windowed_modifySlot set handle fun _ => window).trans (ih _)
          split
          next heq => rw [heq] at hrest; exact hrest
          next heq => rw [heq] at hrest; exact hrest

theorem postAsks_quiet (buffers : List VersionedBuffer) (host : HostAnswers)
    (asks : List (Nat × Nat)) : ∀ posting : Posting,
    Quiet posting.set (postAsks buffers host asks posting).2.set := by
  induction asks with
  | nil => exact fun posting => Quiet.refl posting.set
  | cons ask rest ih =>
    intro posting
    unfold postAsks
    dsimp only
    split
    · split
      · exact Quiet.refl posting.set
      next request hrequest =>
        have hasked : Quiet posting.set (posting.set.modifySlot ask.1 fun slot =>
            { slot with asked := ask.2 }) := quiet_modifySlot fun _ => rfl
        exact hasked.trans (ih (posting.add ask.1 ask.2 request))
    · exact ih posting

theorem clear_quiet (asks : List (Nat × Nat)) : ∀ set : GrowableBufferSet,
    Quiet set (asks.foldl (fun set ask =>
      set.modifySlot ask.1 fun slot => { slot with asked := 0 }) set) := by
  induction asks with
  | nil => exact fun set => Quiet.refl set
  | cons ask rest ih =>
    intro set
    have hclear : Quiet set (set.modifySlot ask.1 fun slot => { slot with asked := 0 }) :=
      quiet_modifySlot fun _ => rfl
    exact hclear.trans (ih _)

theorem quiet_batch (set : GrowableBufferSet) (batch : Option Batch) (failure : String) :
    Quiet set { set with batch, failure } := ⟨rfl, rfl, fun _ => rfl⟩

theorem post_quiet (buffers : List VersionedBuffer) (host : HostAnswers)
    (set : GrowableBufferSet) (asks : List (Nat × Nat)) :
    Quiet set (set.post buffers host asks).2 := by
  have hasks := postAsks_quiet buffers host asks { set }
  unfold post
  split
  next heq => rw [heq] at hasks; exact hasks
  next posting heq =>
    rw [heq] at hasks
    split
    · exact hasks
    · split
      · exact hasks.trans (quiet_batch _ _ _)
      · exact hasks.trans (quiet_batch _ _ _)
      · exact (hasks.trans (clear_quiet _ _)).trans (quiet_batch _ _ _)

theorem shrink_quiet (buffers : List VersionedBuffer) (host : HostAnswers) (build : Build)
    (set : GrowableBufferSet) : Quiet set (set.shrink buffers host build).2 := by
  have hobserve := observe_windowed host build
    (List.range (min build.required.length set.slots.length)) set
  unfold shrink
  split
  · exact Quiet.refl set
  · split
    next heq => rw [heq] at hobserve; exact hobserve.toQuiet
    next heq => rw [heq] at hobserve; exact hobserve.toQuiet
    next shrinks observed _ heq =>
      rw [heq] at hobserve
      have hpost := hobserve.toQuiet.trans (post_quiet buffers host observed shrinks)
      split
      next heq' => rw [heq'] at hpost; exact hpost
      next heq' => rw [heq'] at hpost; exact hpost
      next heq' => rw [heq'] at hpost; exact hpost.trans (quiet_batch _ _ _)

/-! ## Latches -/

/-- The sets are the same but for their latch blocks; a block made is counted and raises the
flag. -/
structure Latched (set set' : GrowableBufferSet) : Prop where
  rest : set' = { set with
    latchSlots := set'.latchSlots, blocks := set'.blocks, changed := set'.changed }
  same : set'.changed = false → set' = set
  le : set.blocks ≤ set'.blocks
  made : set'.blocks = set.blocks → set' = set

theorem Latched.refl (set : GrowableBufferSet) : Latched set set :=
  ⟨rfl, fun _ => rfl, Nat.le_refl _, fun _ => rfl⟩

theorem makeLatch_latched {ask : LatchAsk} (h : makeLatch host set handle ask = .ok set') :
    Latched set set' := by
  unfold makeLatch at h
  split at h
  · cases h
    exact Latched.refl set
  · dsimp only at h
    split at h
    · cases h
    · split at h
      · cases h
        exact Latched.refl set
      · split at h
        · cases h
        · cases h
          exact ⟨rfl, fun hchanged => Bool.noConfusion hchanged, Nat.le_succ _,
            fun hblocks => absurd hblocks (Nat.succ_ne_self _)⟩

theorem Latched.trans (h : Latched set set') (h' : Latched set' set'') : Latched set set'' where
  rest := by
    have hrest := h'.rest
    rw [h.rest] at hrest
    exact hrest
  same hchanged := by
    have heq := h'.same hchanged
    rw [heq] at hchanged ⊢
    exact h.same hchanged
  le := Nat.le_trans h.le h'.le
  made hblocks := by
    have hle := h.le
    have hle' := h'.le
    rw [h'.made (by omega), h.made (by omega)]

theorem makeLatches_latched (host : HostAnswers) (asks : List (LatchAsk × Nat)) : ∀ set,
    Latched set (makeLatches host asks set).2 := by
  induction asks with
  | nil => exact fun set => Latched.refl set
  | cons ask rest ih =>
    intro set
    unfold makeLatches
    split
    · exact Latched.refl set
    next made hmade => exact (makeLatch_latched hmade).trans (ih made)

/-! ## Registrations taken -/

/-- The handle of a buffer's node. -/
def bufferHandle : Registered → Option Nat
  | .buffer index _ _ _ => some index
  | .latch _ _ => none

/-- The entry a registration's slot is given: its owner's version, while it lives. -/
def firstEntry (buffers : List VersionedBuffer) (set : GrowableBufferSet)
    (registration : GrowableRegistration) (versioned : Nat) (held : NamedEntry) : NamedEntry :=
  match lock buffers versioned with
  | none => held
  | some buffer => (buffer.current.map (set.entryOf registration · none none)).getD {}

theorem length_enter {registration : GrowableRegistration} {version : Option BufferVersion}
    {stamp lease : Option Nat} {grown : Bool} :
    (set.enter handle registration version stamp lease grown).slots.length = set.slots.length := by
  unfold enter
  cases version <;> exact length_modifySlot _

theorem enter_slot {registration : GrowableRegistration} {version : Option BufferVersion}
    {stamp lease : Option Nat} {grown : Bool} (h : handle < set.slots.length) (i : Nat) :
    (set.enter handle registration version stamp lease grown).slot i
      = if i = handle then
          { set.slot i with current :=
            (version.map (set.entryOf registration · stamp lease)).getD {} }
        else set.slot i := by
  have hmodify (entry : NamedEntry) : (set.modifySlot handle fun slot =>
      { slot with current := entry }).slot i
        = if i = handle then { set.slot i with current := entry } else set.slot i := by
    rw [slot_modifySlot]
    by_cases heq : i = handle
    · rw [if_pos heq, if_pos ⟨heq, by omega⟩]
    · rw [if_neg heq, if_neg fun both => heq both.1]
  unfold enter
  cases version with
  | none => exact hmodify {}
  | some version => exact hmodify (set.entryOf registration version stamp lease)

theorem lt_length_place {registration : GrowableRegistration} {versioned key : Nat} :
    handle < (set.place handle registration versioned key).slots.length := by
  unfold place
  rw [List.length_modify, length_resize]
  omega

theorem place_slot (set : GrowableBufferSet) (handle : Nat) (registration : GrowableRegistration)
    (versioned key i : Nat) :
    (set.place handle registration versioned key).slot i
      = if i = handle then
          { set.slot i with
            registration := some registration, buffer := versioned, key, made := false }
        else set.slot i := by
  unfold place slot
  rw [getD_modify, getD_resize]
  by_cases heq : i = handle
  · rw [if_pos heq, if_pos]
    refine ⟨heq, ?_⟩
    rw [length_resize]
    omega
  · rw [if_neg heq, if_neg fun both => heq both.1]

theorem take_slot (buffers : List VersionedBuffer) (set : GrowableBufferSet) (handle : Nat)
    (registration : GrowableRegistration) (versioned key i : Nat) :
    (take buffers set (.buffer handle registration versioned key)).slot i
      = if i = handle then
          { set.slot i with
            registration := some registration, buffer := versioned, key, made := false
            current := firstEntry buffers set registration versioned (set.slot i).current }
        else set.slot i := by
  have hplaced := place_slot set handle registration versioned key i
  unfold take firstEntry
  dsimp only
  cases lock buffers versioned with
  | none => exact hplaced
  | some buffer =>
    refine (enter_slot lt_length_place i).trans ?_
    rw [hplaced]
    by_cases heq : i = handle
    · rw [if_pos heq, if_pos heq, if_pos heq]
      rfl
    · rw [if_neg heq, if_neg heq, if_neg heq]

/-- What taking a node leaves alone. -/
structure Took (set set' : GrowableBufferSet) : Prop where
  hooks : set'.hooks = set.hooks
  registered : set'.registered = set.registered
  nextHandle : set'.nextHandle = set.nextHandle
  batch : set'.batch = set.batch
  last : set'.last = set.last
  changed : set'.changed = true
  serials : set.serials ≤ set'.serials
  entered : ∀ made ∈ set.entered, made ∈ set'.entered
  asked (i : Nat) : (set'.slot i).asked = (set.slot i).asked

theorem enter_fields (registration : GrowableRegistration) (version : Option BufferVersion)
    (stamp lease : Option Nat) (grown : Bool) (set : GrowableBufferSet) (handle : Nat) :
    ∃ slots serials entered, set.enter handle registration version stamp lease grown
      = { set with slots, serials, entered } ∧ set.serials ≤ serials
        ∧ ∀ made ∈ set.entered, made ∈ entered := by
  unfold enter
  cases version with
  | none => exact ⟨_, _, _, rfl, Nat.le_refl _, fun _ h => h⟩
  | some version => exact ⟨_, _, _, rfl, Nat.le_succ _, fun _ h => List.mem_cons_of_mem _ h⟩

theorem take_took (node : Registered) : Took set (take buffers set node) := by
  cases node with
  | latch index registration =>
    exact ⟨rfl, rfl, rfl, rfl, rfl, rfl, Nat.le_refl _, fun _ h => h, fun _ => rfl⟩
  | buffer index registration versioned key =>
    have hasked (i : Nat) : ((take buffers set (.buffer index registration versioned key)).slot
        i).asked = (set.slot i).asked := by
      rw [take_slot]
      split <;> rfl
    unfold take at hasked ⊢
    dsimp only at hasked ⊢
    cases hlock : lock buffers versioned with
    | none =>
      rw [hlock] at hasked
      exact ⟨rfl, rfl, rfl, rfl, rfl, rfl, Nat.le_refl _, fun _ h => h, hasked⟩
    | some buffer =>
      obtain ⟨slots, serials, entered, heq, hle, hmore⟩ := enter_fields registration buffer.current none
        none false (set.place index registration versioned key) index
      rw [hlock] at hasked
      simp only [heq] at hasked ⊢
      exact ⟨rfl, rfl, rfl, rfl, rfl, rfl, hle, hmore, hasked⟩

/-- What holds of the nodes and the set, and is kept as nodes are taken, holds of none and the set
they were taken into. -/
theorem takeRegistered_induction (buffers : List VersionedBuffer) (set : GrowableBufferSet)
    (P : List Registered → GrowableBufferSet → Prop)
    (h : P set.registered { set with registered := [] })
    (hstep : ∀ node rest set, P (node :: rest) set → P rest (take buffers set node)) :
    P [] (set.takeRegistered buffers) := by
  have hfold : ∀ nodes set, P nodes set → P [] (nodes.foldl (take buffers) set) := by
    intro nodes
    induction nodes with
    | nil => exact fun set h => h
    | cons node rest ih => exact fun set h => ih _ (hstep node rest set h)
  exact hfold _ _ h

theorem takeRegistered_nil (h : set.registered = []) : set.takeRegistered buffers = set := by
  unfold takeRegistered
  rw [h]
  show { set with registered := [] } = set
  rw [← h]

/-- Taking changes nothing, or raises the flag. -/
theorem takeRegistered_changed (buffers : List VersionedBuffer) (set : GrowableBufferSet) :
    set.takeRegistered buffers = set ∨ (set.takeRegistered buffers).changed = true := by
  by_cases hnil : set.registered = []
  · exact Or.inl (takeRegistered_nil hnil)
  · refine Or.inr ?_
    have hflag := takeRegistered_induction buffers set
      (fun nodes set => nodes = [] → set.changed = true) (fun hnodes => absurd hnodes hnil)
      (fun node rest set _ _ => (take_took node).changed)
    exact hflag rfl

theorem takeRegistered_fields (buffers : List VersionedBuffer) (set : GrowableBufferSet) :
    (set.takeRegistered buffers).batch = set.batch
    ∧ (set.takeRegistered buffers).last = set.last
    ∧ (set.takeRegistered buffers).registered = []
    ∧ set.serials ≤ (set.takeRegistered buffers).serials
    ∧ (∀ made ∈ set.entered, made ∈ (set.takeRegistered buffers).entered)
    ∧ ∀ i, ((set.takeRegistered buffers).slot i).asked = (set.slot i).asked := by
  refine takeRegistered_induction buffers set
    (fun _ after => after.batch = set.batch ∧ after.last = set.last ∧ after.registered = []
      ∧ set.serials ≤ after.serials ∧ (∀ made ∈ set.entered, made ∈ after.entered)
      ∧ ∀ i, (after.slot i).asked = (set.slot i).asked)
    ⟨rfl, rfl, rfl, Nat.le_refl _, fun _ h => h, fun _ => rfl⟩ ?_
  intro node rest after ⟨hbatch, hlast, hregistered, hserials, hentered, hasked⟩
  have took : Took after (take buffers after node) := take_took node
  exact ⟨took.batch.trans hbatch, took.last.trans hlast, took.registered.trans hregistered,
    Nat.le_trans hserials took.serials, fun made hmem => took.entered made (hentered made hmem),
    fun i => (took.asked i).trans (hasked i)⟩

/-! ## A settled batch -/

/-- What settling one request leaves alone. -/
structure Settled (set set' : GrowableBufferSet) : Prop where
  hooks : set'.hooks = set.hooks
  registered : set'.registered = set.registered
  nextHandle : set'.nextHandle = set.nextHandle
  batch : set'.batch = set.batch
  last : set'.last = set.last
  handles : set'.handles = set.handles
  latchSlots : set'.latchSlots = set.latchSlots
  serials : set.serials ≤ set'.serials
  entered : ∀ made ∈ set.entered, made ∈ set'.entered
  length : set'.slots.length = set.slots.length
  registration (i : Nat) : (set'.slot i).registration = (set.slot i).registration
  buffer (i : Nat) : (set'.slot i).buffer = (set.slot i).buffer

theorem Settled.trans (h : Settled set set') (h' : Settled set' set'') : Settled set set'' where
  hooks := h'.hooks.trans h.hooks
  registered := h'.registered.trans h.registered
  nextHandle := h'.nextHandle.trans h.nextHandle
  batch := h'.batch.trans h.batch
  last := h'.last.trans h.last
  handles := h'.handles.trans h.handles
  latchSlots := h'.latchSlots.trans h.latchSlots
  serials := Nat.le_trans h.serials h'.serials
  entered made hmem := h'.entered made (h.entered made hmem)
  length := h'.length.trans h.length
  registration i := (h'.registration i).trans (h.registration i)
  buffer i := (h'.buffer i).trans (h.buffer i)

theorem Quiet.settled (h : Quiet set set') (hbatch : set'.batch = set.batch) :
    Settled set set' where
  hooks := h.hooks
  registered := h.registered
  nextHandle := h.nextHandle
  batch := hbatch
  last := h.last
  handles := h.handles
  latchSlots := h.latchSlots
  serials := Nat.le_of_eq h.serials.symm
  entered made hmem := h.entered.symm ▸ hmem
  length := h.length
  registration := h.registration
  buffer := h.buffer

/-- The entry a request's slot is given. -/
def grownEntry (set : GrowableBufferSet) (batch : Batch) (versions : List BufferVersion)
    (leases : List Nat) (registration : GrowableRegistration) (place : Nat) : NamedEntry :=
  (versions[place]?.map
    (set.entryOf registration · (batch.stamps.getD place none) leases[place]?)).getD {}

/-- The slot of a request, once its version is current. -/
theorem settleSlot_ready {batch : Batch} {versions : List BufferVersion} {leases : List Nat}
    {request : (Nat × Nat) × Nat} {registration : GrowableRegistration}
    (hstate : batch.state = .ready versions leases)
    (hregistration : (set.slot request.1.1).registration = some registration) (i : Nat) :
    (settleSlot batch set request).slot i
      = if i = request.1.1 then
          { set.slot i with
            asked := 0, made := true
            current := grownEntry set batch versions leases registration request.2 }
        else set.slot i := by
  have hlt : request.1.1 < set.slots.length := by
    refine lt_of_registration ?_
    rw [hregistration]
    exact Option.some_ne_none _
  have hcleared : request.1.1 < (set.modifySlot request.1.1 fun slot =>
      { slot with asked := 0 }).slots.length := by
    rw [length_modifySlot]
    exact hlt
  unfold settleSlot
  simp only [hstate, hregistration]
  show (modifySlot _ _ _).slot i = _
  rw [slot_modifySlot, enter_slot hcleared, length_enter, slot_modifySlot, length_modifySlot]
  by_cases heq : i = request.1.1
  · have hboth : i = request.1.1 ∧ i < set.slots.length := ⟨heq, by omega⟩
    rw [if_pos hboth, if_pos hboth, if_pos heq, if_pos heq]
    rfl
  · have hnot : ¬(i = request.1.1 ∧ i < set.slots.length) := fun both => heq both.1
    rw [if_neg hnot, if_neg hnot, if_neg heq, if_neg heq]

/-- Where the batch failed, or the slot's buffer has left, only the ask is cleared. -/
theorem settleSlot_cleared {batch : Batch} {request : (Nat × Nat) × Nat}
    (h : (∀ versions leases, batch.state ≠ .ready versions leases)
      ∨ (set.slot request.1.1).registration = none) :
    settleSlot batch set request
      = set.modifySlot request.1.1 fun slot => { slot with asked := 0 } := by
  unfold settleSlot
  dsimp only
  split
  next versions leases hstate =>
    rcases h with hnot | hnone
    · exact absurd hstate (hnot versions leases)
    · rw [hnone]
  · rfl

theorem settleSlot_settled (batch : Batch) (set : GrowableBufferSet)
    (request : (Nat × Nat) × Nat) : Settled set (settleSlot batch set request) := by
  have hclear : Quiet set (set.modifySlot request.1.1 fun slot => { slot with asked := 0 }) :=
    quiet_modifySlot fun _ => rfl
  by_cases hcleared : (∀ versions leases, batch.state ≠ .ready versions leases)
      ∨ (set.slot request.1.1).registration = none
  · rw [settleSlot_cleared hcleared]
    exact hclear.settled rfl
  · obtain ⟨hready, hsome⟩ := not_or.mp hcleared
    obtain ⟨versions, hready⟩ := not_forall.mp hready
    obtain ⟨leases, hready⟩ := not_forall.mp hready
    have hstate := not_not.mp hready
    obtain ⟨registration, hregistration⟩ := Option.ne_none_iff_exists'.mp hsome
    have hslot := settleSlot_ready hstate hregistration
    have hregistrations (i : Nat) : ((settleSlot batch set request).slot i).registration
        = (set.slot i).registration := by
      rw [hslot i]
      split <;> rfl
    have hbuffers (i : Nat) : ((settleSlot batch set request).slot i).buffer
        = (set.slot i).buffer := by
      rw [hslot i]
      split <;> rfl
    obtain ⟨slots, serials, entered, heq, hle, hmore⟩ := enter_fields registration
      versions[request.2]? (batch.stamps.getD request.2 none) leases[request.2]? true
      (set.modifySlot request.1.1 fun slot => { slot with asked := 0 }) request.1.1
    have hlength : slots.length = set.slots.length := by
      have hentered := congrArg (fun set : GrowableBufferSet => set.slots.length) heq
      exact hentered.symm.trans (length_enter.trans (length_modifySlot _))
    unfold settleSlot at hregistrations hbuffers ⊢
    simp only [hstate, hregistration, heq] at hregistrations hbuffers ⊢
    exact ⟨rfl, rfl, rfl, rfl, rfl, rfl, rfl, hle, hmore, (List.length_modify ..).trans hlength,
      hregistrations, hbuffers⟩

/-- Settling a request clears its ask, or raises the flag. -/
theorem settleSlot_changed (batch : Batch) (set : GrowableBufferSet)
    (request : (Nat × Nat) × Nat) (h : (settleSlot batch set request).changed = false) :
    Quiet set (settleSlot batch set request) := by
  have hclear : Quiet set (set.modifySlot request.1.1 fun slot => { slot with asked := 0 }) :=
    quiet_modifySlot fun _ => rfl
  unfold settleSlot at h ⊢
  dsimp only at h ⊢
  split at h
  · split at h
    · exact Bool.noConfusion h
    · exact hclear
  · exact hclear

theorem settleSlots_changed (batch : Batch) (requests : List ((Nat × Nat) × Nat)) :
    ∀ set : GrowableBufferSet, (requests.foldl (settleSlot batch) set).changed = false →
      Quiet set (requests.foldl (settleSlot batch) set) := by
  induction requests with
  | nil => exact fun set _ => Quiet.refl set
  | cons request rest ih =>
    intro set h
    have hrest := ih (settleSlot batch set request) h
    exact (settleSlot_changed batch set request (hrest.changed.symm.trans h)).trans hrest

theorem settleSlots_settled (batch : Batch) (requests : List ((Nat × Nat) × Nat)) :
    ∀ set : GrowableBufferSet, Settled set (requests.foldl (settleSlot batch) set) := by
  induction requests with
  | nil => exact fun set => (Quiet.refl set).settled rfl
  | cons request rest ih =>
    exact fun set => (settleSlot_settled batch set request).trans (ih _)

/-- `Settle` does nothing, or settles every request of a batch that is no longer pending. -/
theorem settle_cases (set : GrowableBufferSet) :
    (set.settle = set ∧ ∀ batch, set.batch = some batch → batch.state = .pending)
      ∨ ∃ batch failure, set.batch = some batch ∧ batch.state ≠ .pending ∧ set.settle
          = { batch.asks.zipIdx.foldl (settleSlot batch) set with failure, batch := none } := by
  cases hbatch : set.batch with
  | none =>
    refine Or.inl ⟨?_, fun _ => nofun⟩
    unfold settle
    rw [hbatch]
  | some batch =>
    cases hstate : batch.state with
    | pending =>
      refine Or.inl ⟨?_, fun batch' heq => ?_⟩
      · unfold settle
        simp only [hbatch, hstate]
      · rw [← Option.some.inj heq]
        exact hstate
    | ready versions leases =>
      refine Or.inr ⟨batch, (batch.asks.zipIdx.foldl (settleSlot batch) set).failure, rfl, ?_, ?_⟩
      · rw [hstate]
        exact Batch.State.noConfusion
      · unfold settle
        simp only [hbatch, hstate]
    | failed error =>
      refine Or.inr ⟨batch, error, rfl, ?_, ?_⟩
      · rw [hstate]
        exact Batch.State.noConfusion
      · unfold settle
        simp only [hbatch, hstate]

theorem settle_quiet (h : set.settle.changed = false) : Quiet set set.settle := by
  rcases settle_cases set with ⟨heq, -⟩ | ⟨batch, failure, -, -, heq⟩
  · rw [heq]
    exact Quiet.refl set
  · rw [heq] at h ⊢
    exact (settleSlots_changed batch _ set h).trans (quiet_batch _ _ _)

/-! ## Expired buffers -/

theorem leave_slot (i : Nat) : (set.leave buffers).slot i
    = if expired buffers (set.slot i) then {} else set.slot i := by
  unfold leave slot
  simp only [List.getD_eq_getElem?_getD, List.getElem?_map]
  cases set.slots[i]? with
  | none => rfl
  | some slot => rfl

/-- Where no buffer has expired, nothing leaves. -/
theorem leave_same (h : ∀ i, expired buffers (set.slot i) = false) : set.leave buffers = set := by
  have hnone : ∀ slot ∈ set.slots, expired buffers slot = false := by
    intro slot hmem
    obtain ⟨i, hlt, heq⟩ := List.mem_iff_getElem.mp hmem
    have hslot := h i
    unfold GrowableBufferSet.slot at hslot
    rw [List.getD_eq_getElem?_getD, List.getElem?_eq_getElem hlt, heq] at hslot
    exact hslot
  have hslots : set.slots.map (fun slot => if expired buffers slot then {} else slot)
      = set.slots := by
    refine (List.map_congr_left fun slot hslot => ?_).trans (List.map_id _)
    rw [hnone slot hslot]
    rfl
  have hhandles : set.handles.filter (fun handle => !expired buffers (set.slot handle.2))
      = set.handles := by
    refine List.filter_eq_self.mpr fun handle _ => ?_
    rw [h handle.2]
    rfl
  have hany : set.slots.any (expired buffers) = false :=
    List.any_eq_false.mpr fun slot hmem => Bool.eq_false_iff.mp (hnone slot hmem)
  unfold leave
  rw [hslots, hhandles, hany, Bool.or_false]

theorem leave_changed (h : (set.leave buffers).changed = false) : set.leave buffers = set := by
  have hboth : (set.changed || set.slots.any (expired buffers)) = false := h
  have hany := List.any_eq_false.mp (Bool.or_eq_false_iff.mp hboth).2
  refine leave_same fun i => ?_
  by_cases hlt : i < set.slots.length
  · unfold slot
    rw [List.getD_eq_getElem?_getD, List.getElem?_eq_getElem hlt]
    exact Bool.eq_false_iff.mpr (hany _ (List.getElem_mem hlt))
  · rw [slot_of_le (by omega)]
    rfl

/-- A `Begin` that does not raise the flag changes no version. -/
theorem begin_quiet (h : (set.begin buffers).changed = false) : Quiet set (set.begin buffers) := by
  have hleave : (set.takeRegistered buffers).settle.leave buffers
      = (set.takeRegistered buffers).settle := leave_changed h
  have hbegin : set.begin buffers = (set.takeRegistered buffers).settle := hleave
  rw [hbegin] at h ⊢
  have hsettle := settle_quiet h
  rcases takeRegistered_changed buffers set with heq | hchanged
  · rw [heq] at hsettle ⊢
    exact hsettle
  · rw [hsettle.changed, hchanged] at h
    exact Bool.noConfusion h

/-! ## What a seal that names has found -/

theorem growthAsks_handles (unmet : List Nat) : ∀ set {asks : List (Nat × Nat)},
    (growthAsks build unmet set).1 = .ok asks → asks.map Prod.fst = unmet := by
  induction unmet with
  | nil =>
    intro set asks h
    cases h
    rfl
  | cons handle rest ih =>
    intro set asks h
    unfold growthAsks at h
    dsimp only at h
    split at h
    · cases h
    next units hunits =>
      split at h
      next more _ heq =>
        cases h
        have hrest := @ih (set.modifySlot handle fun slot =>
          { slot with window := slot.window.reset }) more (by rw [heq])
        rw [List.map_cons, hrest]
      · cases h

/-- An ask of a registered buffer that is live. -/
def Live (buffers : List VersionedBuffer) (set : GrowableBufferSet) (handle : Nat) : Prop :=
  (set.slot handle).registration ≠ none ∧ lock buffers (set.slot handle).buffer ≠ none

/-- What the loop of `Post` does with an ask. -/
theorem postAsks_cases (buffers : List VersionedBuffer) (host : HostAnswers) (ask : Nat × Nat) (rest : List (Nat × Nat)) (posting : Posting) :
    (¬Live buffers posting.set ask.1
        ∧ postAsks buffers host (ask :: rest) posting = postAsks buffers host rest posting)
      ∨ (∃ what, Live buffers posting.set ask.1
        ∧ postAsks buffers host (ask :: rest) posting = (some what, posting))
      ∨ ∃ registration request, (posting.set.slot ask.1).registration = some registration
        ∧ lock buffers (posting.set.slot ask.1).buffer ≠ none
        ∧ requestFor host (posting.set.slot ask.1) registration ask.1 ask.2 = .ok request
        ∧ postAsks buffers host (ask :: rest) posting
          = postAsks buffers host rest (posting.add ask.1 ask.2 request) := by
  have hsome {α : Type} {a : α} {o : Option α} (h : o = some a) : o ≠ none := by
    rw [h]
    exact Option.some_ne_none a
  cases hlock : lock buffers (posting.set.slot ask.1).buffer with
  | none =>
    refine Or.inl ⟨fun live => live.2 hlock, ?_⟩
    simp only [postAsks, hlock]
  | some buffer =>
    cases hregistration : (posting.set.slot ask.1).registration with
    | none =>
      refine Or.inl ⟨fun live => live.1 hregistration, ?_⟩
      simp only [postAsks, hlock, hregistration]
    | some registration =>
      cases hrequest : requestFor host (posting.set.slot ask.1) registration ask.1 ask.2 with
      | error what =>
        refine Or.inr (Or.inl ⟨what, ⟨hsome hregistration, hsome hlock⟩, ?_⟩)
        simp only [postAsks, hlock, hregistration, hrequest]
      | ok request =>
        refine Or.inr (Or.inr ⟨registration, request, rfl, Option.some_ne_none buffer,
          hrequest, ?_⟩)
        simp only [postAsks, hlock, hregistration, hrequest]

/-- What the asks make of a slot's ask. -/
def askedOf (asks : List (Nat × Nat)) (i : Nat) (held : Nat) : Nat :=
  ((asks.find? fun ask => ask.1 == i).map (·.2)).getD held

theorem askedOf_cons (ask : Nat × Nat) (asks : List (Nat × Nat)) (i held : Nat) :
    askedOf (ask :: asks) i held = if ask.1 = i then ask.2 else askedOf asks i held := by
  unfold askedOf
  rw [List.find?_cons]
  by_cases heq : ask.1 = i
  · simp [heq]
  · rw [beq_false_of_ne heq, if_neg heq]

theorem askedOf_of_not_mem {asks : List (Nat × Nat)} {i held : Nat}
    (h : i ∉ asks.map Prod.fst) : askedOf asks i held = held := by
  unfold askedOf
  rw [List.find?_eq_none.mpr]
  · rfl
  · intro ask hmem heq
    exact h (List.mem_map.mpr ⟨ask, hmem, beq_iff_eq.mp heq⟩)

/-- What the loop of `Post` adds to what was done. -/
structure Added (buffers : List VersionedBuffer) (asks : List (Nat × Nat))
    (posting posting' : Posting) (added : List (Nat × Nat)) : Prop where
  added_eq : posting'.asks = posting.asks ++ added
  sublist : added.Sublist asks
  requests : ∃ more, posting'.requests = posting.requests ++ more ∧ more.length = added.length
  live : ∀ ask ∈ added, Live buffers posting.set ask.1
  batch : posting'.set.batch = posting.set.batch
  asked : (asks.map Prod.fst).Nodup → ∀ i,
    (posting'.set.slot i).asked = askedOf added i (posting.set.slot i).asked

theorem Posting.add_asked {posting : Posting} {ask : Nat × Nat} {request : GrowthRequest}
    (h : (posting.set.slot ask.1).registration ≠ none) (i : Nat) :
    ((posting.add ask.1 ask.2 request).set.slot i).asked
      = if ask.1 = i then ask.2 else (posting.set.slot i).asked := by
  unfold Posting.add
  rw [slot_modifySlot]
  by_cases heq : ask.1 = i
  · rw [if_pos heq, if_pos ⟨heq.symm, heq ▸ lt_of_registration h⟩]
  · rw [if_neg heq, if_neg fun both => heq both.1.symm]

theorem postAsks_added (buffers : List VersionedBuffer) (host : HostAnswers)
    (asks : List (Nat × Nat)) : ∀ posting : Posting,
    ∃ added, Added buffers asks posting (postAsks buffers host asks posting).2 added := by
  induction asks with
  | nil =>
    exact fun posting => ⟨[], (List.append_nil _).symm, List.nil_sublist _,
      ⟨[], (List.append_nil _).symm, rfl⟩, fun _ hmem => absurd hmem List.not_mem_nil, rfl,
      fun _ _ => rfl⟩
  | cons ask rest ih =>
    intro posting
    rcases postAsks_cases buffers host ask rest posting with
      ⟨-, heq⟩ | ⟨what, -, heq⟩ | ⟨registration, request, hregistration, hlock, -, heq⟩
    · obtain ⟨added, h⟩ := ih posting
      rw [heq]
      exact ⟨added, h.added_eq, h.sublist.cons ask, h.requests, h.live, h.batch,
        fun hnodup => h.asked (List.nodup_cons.mp hnodup).2⟩
    · rw [heq]
      exact ⟨[], (List.append_nil _).symm, List.nil_sublist _, ⟨[], (List.append_nil _).symm, rfl⟩,
        fun _ hmem => absurd hmem List.not_mem_nil, rfl, fun _ _ => rfl⟩
    · obtain ⟨added, h⟩ := ih (posting.add ask.1 ask.2 request)
      have hsome : (posting.set.slot ask.1).registration ≠ none := by
        rw [hregistration]
        exact Option.some_ne_none _
      have hadd : Quiet posting.set (posting.add ask.1 ask.2 request).set :=
        quiet_modifySlot fun _ => rfl
      rw [heq]
      refine ⟨ask :: added, ?_, h.sublist.cons₂ ask, ?_, ?_, h.batch, ?_⟩
      · rw [h.added_eq]
        exact List.append_assoc ..
      · obtain ⟨more, hmore, hlength⟩ := h.requests
        refine ⟨request :: more, ?_, ?_⟩
        · rw [hmore]
          exact List.append_assoc ..
        · rw [List.length_cons, List.length_cons, hlength]
      · intro ask' hmem
        rcases List.mem_cons.mp hmem with heq' | hmem
        · rw [heq']
          exact ⟨hsome, hlock⟩
        · have hlive := h.live ask' hmem
          unfold Live at hlive ⊢
          rw [hadd.registration, hadd.buffer] at hlive
          exact hlive
      · intro hnodup i
        obtain ⟨hfirst, hrest⟩ := List.nodup_cons.mp hnodup
        rw [h.asked hrest, Posting.add_asked hsome, askedOf_cons]
        by_cases heq' : ask.1 = i
        · rw [if_pos heq', if_pos heq']
          refine askedOf_of_not_mem fun hmem => hfirst ?_
          rw [heq']
          exact (h.sublist.map Prod.fst).subset hmem
        · rw [if_neg heq', if_neg heq']

/-- A loop that ends without a request has met no live buffer. -/
theorem postAsks_none (asks : List (Nat × Nat)) : ∀ posting : Posting,
    (postAsks buffers host asks posting).2.requests = [] →
    (postAsks buffers host asks posting).1 = none →
    ∀ ask ∈ asks, ¬Live buffers posting.set ask.1 := by
  induction asks with
  | nil => exact fun posting _ _ _ hmem => absurd hmem List.not_mem_nil
  | cons ask rest ih =>
    intro posting hrequests hnone
    rcases postAsks_cases buffers host ask rest posting with
      ⟨hdead, heq⟩ | ⟨what, -, heq⟩ | ⟨registration, request, -, -, -, heq⟩
    · rw [heq] at hrequests hnone
      intro ask' hmem
      rcases List.mem_cons.mp hmem with heq' | hmem
      · rw [heq']
        exact hdead
      · exact ih posting hrequests hnone ask' hmem
    · rw [heq] at hnone
      cases hnone
    · rw [heq] at hrequests
      obtain ⟨added, h⟩ := postAsks_added buffers host rest
        (posting.add ask.1 ask.2 request)
      obtain ⟨more, hmore, -⟩ := h.requests
      rw [hmore] at hrequests
      have hadded := (List.append_eq_nil_iff.mp hrequests).1
      unfold Posting.add at hadded
      cases (List.append_eq_nil_iff.mp hadded).2

/-- A post that succeeds without a batch posted nothing: no ask is of a live buffer. -/
theorem post_none (buffers : List VersionedBuffer) (host : HostAnswers)
    (set : GrowableBufferSet) (asks : List (Nat × Nat)) (hbatch : set.batch = none)
    (hok : (set.post buffers host asks).1 = .ok true)
    (hnone : (set.post buffers host asks).2.batch = none) :
    ∀ ask ∈ asks, ¬Live buffers set ask.1 := by
  unfold post at hok hnone
  cases hloop : postAsks buffers host asks { set } with
  | mk thrown posting =>
    rw [hloop] at hok hnone
    cases thrown with
    | some what => cases hok
    | none =>
      dsimp only at hok hnone
      have hrequests : posting.requests = [] := by
        by_contra hsome
        rw [if_neg hsome] at hok hnone
        cases hpost : host.post with
        | accepted =>
          rw [hpost] at hnone
          cases hnone
        | refused =>
          rw [hpost] at hok
          cases hok
        | threw what =>
          rw [hpost] at hok
          cases hok
      exact postAsks_none asks { set } (by rw [hloop]; exact hrequests) (by rw [hloop])

theorem sealMet_named {sealed : Sealed} (hok : (set.sealMet buffers host build).1 = .ok sealed) :
    ∃ met latched, Quiet set met
      ∧ makeLatches host build.latches.zipIdx met = (none, latched)
      ∧ sealNamed buffers latched = (sealed, (set.sealMet buffers host build).2) := by
  have hquiet := shrink_quiet buffers host build set
  unfold sealMet at hok ⊢
  cases hshrink : set.shrink buffers host build with
  | mk result met =>
    rw [hshrink] at hok hquiet
    cases result with
    | error what => cases hok
    | ok _ =>
      cases hlatches : makeLatches host build.latches.zipIdx met with
      | mk thrown latched =>
        simp only [hlatches] at hok ⊢
        cases thrown with
        | some what => cases hok
        | none =>
          refine ⟨met, latched, hquiet, hlatches, ?_⟩
          cases hok
          rfl

theorem sealUnmet_named {unmet : List Nat} {sealed : Sealed} {named : NamedVersions}
    (hok : (set.sealUnmet buffers host build unmet).1 = .ok sealed)
    (hnamed : sealed.named = some named) :
    (∀ handle ∈ unmet, ¬Live buffers set handle)
      ∧ ∃ met latched, Quiet set met
        ∧ makeLatches host build.latches.zipIdx met = (none, latched)
        ∧ sealNamed buffers latched = (sealed, (set.sealUnmet buffers host build unmet).2) := by
  have hgrown := growthAsks_windowed build unmet { set with failure := "" }
  have hhandles := @growthAsks_handles build unmet { set with failure := "" }
  unfold sealUnmet at hok ⊢
  by_cases hbatch : set.batch.isSome = true
  · rw [if_pos hbatch] at hok
    cases hok
    cases hnamed
  · rw [if_neg hbatch] at hok ⊢
    cases hasks : growthAsks build unmet { set with failure := "" } with
    | mk result grown =>
      rw [hasks] at hok hgrown hhandles
      cases result with
      | error what => cases hok
      | ok asks =>
        have hwindowed : Windowed set grown := (windowed_failure _ _).trans hgrown
        have hposted := post_quiet buffers host grown asks
        have hdead := post_none buffers host grown asks
          (hwindowed.batch.trans (Option.not_isSome_iff_eq_none.mp hbatch))
        dsimp only at hok ⊢
        cases hpost : grown.post buffers host asks with
        | mk result posted =>
          rw [hpost] at hok hposted hdead
          rcases result with what | accepted
          · cases hok
          · cases accepted with
            | false =>
              cases hok
              cases hnamed
            | true =>
              dsimp only at hok ⊢
              by_cases hpending : posted.batch.isSome = true
              · rw [if_pos hpending] at hok
                cases hok
                cases hnamed
              · rw [if_neg hpending] at hok ⊢
                obtain ⟨met, latched, hmet, hlatches, hsealed⟩ := sealMet_named hok
                refine ⟨?_, met, latched, (hwindowed.toQuiet.trans hposted).trans hmet, hlatches,
                  hsealed⟩
                intro handle hmem live
                rw [← hhandles rfl] at hmem
                obtain ⟨ask, hask, heq⟩ := List.mem_map.mp hmem
                refine hdead rfl (Option.not_isSome_iff_eq_none.mp hpending) ask hask ?_
                unfold Live
                rw [hwindowed.registration, hwindowed.buffer, heq]
                exact live

/-- How a seal that names a set has ended: nothing but asks and windows changed until the latches
were made, and no buffer it found unmet was live. -/
theorem sealBuild_named {sealed : Sealed} {named : NamedVersions}
    (hok : (set.sealBuild buffers host build).1 = .ok sealed) (hnamed : sealed.named = some named) :
    ∃ unmet met latched, (set.takeRegistered buffers).unmet buffers build = .ok unmet
      ∧ (∀ handle ∈ unmet, ¬Live buffers (set.takeRegistered buffers) handle)
      ∧ Quiet (set.takeRegistered buffers) met
      ∧ makeLatches host build.latches.zipIdx met = (none, latched)
      ∧ sealNamed buffers latched = (sealed, (set.sealBuild buffers host build).2) := by
  unfold sealBuild at hok ⊢
  generalize set.takeRegistered buffers = taken at hok ⊢
  cases hunmet : taken.unmet buffers build with
  | error what =>
    simp only [hunmet] at hok
    cases hok
  | ok unmet =>
    simp only [hunmet] at hok ⊢
    by_cases hnil : unmet = []
    · rw [if_pos hnil] at hok ⊢
      obtain ⟨met, latched, hquiet, hlatches, hsealed⟩ := sealMet_named hok
      refine ⟨unmet, met, latched, rfl, ?_, hquiet, hlatches, hsealed⟩
      rw [hnil]
      exact fun _ hmem => absurd hmem List.not_mem_nil
    · rw [if_neg hnil] at hok ⊢
      obtain ⟨hdead, met, latched, hquiet, hlatches, hsealed⟩ := sealUnmet_named hok hnamed
      exact ⟨unmet, met, latched, rfl, hdead, hquiet, hlatches, hsealed⟩

end GrowableBufferSet

end ModuleServices.Growth
