import ModuleServices.Growth.Proof.Post

/-!
# Serials identify what a set names

Every entry the set makes takes a new serial, and a handle is given each version once (`Ledger`): a
registration's first version when it is taken, then what the batches make for its slot. So a serial
a sealed set shows stands for one entry of one handle, and moves exactly when the handle's version
does. Handles are never given out twice, which is what keeps a late version of a buffer that left
out of another's slot (`Sound`).
-/

namespace ModuleServices.Growth

/-- Two members of a list whose members are related in order. -/
theorem pairwise_either {α : Type*} {R : α → α → Prop} {l : List α} (h : l.Pairwise R) {a b : α}
    (ha : a ∈ l) (hb : b ∈ l) (hne : a ≠ b) : R a b ∨ R b a := by
  have hsymm : Std.Symm fun a b => R a b ∨ R b a := ⟨fun _ _ => Or.symm⟩
  exact (h.imp (S := fun a b => R a b ∨ R b a) Or.inl).forall ha hb hne

/-- The version a request of the batch is due. -/
def Batch.versionAt (batch : Batch) (place : Nat) : Option BufferVersion :=
  match batch.state with
  | .ready versions _ => versions[place]?
  | _ => none

namespace GrowableBufferSet

variable {buffers : List VersionedBuffer} {host : HostAnswers} {build : Build}
  {set set' : GrowableBufferSet} {nodes : List Registered} {versions : Nat}
  {due due' : List (Nat × Option BufferVersion)}

/-! ## The entries made -/

/-- What is true of the entries made so far, newest first. -/
structure Ledger (versions : Nat) (set : GrowableBufferSet) : Prop where
  serial : ∀ made ∈ set.entered, 0 < made.entry.serial ∧ made.entry.serial ≤ set.serials
  known : ∀ made ∈ set.entered, ∃ version, made.entry.version = some version
    ∧ version.id < versions
  order : set.entered.Pairwise fun newer older => older.entry.serial < newer.entry.serial
  apart : set.entered.Pairwise fun newer older =>
    older.handle = newer.handle → older.entry.version ≠ newer.entry.version

theorem Ledger.mono {versions' : Nat} (h : Ledger versions set) (hversions : versions ≤ versions')
    (hserials : set.serials ≤ set'.serials) (hentered : set'.entered = set.entered) :
    Ledger versions' set' where
  serial made hmade := by
    rw [hentered] at hmade
    have hserial := h.serial made hmade
    omega
  known made hmade := by
    rw [hentered] at hmade
    obtain ⟨version, heq, hlt⟩ := h.known made hmade
    exact ⟨version, heq, by omega⟩
  order := by
    rw [hentered]
    exact h.order
  apart := by
    rw [hentered]
    exact h.apart

/-- A new entry of a version the handle was never given. -/
theorem Ledger.cons {made : Entered} (h : Ledger versions set)
    (hserial : made.entry.serial = set.serials + 1)
    (hknown : ∃ version, made.entry.version = some version ∧ version.id < versions)
    (hnew : ∀ older ∈ set.entered, older.handle = made.handle →
      older.entry.version ≠ made.entry.version)
    (hentered : set'.entered = made :: set.entered) (hserials : set'.serials = set.serials + 1) :
    Ledger versions set' where
  serial made' hmade := by
    rw [hentered] at hmade
    rcases List.mem_cons.mp hmade with heq | hmem
    · subst heq
      omega
    · have holder := h.serial made' hmem
      omega
  known made' hmade := by
    rw [hentered] at hmade
    rcases List.mem_cons.mp hmade with heq | hmem
    · subst heq
      exact hknown
    · exact h.known made' hmem
  order := by
    rw [hentered]
    refine List.pairwise_cons.mpr ⟨fun older hmem => ?_, h.order⟩
    have holder := h.serial older hmem
    omega
  apart := by
    rw [hentered]
    exact List.pairwise_cons.mpr ⟨hnew, h.apart⟩

/-- Two entries of one serial are one entry, of one handle. -/
theorem Ledger.of_serial {made made' : Entered} (h : Ledger versions set)
    (hmem : made ∈ set.entered) (hmem' : made' ∈ set.entered)
    (heq : made.entry.serial = made'.entry.serial) : made = made' := by
  by_contra hne
  rcases pairwise_either h.order hmem hmem' hne with hlt | hlt <;> omega

/-- Two entries of one handle and one version are one entry. -/
theorem Ledger.of_version {made made' : Entered} (h : Ledger versions set)
    (hmem : made ∈ set.entered) (hmem' : made' ∈ set.entered) (hhandle : made.handle = made'.handle)
    (heq : made.entry.version = made'.entry.version) : made = made' := by
  by_contra hne
  rcases pairwise_either h.apart hmem hmem' hne with hapart | hapart
  · exact hapart hhandle.symm heq.symm
  · exact hapart hhandle heq

/-- The entry is what is read of a version for the registration. -/
structure Reads (registration : GrowableRegistration) (entry : NamedEntry) : Prop where
  serial : 0 < entry.serial
  version : ∃ version, entry.version = some version ∧ entry.bytes = version.size
    ∧ entry.units = registration.extent.unitsIn version.size

/-- A slot without a version, or one whose entry is in the ledger. -/
def Held (set : GrowableBufferSet) (i : Nat) : Prop :=
  (set.slot i).current = {}
    ∨ (∃ registration, (set.slot i).registration = some registration
        ∧ Reads registration (set.slot i).current)
      ∧ { handle := i, entry := (set.slot i).current, grown := (set.slot i).made } ∈ set.entered

/-! ## The invariant -/

/-- A handle no slot has used: that of a node not taken yet, or one not given out. -/
def Spare (nodes : List Registered) (set : GrowableBufferSet) (i : Nat) : Prop :=
  i ∈ nodes.filterMap bufferHandle ∨ set.nextHandle ≤ i

/-- `nodes` are the registrations not taken yet, `due` the handles the batch in flight is for, each
with its version once that is made. -/
structure Sound (buffers : List VersionedBuffer) (nodes : List Registered) (versions : Nat)
    (due : List (Nat × Option BufferVersion)) (set : GrowableBufferSet) : Prop where
  ledger : Ledger versions set
  held (i : Nat) : Held set i
  spare (i : Nat) : Spare nodes set i →
    ((set.slot i).registration = none ∧ (set.slot i).current = {})
      ∧ (∀ made ∈ set.entered, made.handle ≠ i) ∧ ∀ request ∈ due, request.1 ≠ i
  below : ∀ i ∈ nodes.filterMap bufferHandle, i < set.nextHandle
  distinct : (nodes.filterMap bufferHandle).Nodup
  placed (i : Nat) : (set.slot i).registration ≠ none → (set.slot i).buffer < buffers.length
  pushed (index : Nat) (registration : GrowableRegistration) (versioned key : Nat) :
    .buffer index registration versioned key ∈ nodes → versioned < buffers.length
  current : ∀ buffer ∈ buffers, ∀ version, buffer.current = some version → version.id < versions
  dueDistinct : (due.map Prod.fst).Nodup
  dueNew : ∀ request ∈ due, ∀ version, request.2 = some version → version.id < versions
    ∧ ∀ made ∈ set.entered, made.handle = request.1 → made.entry.version ≠ some version

/-- What the invariant reads of a slot. -/
structure SameSlots (set set' : GrowableBufferSet) : Prop where
  nextHandle : set'.nextHandle = set.nextHandle
  entered : set'.entered = set.entered
  serials : set.serials ≤ set'.serials
  slot (i : Nat) : set'.slot i
    = { set.slot i with asked := (set'.slot i).asked, window := (set'.slot i).window }

theorem Quiet.sameSlots (h : Quiet set set') : SameSlots set set' :=
  ⟨h.nextHandle, h.entered, Nat.le_of_eq h.serials.symm, h.slot⟩

theorem Latched.sameSlots (h : Latched set set') : SameSlots set set' where
  nextHandle := by rw [h.rest]
  entered := by rw [h.rest]
  serials := by rw [h.rest]
  slot i := by rw [h.slot i]

theorem SameSlots.held (h : SameSlots set set') {i : Nat} (hheld : Held set i) : Held set' i := by
  unfold Held at hheld ⊢
  rw [h.slot i, h.entered]
  exact hheld

theorem Sound.same (h : Sound buffers nodes versions due set) (hsame : SameSlots set set') :
    Sound buffers nodes versions due set' where
  ledger := h.ledger.mono (Nat.le_refl _) hsame.serials hsame.entered
  held i := hsame.held (h.held i)
  spare i hi := by
    unfold Spare at hi
    rw [hsame.nextHandle] at hi
    rw [hsame.entered, hsame.slot i]
    exact h.spare i hi
  below := by
    rw [hsame.nextHandle]
    exact h.below
  distinct := h.distinct
  placed i := by
    rw [hsame.slot i]
    exact h.placed i
  pushed := h.pushed
  current := h.current
  dueDistinct := h.dueDistinct
  dueNew := by
    rw [hsame.entered]
    exact h.dueNew

/-- What taking a buffer's node enters: nothing where it has no version, else its first. -/
theorem take_enters (buffers : List VersionedBuffer) (set : GrowableBufferSet) (handle : Nat)
    (registration : GrowableRegistration) (versioned key : Nat) (held : NamedEntry) :
    ((take buffers set (.buffer handle registration versioned key)).entered = set.entered
        ∧ (take buffers set (.buffer handle registration versioned key)).serials = set.serials
        ∧ (firstEntry buffers set registration versioned held = held
          ∨ firstEntry buffers set registration versioned held = {}))
      ∨ ∃ buffer version, lock buffers versioned = some buffer ∧ buffer.current = some version
        ∧ (take buffers set (.buffer handle registration versioned key)).entered
          = { handle, entry := set.entryOf registration version none none, grown := false }
            :: set.entered
        ∧ (take buffers set (.buffer handle registration versioned key)).serials = set.serials + 1
        ∧ firstEntry buffers set registration versioned held
          = set.entryOf registration version none none := by
  unfold take firstEntry
  dsimp only
  cases lock buffers versioned with
  | none => exact Or.inl ⟨rfl, rfl, Or.inl rfl⟩
  | some buffer =>
    rcases buffer with ⟨key', current, live⟩
    cases current with
    | none => exact Or.inl ⟨rfl, rfl, Or.inr rfl⟩
    | some version => exact Or.inr ⟨_, version, rfl, rfl, rfl, rfl, rfl⟩

theorem reads_entryOf (registration : GrowableRegistration) (version : BufferVersion)
    (stamp lease : Option Nat) : Reads registration (set.entryOf registration version stamp lease)
    where
  serial := Nat.succ_pos _
  version := ⟨version, rfl, rfl, rfl⟩

theorem lock_mem {buffer : Nat} {held : VersionedBuffer} (h : lock buffers buffer = some held) :
    buffers[buffer]? = some held ∧ held.live = true := by
  unfold lock at h
  obtain ⟨hget, hlive⟩ := Option.filter_eq_some_iff.mp h
  exact ⟨hget, hlive⟩

/-- Taking a registration keeps the invariant of the nodes that are left. -/
theorem Sound.take {node : Registered} (h : Sound buffers (node :: nodes) versions due set) :
    Sound buffers nodes versions due (take buffers set node) := by
  have took : Took set (GrowableBufferSet.take buffers set node) := take_took node
  have hfewer (i : Nat) (hi : Spare nodes (GrowableBufferSet.take buffers set node) i) :
      Spare (node :: nodes) set i := by
    rcases hi with hi | hi
    · obtain ⟨other, hother, hhandle⟩ := List.mem_filterMap.mp hi
      exact Or.inl (List.mem_filterMap.mpr ⟨other, List.mem_cons_of_mem _ hother, hhandle⟩)
    · rw [took.nextHandle] at hi
      exact Or.inr hi
  cases node with
  | latch index registration =>
    exact ⟨h.ledger.mono (Nat.le_refl _) (Nat.le_refl _) rfl, h.held,
      fun i hi => h.spare i (hfewer i hi), h.below, h.distinct, h.placed,
      fun index registration versioned key hmem =>
        h.pushed index registration versioned key (List.mem_cons_of_mem _ hmem),
      h.current, h.dueDistinct, h.dueNew⟩
  | buffer index registration versioned key =>
    have hnodes : (Registered.buffer index registration versioned key :: nodes).filterMap
        bufferHandle = index :: nodes.filterMap bufferHandle := rfl
    have hdistinct := h.distinct
    rw [hnodes] at hdistinct
    obtain ⟨hindex, hrest⟩ := List.nodup_cons.mp hdistinct
    have hspare := h.spare index (Or.inl (hnodes ▸ List.mem_cons_self))
    have hslot := take_slot buffers set index registration versioned key
    have hplaced := h.pushed index registration versioned key List.mem_cons_self
    have hbelow := h.below index (hnodes ▸ List.mem_cons_self)
    have hne (i : Nat) (hi : Spare nodes (GrowableBufferSet.take buffers set
        (.buffer index registration versioned key)) i) : i ≠ index := by
      rcases hi with hi | hi
      · exact fun heq => hindex (heq ▸ hi)
      · rw [took.nextHandle] at hi
        omega
    have hempty := hspare.1.2
    -- what the slot is given, and with which entry
    have hentered : (∀ made ∈ set.entered, made ∈ (GrowableBufferSet.take buffers set
          (.buffer index registration versioned key)).entered)
        ∧ (∀ made ∈ (GrowableBufferSet.take buffers set
          (.buffer index registration versioned key)).entered, made ∈ set.entered ∨
            made.handle = index)
        ∧ Ledger versions (GrowableBufferSet.take buffers set
          (.buffer index registration versioned key))
        ∧ Held (GrowableBufferSet.take buffers set (.buffer index registration versioned key))
          index := by
      rcases take_enters buffers set index registration versioned key
          (set.slot index).current with
        ⟨hsame, hserials, hfirst⟩ | ⟨buffer, version, hlock, hcurrent, hcons, hserials, hfirst⟩
      · refine ⟨fun made hmem => hsame.symm ▸ hmem, fun made hmem => Or.inl (hsame ▸ hmem),
          h.ledger.mono (Nat.le_refl _) (Nat.le_of_eq hserials.symm) hsame, Or.inl ?_⟩
        rw [hslot, if_pos rfl]
        rcases hfirst with hfirst | hfirst
        · exact hfirst.trans hempty
        · exact hfirst
      · have hknown : version.id < versions := by
          have hmem := List.mem_of_getElem? (lock_mem hlock).1
          exact h.current buffer hmem version hcurrent
        refine ⟨fun made hmem => hcons.symm ▸ List.mem_cons_of_mem _ hmem, fun made hmem => ?_,
          h.ledger.cons rfl ⟨version, rfl, hknown⟩ (fun older hmem heq => ?_) hcons hserials,
          Or.inr ⟨⟨registration, ?_, ?_⟩, ?_⟩⟩
        · rw [hcons] at hmem
          rcases List.mem_cons.mp hmem with heq | hmem
          · exact Or.inr (heq ▸ rfl)
          · exact Or.inl hmem
        · exact absurd heq (hspare.2.1 older hmem)
        · rw [hslot, if_pos rfl]
        · rw [hslot, if_pos rfl]
          exact hfirst ▸ reads_entryOf registration version none none
        · rw [hslot, if_pos rfl, hcons, hfirst]
          exact List.mem_cons_self
    obtain ⟨hmore, hback, hledger, hheld⟩ := hentered
    refine ⟨hledger, fun i => ?_, fun i hi => ?_, ?_, hrest, fun i hi => ?_,
      fun index registration versioned key hmem =>
        h.pushed index registration versioned key (List.mem_cons_of_mem _ hmem),
      h.current, h.dueDistinct, fun request hrequest version hversion => ?_⟩
    · by_cases heq : i = index
      · rw [heq]
        exact hheld
      · have hsame := hslot i
        rw [if_neg heq] at hsame
        have hold := h.held i
        unfold Held at hold ⊢
        rw [hsame]
        exact hold.imp_right fun hin => ⟨hin.1, hmore _ hin.2⟩
    · obtain ⟨hempty, hmade, hdue⟩ := h.spare i (hfewer i hi)
      refine ⟨?_, fun made hmem heq => ?_, hdue⟩
      · rw [hslot, if_neg (hne i hi)]
        exact hempty
      · rcases hback made hmem with hold | hnew
        · exact hmade made hold heq
        · exact hne i hi (heq.symm.trans hnew)
    · intro i hi
      rw [took.nextHandle]
      exact h.below i (hnodes ▸ List.mem_cons_of_mem _ hi)
    · by_cases heq : i = index
      · rw [hslot, if_pos heq]
        exact hplaced
      · rw [hslot, if_neg heq] at hi ⊢
        exact h.placed i hi
    · obtain ⟨hlt, hnew⟩ := h.dueNew request hrequest version hversion
      refine ⟨hlt, fun made hmem heq => ?_⟩
      rcases hback made hmem with hold | hnewest
      · exact hnew made hold heq
      · exact absurd (heq.symm.trans hnewest) (hspare.2.2 request hrequest)

theorem Sound.takeRegistered {pushing : List Registered}
    (h : Sound buffers (set.registered ++ pushing) versions due set) :
    Sound buffers pushing versions due (set.takeRegistered buffers) :=
  takeRegistered_induction buffers set
    (fun nodes after => Sound buffers (nodes ++ pushing) versions due after)
    (h.same ⟨rfl, rfl, Nat.le_refl _, fun _ => rfl⟩) fun _ _ _ h => h.take

/-- What is due may change to anything new that no spare handle is for. -/
theorem Sound.withDue (h : Sound buffers nodes versions due set)
    (due' : List (Nat × Option BufferVersion)) (hdistinct : (due'.map Prod.fst).Nodup)
    (hnew : ∀ request ∈ due', ∀ version, request.2 = some version → version.id < versions
      ∧ ∀ made ∈ set.entered, made.handle = request.1 → made.entry.version ≠ some version)
    (hspare : ∀ i, Spare nodes set i → ∀ request ∈ due', request.1 ≠ i) :
    Sound buffers nodes versions due' set :=
  { h with
    spare i hi := ⟨(h.spare i hi).1, (h.spare i hi).2.1, hspare i hi⟩
    dueDistinct := hdistinct
    dueNew := hnew }

theorem Sound.tail {request : Nat × Option BufferVersion}
    (h : Sound buffers nodes versions (request :: due) set) :
    Sound buffers nodes versions due set :=
  h.withDue _ (List.nodup_cons.mp h.dueDistinct).2
    (fun other hmem => h.dueNew other (List.mem_cons_of_mem _ hmem))
    fun i hi other hmem => (h.spare i hi).2.2 other (List.mem_cons_of_mem _ hmem)

/-- Settling a request keeps the invariant of those that are left. -/
theorem Sound.settleSlot {batch : Batch} {request : (Nat × Nat) × Nat}
    (h : Sound buffers nodes versions ((request.1.1, batch.versionAt request.2) :: due) set) :
    Sound buffers nodes versions due (settleSlot batch set request) := by
  have hclear : Quiet set (set.modifySlot request.1.1 fun slot => { slot with asked := 0 }) :=
    quiet_modifySlot fun _ => rfl
  by_cases hcleared : (∀ versions leases, batch.state ≠ .ready versions leases)
      ∨ (set.slot request.1.1).registration = none
  · rw [settleSlot_cleared hcleared]
    exact h.tail.same hclear.sameSlots
  · obtain ⟨hready, hsome⟩ := not_or.mp hcleared
    obtain ⟨made, hready⟩ := not_forall.mp hready
    obtain ⟨leases, hready⟩ := not_forall.mp hready
    have hstate := not_not.mp hready
    obtain ⟨registration, hregistration⟩ := Option.ne_none_iff_exists'.mp hsome
    have hslot := settleSlot_ready hstate hregistration
    have hsettled := settleSlot_settled batch set request
    have hversion : batch.versionAt request.2 = made[request.2]? := by
      unfold Batch.versionAt
      rw [hstate]
    have hentered : (∀ older ∈ set.entered, older ∈ (GrowableBufferSet.settleSlot batch set
          request).entered)
        ∧ (∀ older ∈ (GrowableBufferSet.settleSlot batch set request).entered,
          older ∈ set.entered ∨ older.handle = request.1.1)
        ∧ Ledger versions (GrowableBufferSet.settleSlot batch set request)
        ∧ Held (GrowableBufferSet.settleSlot batch set request) request.1.1 := by
      cases hmade : made[request.2]? with
      | none =>
        have hsame : (GrowableBufferSet.settleSlot batch set request).entered = set.entered
            ∧ (GrowableBufferSet.settleSlot batch set request).serials = set.serials := by
          unfold GrowableBufferSet.settleSlot
          simp only [hstate, hregistration, hmade]
          exact ⟨rfl, rfl⟩
        refine ⟨fun older hmem => hsame.1.symm ▸ hmem, fun older hmem => Or.inl (hsame.1 ▸ hmem),
          h.ledger.mono (Nat.le_refl _) (Nat.le_of_eq hsame.2.symm) hsame.1, Or.inl ?_⟩
        rw [hslot, if_pos rfl]
        unfold grownEntry
        rw [hmade]
        rfl
      | some version =>
        have hcons : (GrowableBufferSet.settleSlot batch set request).entered
              = { handle := request.1.1
                  entry := set.entryOf registration version (batch.stamps.getD request.2 none)
                    leases[request.2]?
                  grown := true } :: set.entered
            ∧ (GrowableBufferSet.settleSlot batch set request).serials = set.serials + 1 := by
          unfold GrowableBufferSet.settleSlot
          simp only [hstate, hregistration, hmade]
          exact ⟨rfl, rfl⟩
        have hentry : grownEntry set batch made leases registration request.2
            = set.entryOf registration version (batch.stamps.getD request.2 none)
              leases[request.2]? := by
          unfold grownEntry
          rw [hmade]
          rfl
        obtain ⟨hlt, hnew⟩ := h.dueNew _ List.mem_cons_self version (hversion.trans hmade)
        refine ⟨fun older hmem => hcons.1.symm ▸ List.mem_cons_of_mem _ hmem,
          fun older hmem => ?_, h.ledger.cons rfl ⟨version, rfl, hlt⟩ (fun older hmem heq =>
            hnew older hmem heq) hcons.1 hcons.2, Or.inr ⟨⟨registration, ?_, ?_⟩, ?_⟩⟩
        · rw [hcons.1] at hmem
          rcases List.mem_cons.mp hmem with heq | hmem
          · exact Or.inr (heq ▸ rfl)
          · exact Or.inl hmem
        · exact (hsettled.registration _).trans hregistration
        · rw [hslot, if_pos rfl]
          exact hentry ▸ reads_entryOf registration version _ _
        · rw [hslot, if_pos rfl, hcons.1, hentry]
          exact List.mem_cons_self
    obtain ⟨hmore, hback, hledger, hheld⟩ := hentered
    have hspare (i : Nat) (hi : Spare nodes (GrowableBufferSet.settleSlot batch set request) i) :
        Spare nodes set i := by
      unfold Spare at hi ⊢
      rw [hsettled.nextHandle] at hi
      exact hi
    refine ⟨hledger, fun i => ?_, fun i hi => ?_, ?_, h.distinct, fun i hi => ?_, h.pushed,
      h.current, (List.nodup_cons.mp h.dueDistinct).2, fun other hother version hother' => ?_⟩
    · by_cases heq : i = request.1.1
      · rw [heq]
        exact hheld
      · have hsame := hslot i
        rw [if_neg heq] at hsame
        have hold := h.held i
        unfold Held at hold ⊢
        rw [hsame]
        exact hold.imp_right fun hin => ⟨hin.1, hmore _ hin.2⟩
    · obtain ⟨hempty, hmade, hdue⟩ := h.spare i (hspare i hi)
      have hne : i ≠ request.1.1 := fun heq => hdue _ List.mem_cons_self heq.symm
      refine ⟨?_, fun older hmem heq => ?_, fun other hmem =>
        hdue other (List.mem_cons_of_mem _ hmem)⟩
      · rw [hslot, if_neg hne]
        exact hempty
      · rcases hback older hmem with hold | hnew
        · exact hmade older hold heq
        · exact hne (heq.symm.trans hnew)
    · rw [hsettled.nextHandle]
      exact h.below
    · rw [hsettled.buffer]
      rw [hsettled.registration] at hi
      exact h.placed i hi
    · obtain ⟨hlt, hnew⟩ := h.dueNew other (List.mem_cons_of_mem _ hother) version hother'
      refine ⟨hlt, fun older hmem heq => ?_⟩
      rcases hback older hmem with hold | hnewest
      · exact hnew older hold heq
      · have hfirst := (List.nodup_cons.mp h.dueDistinct).1
        exact absurd (List.mem_map.mpr ⟨other, hother, heq.symm.trans hnewest⟩) hfirst

/-- What the batch in flight is due. -/
def dueOf (batch : Option Batch) : List (Nat × Option BufferVersion) :=
  match batch with
  | none => []
  | some batch => batch.asks.zipIdx.map fun request => (request.1.1, batch.versionAt request.2)

theorem Sound.settleSlots {batch : Batch} (requests : List ((Nat × Nat) × Nat)) : ∀ set,
    Sound buffers nodes versions
      (requests.map fun request => (request.1.1, batch.versionAt request.2)) set →
    Sound buffers nodes versions [] (requests.foldl (GrowableBufferSet.settleSlot batch) set) := by
  induction requests with
  | nil => exact fun set h => h
  | cons request rest ih => exact fun set h => ih _ h.settleSlot

theorem Sound.settle (h : Sound buffers nodes versions (dueOf set.batch) set) :
    Sound buffers nodes versions (dueOf set.settle.batch) set.settle := by
  rcases settle_cases set with ⟨heq, -⟩ | ⟨batch, failure, hbatch, -, heq⟩
  · rw [heq]
    exact h
  · rw [hbatch] at h
    rw [heq]
    exact (h.settleSlots batch.asks.zipIdx set).same ⟨rfl, rfl, Nat.le_refl _, fun _ => rfl⟩

theorem Sound.leave (h : Sound buffers nodes versions due set) :
    Sound buffers nodes versions due (set.leave buffers) where
  ledger := h.ledger.mono (Nat.le_refl _) (Nat.le_refl _) rfl
  held i := by
    have hheld := h.held i
    unfold Held at hheld ⊢
    rw [leave_slot]
    split
    · exact Or.inl rfl
    · exact hheld
  spare i hi := by
    obtain ⟨hempty, hrest⟩ := h.spare i hi
    refine ⟨?_, hrest⟩
    rw [leave_slot]
    split
    · exact ⟨rfl, rfl⟩
    · exact hempty
  below := h.below
  distinct := h.distinct
  placed i hi := by
    rw [leave_slot] at hi ⊢
    split at hi
    · exact absurd rfl hi
    next halive =>
      rw [if_neg halive]
      exact h.placed i hi
  pushed := h.pushed
  current := h.current
  dueDistinct := h.dueDistinct
  dueNew := h.dueNew

theorem sealNamed_same (buffers : List VersionedBuffer) (set : GrowableBufferSet) :
    SameSlots set (set.sealNamed buffers).2 := by
  unfold sealNamed
  split
  · exact ⟨rfl, rfl, Nat.le_refl _, fun _ => rfl⟩
  · exact ⟨rfl, rfl, Nat.le_succ _, fun _ => rfl⟩

theorem Ended.sameSlots {result : Except String Sealed} (h : Ended buffers set set' result) :
    SameSlots set set' := by
  have htrans {a b c : GrowableBufferSet} (h : SameSlots a b) (h' : SameSlots b c) :
      SameSlots a c := by
    refine ⟨h'.nextHandle.trans h.nextHandle, h'.entered.trans h.entered,
      Nat.le_trans h.serials h'.serials, fun i => ?_⟩
    have hslot := h'.slot i
    rw [h.slot i] at hslot
    exact hslot
  cases h with
  | unnamed met quiet latched none_ => exact htrans quiet.sameSlots latched.sameSlots
  | named met made sealed quiet latched ok named =>
    have hnamed := sealNamed_same buffers made
    rw [named] at hnamed
    exact htrans (htrans quiet.sameSlots latched.sameSlots) hnamed

theorem dueOf_batchOf (asks : List (Nat × Nat)) (posted : Bool) :
    dueOf (some (batchOf asks posted)) = asks.map fun ask => (ask.1, none) := by
  have hfirst : (asks.zipIdx.map Prod.fst).map (fun ask => (ask.1, (none : Option BufferVersion)))
      = asks.map fun ask => (ask.1, none) := by
    rw [List.zipIdx_map_fst]
  rw [List.map_map] at hfirst
  exact hfirst

/-- Where a post leaves a batch, it is for the asks that were made into requests. -/
theorem Outcome.dueOf {asks added : List (Nat × Nat)} {ended : Except String Bool}
    (h : Outcome buffers host set set' asks added ended) :
    GrowableBufferSet.dueOf set'.batch = []
      ∨ GrowableBufferSet.dueOf set'.batch = added.map fun ask => (ask.1, none) := by
  cases h with
  | thrown what batch asked => exact Or.inl (by rw [batch]; rfl)
  | nothing empty batch asked => exact Or.inl (by rw [batch]; rfl)
  | accepted some_ batch asked => exact Or.inr (by rw [batch]; exact dueOf_batchOf added true)
  | threw what post some_ batch asked =>
    exact Or.inr (by rw [batch]; exact dueOf_batchOf added false)
  | refused batch asked => exact Or.inl (by rw [batch]; rfl)

theorem Sound.seal {pushing : List Registered}
    (h : Sound buffers (set.registered ++ pushing) versions (dueOf set.batch) set) :
    Sound buffers pushing versions (dueOf (set.sealBuild buffers host build).2.batch)
      (set.sealBuild buffers host build).2 := by
  obtain ⟨hended, hbatch⟩ := sealBuild_both buffers host build set
  have htaken := h.takeRegistered
  obtain ⟨hsame, -⟩ := takeRegistered_fields buffers set
  rw [← hsame] at htaken
  have hafter := htaken.same hended.sameSlots
  cases hbatch with
  | same batch asked =>
    rw [batch]
    exact hafter
  | posted none_ asks added ended nodup live outcome throws =>
    rcases outcome.dueOf with hdue | hdue
    · rw [hdue]
      exact hafter.withDue _ List.nodup_nil (fun _ hmem => absurd hmem List.not_mem_nil)
        fun _ _ _ hmem => absurd hmem List.not_mem_nil
    · rw [hdue]
      refine hafter.withDue _ ?_ (fun request hmem version hversion => ?_) fun i hi request hmem => ?_
      · rw [List.map_map]
        exact nodup
      · obtain ⟨ask, -, heq⟩ := List.mem_map.mp hmem
        rw [← heq] at hversion
        cases hversion
      · obtain ⟨ask, hask, heq⟩ := List.mem_map.mp hmem
        rw [← heq]
        intro hhandle
        have hspare : Spare pushing (set.takeRegistered buffers) i := by
          unfold Spare at hi ⊢
          rw [hended.sameSlots.nextHandle] at hi
          exact hi
        have hempty := (htaken.spare i hspare).1.1
        rw [← hhandle] at hempty
        exact (live ask hask).1 hempty

end GrowableBufferSet

end ModuleServices.Growth
