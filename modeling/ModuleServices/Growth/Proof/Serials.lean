import ModuleServices.Growth.Proof.Named
import ModuleServices.Growth.Proof.Step

/-!
# Serials over whole runs

`Sound` holds in every state a run reaches (`sound_reachable`), and what the sealed sets show is what
the ledger has (`published_reachable`). From it: the sets are sealed in the order of their serials,
one serial is one set, and an entry's serial stands for one version of one handle
(`serials_identify`).
-/

namespace ModuleServices.Growth

open GrowableBufferSet

namespace GrowableRun

variable {run run' : GrowableRun} {hooks : GrowableBufferSetHooks}

/-! ## `Sound` is kept -/

theorem Sound.perm {buffers : List VersionedBuffer} {nodes nodes' : List Registered}
    {versions : Nat} {due : List (Nat × Option BufferVersion)} {set : GrowableBufferSet}
    (h : Sound buffers nodes versions due set) (hperm : nodes'.Perm nodes) :
    Sound buffers nodes' versions due set :=
  have hhandles : (nodes'.filterMap bufferHandle).Perm (nodes.filterMap bufferHandle) :=
    hperm.filterMap bufferHandle
  { h with
    spare i hi := h.spare i (hi.imp_left fun hmem => hhandles.mem_iff.mp hmem)
    below i hi := h.below i (hhandles.mem_iff.mp hi)
    distinct := hhandles.nodup_iff.mpr h.distinct
    pushed index registration versioned key hmem :=
      h.pushed index registration versioned key (hperm.mem_iff.mp hmem) }

/-- More buffers and versions, and other current versions that are known. -/
theorem Sound.withBuffers {buffers buffers' : List VersionedBuffer} {nodes : List Registered}
    {versions versions' : Nat} {due : List (Nat × Option BufferVersion)} {set : GrowableBufferSet}
    (h : Sound buffers nodes versions due set) (hlength : buffers.length ≤ buffers'.length)
    (hversions : versions ≤ versions') (hcurrent : ∀ buffer ∈ buffers', ∀ version,
      buffer.current = some version → version.id < versions') :
    Sound buffers' nodes versions' due set :=
  { h with
    ledger := h.ledger.mono hversions (Nat.le_refl _) rfl
    placed i hi := Nat.lt_of_lt_of_le (h.placed i hi) hlength
    pushed index registration versioned key hmem :=
      Nat.lt_of_lt_of_le (h.pushed index registration versioned key hmem) hlength
    current := hcurrent
    dueNew request hmem version hversion :=
      have hnew := h.dueNew request hmem version hversion
      ⟨Nat.lt_of_lt_of_le hnew.1 hversions, hnew.2⟩ }

/-- The invariant of a run's state. -/
def RunSound (run : GrowableRun) : Prop :=
  Sound run.buffers (run.set.registered ++ run.pushing) run.versions (dueOf run.set.batch) run.set

theorem runSound_init (hooks : GrowableBufferSetHooks) : RunSound (init hooks) where
  ledger := {
    serial := fun _ h => absurd h List.not_mem_nil
    known := fun _ h => absurd h List.not_mem_nil
    order := List.Pairwise.nil
    apart := List.Pairwise.nil }
  held _ := Or.inl rfl
  spare _ _ := ⟨⟨rfl, rfl⟩, fun _ h => absurd h List.not_mem_nil, fun _ h => absurd h List.not_mem_nil⟩
  below _ h := absurd h List.not_mem_nil
  distinct := List.nodup_nil
  placed _ h := absurd rfl h
  pushed _ _ _ _ h := absurd h List.not_mem_nil
  current _ h := absurd h List.not_mem_nil
  dueDistinct := List.nodup_nil
  dueNew _ h := absurd h List.not_mem_nil

/-- A node whose `Register` has taken its handle. -/
theorem Sound.register {buffers : List VersionedBuffer} {nodes : List Registered}
    {versions : Nat} {due : List (Nat × Option BufferVersion)} {set : GrowableBufferSet}
    (h : Sound buffers nodes versions due set) {buffer : Nat} (hbuffer : buffer < buffers.length)
    (registration : GrowableRegistration) (key : Nat) :
    Sound buffers (nodes ++ [.buffer set.nextHandle registration buffer key]) versions due
      { set with nextHandle := set.nextHandle + 1, serials := set.serials + 1 } := by
  have hnodes : (nodes ++ [Registered.buffer set.nextHandle registration buffer key]).filterMap
      bufferHandle = nodes.filterMap bufferHandle ++ [set.nextHandle] := by
    rw [List.filterMap_append]
    rfl
  refine { h with
    ledger := h.ledger.mono (Nat.le_refl _) (Nat.le_succ _) rfl
    spare := fun i hi => h.spare i ?_
    below := fun i hi => ?_
    distinct := ?_
    pushed := fun index registration versioned key hmem => ?_ }
  · unfold Spare at hi
    rw [hnodes] at hi
    rcases hi with hi | hi
    · rcases List.mem_append.mp hi with hold | hnew
      · exact Or.inl hold
      · exact Or.inr (Nat.le_of_eq (List.mem_singleton.mp hnew).symm)
    · have hle : set.nextHandle + 1 ≤ i := hi
      exact Or.inr (by omega)
  · rw [hnodes] at hi
    show i < set.nextHandle + 1
    rcases List.mem_append.mp hi with hold | hnew
    · have hlt := h.below i hold
      omega
    · have heq := List.mem_singleton.mp hnew
      omega
  · rw [hnodes]
    refine List.nodup_append.mpr ⟨h.distinct, List.nodup_singleton _, ?_⟩
    intro i hi j hj heq
    have hlt := h.below i hi
    have hnew := List.mem_singleton.mp hj
    omega
  · rcases List.mem_append.mp hmem with hold | hnew
    · exact h.pushed index registration versioned key hold
    · cases List.mem_singleton.mp hnew
      exact hbuffer

theorem Sound.registerLatch {buffers : List VersionedBuffer} {nodes : List Registered}
    {versions : Nat} {due : List (Nat × Option BufferVersion)} {set : GrowableBufferSet}
    (h : Sound buffers nodes versions due set) (index : Nat) (registration : LatchRegistration) :
    Sound buffers (nodes ++ [.latch index registration]) versions due
      { set with nextLatch := set.nextLatch + 1 } := by
  have hnodes : (nodes ++ [Registered.latch index registration]).filterMap bufferHandle
      = nodes.filterMap bufferHandle := by
    rw [List.filterMap_append]
    exact List.append_nil _
  exact { h with
    ledger := h.ledger.mono (Nat.le_refl _) (Nat.le_refl _) rfl
    spare := fun i hi => h.spare i (by unfold Spare at hi ⊢; rw [hnodes] at hi; exact hi)
    below := by rw [hnodes]; exact h.below
    distinct := by rw [hnodes]; exact h.distinct
    pushed := fun index registration versioned key hmem => by
      rcases List.mem_append.mp hmem with hold | hnew
      · exact h.pushed index registration versioned key hold
      · cases List.mem_singleton.mp hnew }

/-! ## The buffers of the process -/

/-- Buffers stay where they are, keep their keys and do not come back to life; what is current is
as before, or a version of `known`. -/
structure Aged (known : BufferVersion → Prop) (buffers buffers' : List VersionedBuffer) : Prop where
  length : buffers.length ≤ buffers'.length
  buffer (j : Nat) (after : VersionedBuffer) : buffers'[j]? = some after → j < buffers.length →
    ∃ before, buffers[j]? = some before ∧ after.key = before.key
      ∧ (after.live = true → before.live = true)
  current : (∀ buffer ∈ buffers, ∀ version, buffer.current = some version → known version) →
    ∀ buffer ∈ buffers', ∀ version, buffer.current = some version → known version

theorem Aged.refl (known : BufferVersion → Prop) (buffers : List VersionedBuffer) :
    Aged known buffers buffers :=
  ⟨Nat.le_refl _, fun _ after h _ => ⟨after, h, rfl, id⟩, id⟩

theorem Aged.trans {known : BufferVersion → Prop} {buffers buffers' buffers'' :
    List VersionedBuffer} (h : Aged known buffers buffers') (h' : Aged known buffers' buffers'') :
    Aged known buffers buffers'' where
  length := Nat.le_trans h.length h'.length
  buffer j after hget hlt := by
    obtain ⟨middle, hmiddle, hkey, hlive⟩ := h'.buffer j after hget
      (Nat.lt_of_lt_of_le hlt h.length)
    obtain ⟨before, hbefore, hkey', hlive'⟩ := h.buffer j middle hmiddle hlt
    exact ⟨before, hbefore, hkey.trans hkey', fun hafter => hlive' (hlive hafter)⟩
  current hknown := h'.current (h.current hknown)

/-- One buffer changes. -/
theorem aged_modify {known : BufferVersion → Prop} (f : VersionedBuffer → VersionedBuffer)
    (hkey : ∀ held, (f held).key = held.key)
    (hlive : ∀ held : VersionedBuffer, (f held).live = true → held.live = true)
    (hcurrent : ∀ held : VersionedBuffer, ∀ version, (f held).current = some version →
      held.current = some version ∨ known version)
    (buffers : List VersionedBuffer) (buffer : Nat) :
    Aged known buffers (buffers.modify buffer f) where
  length := Nat.le_of_eq (List.length_modify ..).symm
  buffer j after hget _ := by
    rw [List.getElem?_modify] at hget
    obtain ⟨before, hbefore, heq⟩ := Option.map_eq_some_iff.mp hget
    refine ⟨before, hbefore, ?_, ?_⟩
    · rw [← heq]
      split
      · exact hkey before
      · rfl
    · rw [← heq]
      split
      · exact hlive before
      · exact id
  current hknown after hmem version hversion := by
    obtain ⟨j, hget⟩ := List.mem_iff_getElem?.mp hmem
    rw [List.getElem?_modify] at hget
    obtain ⟨before, hbefore, heq⟩ := Option.map_eq_some_iff.mp hget
    have holder := hknown before (List.mem_of_getElem? hbefore)
    rw [← heq] at hversion
    split at hversion
    · rcases hcurrent before version hversion with hold | hnew
      · exact holder version hold
      · exact hnew
    · exact holder version hversion

theorem adoptAll_aged {known : BufferVersion → Prop} {named : NamedVersions}
    (hnamed : ∀ entry ∈ named.entries, ∀ version, entry.version = some version → known version)
    (buffers : List VersionedBuffer) : Aged known buffers (named.adoptAll buffers) := by
  have hfold : ∀ (entries : List (NamedEntry × Option Nat)) (buffers : List VersionedBuffer),
      (∀ entry ∈ entries, ∀ version, entry.1.version = some version → known version) →
      Aged known buffers (entries.foldl NamedVersions.adopt buffers) := by
    intro entries
    induction entries with
    | nil => exact fun buffers _ => Aged.refl known buffers
    | cons entry rest ih =>
      intro buffers hknown
      refine Aged.trans ?_ (ih _ fun other hmem => hknown other (List.mem_cons_of_mem _ hmem))
      unfold NamedVersions.adopt
      split
      next version buffer hversion _ =>
        refine aged_modify _ (fun held => ?_) (fun held => ?_) (fun held version' h => ?_) buffers
          buffer
        · split <;> rfl
        · split <;> exact id
        · split at h
          · cases h
            exact Or.inr (hknown entry List.mem_cons_self version hversion)
          · exact Or.inl h
      · exact Aged.refl known buffers
  exact hfold _ buffers fun entry hmem => hnamed entry.1 (List.of_mem_zip hmem).1

theorem length_adoptAll (named : NamedVersions) (buffers : List VersionedBuffer) :
    (named.adoptAll buffers).length = buffers.length := by
  have hfold : ∀ (entries : List (NamedEntry × Option Nat)) (buffers : List VersionedBuffer),
      (entries.foldl NamedVersions.adopt buffers).length = buffers.length := by
    intro entries
    induction entries with
    | nil => exact fun _ => rfl
    | cons entry rest ih =>
      intro buffers
      rw [List.foldl_cons, ih]
      unfold NamedVersions.adopt
      split
      · exact List.length_modify ..
      · rfl
  exact hfold _ buffers

/-! ## What the sealed sets show -/

/-- What a seal names: the last set, while nothing changed, or a new one. -/
theorem sealNamed_cases (buffers : List VersionedBuffer) (set : GrowableBufferSet) :
    (∃ last, set.changed = false ∧ set.last = some last
        ∧ set.sealNamed buffers = ({ named := some last }, set))
      ∨ ((set.changed = true ∨ set.last = none)
        ∧ set.sealNamed buffers = ({ named := some (set.nameVersions buffers) },
          { set with
            serials := set.serials + 1, last := some (set.nameVersions buffers), changed := false })
        ) := by
  unfold sealNamed
  cases hchanged : set.changed with
  | true => exact Or.inr ⟨Or.inl rfl, rfl⟩
  | false =>
    cases hlast : set.last with
    | none => exact Or.inr ⟨Or.inr rfl, rfl⟩
    | some last => exact Or.inl ⟨last, rfl, rfl, rfl⟩

/-- The entry a new set shows for a handle. -/
theorem nameVersions_entry (buffers : List VersionedBuffer) (set : GrowableBufferSet) (i : Nat) :
    (set.nameVersions buffers).entries.getD i {}
      = if nameable (set.slot i) then (set.slot i).current else {} := by
  unfold nameVersions GrowableBufferSet.slot
  simp only [List.getD_eq_getElem?_getD, List.getElem?_map]
  cases set.slots[i]? with
  | none => rfl
  | some slot => rfl

structure Published (run : GrowableRun) : Prop where
  entries : ∀ named ∈ run.sealed, ∀ i, (named.entries.getD i {}).version ≠ none →
    ∃ grown, { handle := i, entry := named.entries.getD i {}, grown } ∈ run.set.entered
  order : run.sealed.Pairwise fun newer older => older = newer ∨ older.serial < newer.serial
  last : ∀ named, run.set.last = some named → named ∈ run.sealed
  newest : ∀ named ∈ run.sealed, ∃ last, run.set.last = some last
    ∧ (named = last ∨ named.serial < last.serial)
  serial : ∀ named ∈ run.sealed, named.serial ≤ run.set.serials

theorem Published.mono (h : Published run) (hsealed : run'.sealed = run.sealed)
    (hlast : run'.set.last = run.set.last) (hserials : run.set.serials ≤ run'.set.serials)
    (hentered : ∀ made ∈ run.set.entered, made ∈ run'.set.entered) : Published run' where
  entries named hmem i hsome := by
    rw [hsealed] at hmem
    obtain ⟨grown, hmade⟩ := h.entries named hmem i hsome
    exact ⟨grown, hentered _ hmade⟩
  order := by
    rw [hsealed]
    exact h.order
  last named hnamed := by
    rw [hlast] at hnamed
    rw [hsealed]
    exact h.last named hnamed
  newest named hmem := by
    rw [hsealed] at hmem
    rw [hlast]
    exact h.newest named hmem
  serial named hmem := by
    rw [hsealed] at hmem
    exact Nat.le_trans (h.serial named hmem) hserials

/-- The set's serials, ledger and last sealed set over a call that seals nothing. -/
structure Keeps (set set' : GrowableBufferSet) : Prop where
  last : set'.last = set.last
  serials : set.serials ≤ set'.serials
  entered : ∀ made ∈ set.entered, made ∈ set'.entered

theorem Keeps.trans {set set' set'' : GrowableBufferSet} (h : Keeps set set')
    (h' : Keeps set' set'') : Keeps set set'' :=
  ⟨h'.last.trans h.last, Nat.le_trans h.serials h'.serials,
    fun made hmem => h'.entered made (h.entered made hmem)⟩

theorem takeRegistered_keeps (buffers : List VersionedBuffer) (set : GrowableBufferSet) :
    Keeps set (set.takeRegistered buffers) := by
  obtain ⟨-, hlast, -, hserials, hentered, -⟩ :=
    takeRegistered_fields buffers set
  exact ⟨hlast, hserials, hentered⟩

theorem settle_keeps (set : GrowableBufferSet) : Keeps set set.settle := by
  rcases settle_cases set with ⟨heq, -⟩ | ⟨batch, failure, -, -, heq⟩
  · rw [heq]
    exact ⟨rfl, Nat.le_refl _, fun _ h => h⟩
  · have hsettled := settleSlots_settled batch batch.asks.zipIdx set
    rw [heq]
    exact ⟨hsettled.last, hsettled.serials, hsettled.entered⟩

theorem begin_keeps (buffers : List VersionedBuffer) (set : GrowableBufferSet) :
    Keeps set (set.begin buffers) :=
  ((takeRegistered_keeps buffers set).trans (settle_keeps _)).trans
    ⟨rfl, Nat.le_refl _, fun _ h => h⟩

theorem begin_registered (buffers : List VersionedBuffer) (set : GrowableBufferSet) :
    (set.begin buffers).registered = [] := by
  obtain ⟨-, -, hnil, -⟩ := takeRegistered_fields buffers set
  show (set.takeRegistered buffers).settle.registered = []
  rcases settle_cases (set.takeRegistered buffers) with ⟨heq, -⟩ | ⟨batch, failure, -, -, heq⟩
  · rw [heq]
    exact hnil
  · rw [heq]
    exact (settleSlots_settled batch _ _).registered.trans hnil

theorem quiet_latched_keeps {set met made : GrowableBufferSet} (hquiet : Quiet set met)
    (hlatched : Latched met made) : Keeps set made := by
  have hmet : Keeps set met :=
    ⟨hquiet.last, Nat.le_of_eq hquiet.serials.symm, fun _ h => hquiet.entered.symm ▸ h⟩
  have hmade : Keeps met made := by
    refine ⟨?_, ?_, fun _ h => ?_⟩
    · rw [hlatched.rest]
    · rw [hlatched.rest]
    · rw [hlatched.rest]
      exact h
  exact hmet.trans hmade

/-- A seal that names a set publishes it; what it shows is in the ledger. -/
theorem Published.seal {asks : List Ask} {host : HostAnswers} (h : Published run)
    (hsound : RunSound run) (hstep : SealStep run run' asks host) : Published run' := by
  rcases sealAsks_cases run asks host with ⟨what, -, heq⟩ | ⟨build, -, heq⟩
  · have hset := hstep.set
    have hsealed := hstep.sealed
    rw [heq] at hset hsealed
    rcases hsealed with ⟨sealed, named, hok, -, -⟩ | ⟨hsealed, -⟩
    · cases hok
    · exact h.mono hsealed (by rw [hset]) (by rw [hset]) (fun _ h => by rw [hset]; exact h)
  · have hset := hstep.set
    have hsealed := hstep.sealed
    rw [heq] at hset hsealed
    have htaken := takeRegistered_keeps run.buffers run.set
    have hheld : Sound run.buffers run.pushing run.versions (dueOf run.set.batch)
        (run.set.takeRegistered run.buffers) := Sound.takeRegistered hsound
    obtain ⟨hended, -⟩ := sealBuild_both run.buffers host build run.set
    cases hended with
    | unnamed met quiet latched none_ =>
      rcases hsealed with ⟨sealed, named, hok, hnamed, -⟩ | ⟨hsealed, -⟩
      · have hnone := none_ sealed hok
        rw [hnamed] at hnone
        cases hnone
      · have hkeeps := htaken.trans (quiet_latched_keeps quiet latched)
        rw [← hset] at hkeeps
        exact h.mono hsealed hkeeps.last hkeeps.serials hkeeps.entered
    | named met made sealed quiet latched ok named =>
      have hkeeps := htaken.trans (quiet_latched_keeps quiet latched)
      rcases sealNamed_cases run.buffers made with
        ⟨last, -, hlast, hresult⟩ | ⟨-, hresult⟩
      · -- the last set again
        rw [hresult] at named
        cases named
        have hsealed' : run'.sealed = last :: run.sealed := by
          rcases hsealed with ⟨sealed, named, hok, hnamed, hsealed⟩ | ⟨-, hnone⟩
          · rw [ok] at hok
            cases hok
            cases hnamed
            exact hsealed
          · exact absurd (hnone _ ok) (Option.some_ne_none _)
        rw [← hset] at hkeeps hlast
        have hbefore : run.set.last = some last := hkeeps.last.symm.trans hlast
        have hmem := h.last last hbefore
        have hmono : Published { run' with sealed := run.sealed } :=
          h.mono rfl hkeeps.last hkeeps.serials hkeeps.entered
        have hin (named : NamedVersions) (hnamed : named ∈ run'.sealed) : named ∈ run.sealed := by
          rw [hsealed'] at hnamed
          rcases List.mem_cons.mp hnamed with heq | hold
          · exact heq ▸ hmem
          · exact hold
        refine ⟨fun named hnamed => hmono.entries named (hin named hnamed), ?_,
          fun named hnamed => ?_, fun named hnamed => hmono.newest named (hin named hnamed),
          fun named hnamed => hmono.serial named (hin named hnamed)⟩
        · rw [hsealed']
          refine List.pairwise_cons.mpr ⟨fun older holder => ?_, h.order⟩
          obtain ⟨last', hlast', hle⟩ := h.newest older holder
          rw [hbefore] at hlast'
          cases hlast'
          exact hle
        · rw [hsealed']
          exact List.mem_cons_of_mem _ (h.last named (hkeeps.last.symm.trans hnamed))
      · -- a new set
        rw [hresult] at named
        obtain ⟨hfirst, hafter⟩ := Prod.mk.inj named
        rw [← hfirst] at ok
        rw [← hafter] at hset
        have hsealed' : run'.sealed = made.nameVersions run.buffers :: run.sealed := by
          rcases hsealed with ⟨sealed, named, hok, hnamed, hsealed⟩ | ⟨-, hnone⟩
          · rw [ok] at hok
            cases hok
            cases hnamed
            exact hsealed
          · exact absurd (hnone _ ok) (Option.some_ne_none _)
        have hentered : run'.set.entered = made.entered := by rw [hset]
        have hserials : run'.set.serials = made.serials + 1 := by rw [hset]
        have hlast : run'.set.last = some (made.nameVersions run.buffers) := by rw [hset]
        have hslots : ∀ i, Held made i := fun i =>
          latched.sameSlots.held (quiet.sameSlots.held (hheld.held i))
        refine ⟨fun named hnamed i hsome => ?_, ?_, fun named hnamed => ?_, fun named hnamed => ?_,
          fun named hnamed => ?_⟩
        · rw [hsealed'] at hnamed
          rw [hentered]
          rcases List.mem_cons.mp hnamed with heq | hold
          · rw [heq, nameVersions_entry] at hsome ⊢
            by_cases hnameable : nameable (made.slot i) = true
            · rw [if_pos hnameable] at hsome ⊢
              rcases hslots i with hempty | ⟨-, hmade⟩
              · exact absurd (by rw [hempty]) hsome
              · exact ⟨_, hmade⟩
            · rw [if_neg hnameable] at hsome
              exact absurd rfl hsome
          · obtain ⟨grown, hmade⟩ := h.entries named hold i hsome
            exact ⟨grown, hkeeps.entered _ hmade⟩
        · rw [hsealed']
          refine List.pairwise_cons.mpr ⟨fun older holder => Or.inr ?_, h.order⟩
          have hle := h.serial older holder
          have hmade := hkeeps.serials
          show older.serial < made.serials + 1
          omega
        · rw [hlast] at hnamed
          cases hnamed
          rw [hsealed']
          exact List.mem_cons_self
        · rw [hsealed'] at hnamed
          refine ⟨_, hlast, ?_⟩
          rcases List.mem_cons.mp hnamed with heq | hold
          · exact Or.inl heq
          · have hle := h.serial named hold
            have hmade := hkeeps.serials
            refine Or.inr ?_
            show named.serial < made.serials + 1
            omega
        · rw [hsealed'] at hnamed
          rw [hserials]
          rcases List.mem_cons.mp hnamed with heq | hold
          · rw [heq]
            exact Nat.le_refl _
          · have hle := h.serial named hold
            have hmade := hkeeps.serials
            omega

/-! ## Every step -/

/-- The batch's requests keep their handles, and are due what `done` was given. -/
theorem dueOf_done (batch : Batch) (state : Batch.State) :
    (dueOf (some { batch with state })).map Prod.fst = (dueOf (some batch)).map Prod.fst := by
  unfold dueOf
  rw [List.map_map, List.map_map]
  rfl

theorem doneState_version {batch : Batch} {versions : Nat}
    {grown : Option (List MadeVersion × List Nat)} {error : String} {place : Nat}
    {version : BufferVersion}
    (h : Batch.versionAt { batch with state := doneState batch versions grown error } place
      = some version) :
    versions ≤ version.id ∧ version.id < versions + (grown.map (·.1.length)).getD 0 := by
  unfold Batch.versionAt doneState at h
  dsimp only at h
  cases grown with
  | none => cases h
  | some grown =>
    rcases grown with ⟨made, leases⟩
    dsimp only at h
    split at h
    next versions' leases' hstate =>
      split at hstate
      · cases hstate
        rw [List.getElem?_map] at h
        obtain ⟨entry, hentry, heq⟩ := Option.map_eq_some_iff.mp h
        rw [List.getElem?_zipIdx] at hentry
        obtain ⟨version', hget, hpair⟩ := Option.map_eq_some_iff.mp hentry
        obtain ⟨hlt, -⟩ := List.getElem?_eq_some_iff.mp hget
        rw [← heq, ← hpair]
        show versions ≤ versions + (0 + place) ∧ versions + (0 + place) < versions + made.length
        omega
      · cases hstate
    · cases h

theorem RunSound.done {batch : Batch} {grown : Option (List MadeVersion × List Nat)}
    {error : String} (h : RunSound run) (hbatch : run.set.batch = some batch) :
    RunSound { run with
      set := { run.set with
        batch := some { batch with state := doneState batch run.versions grown error } }
      versions := run.versions + (grown.map (·.1.length)).getD 0 } := by
  unfold RunSound at h ⊢
  have hsound : Sound run.buffers (run.set.registered ++ run.pushing)
      (run.versions + (grown.map (·.1.length)).getD 0) (dueOf run.set.batch) run.set :=
    Sound.withBuffers h (Nat.le_refl _) (Nat.le_add_right _ _) fun buffer hmem version hversion =>
      Nat.lt_of_lt_of_le (h.current buffer hmem version hversion) (Nat.le_add_right _ _)
  have hdue := hsound.withDue (dueOf (some { batch with
      state := doneState batch run.versions grown error })) ?_ ?_ ?_
  · exact hdue.same ⟨rfl, rfl, Nat.le_refl _, fun _ => rfl⟩
  · rw [dueOf_done, ← hbatch]
    exact h.dueDistinct
  · intro request hmem version hversion
    obtain ⟨original, -, heq⟩ := List.mem_map.mp hmem
    rw [← heq] at hversion
    obtain ⟨hle, hlt⟩ := doneState_version hversion
    refine ⟨hlt, fun made hmade _ hsame => ?_⟩
    obtain ⟨known, hknown, hbelow⟩ := h.ledger.known made hmade
    rw [hknown] at hsame
    cases hsame
    omega
  · intro i hi request hmem
    have hfirst : request.1 ∈ (dueOf run.set.batch).map Prod.fst := by
      rw [hbatch, ← dueOf_done batch (doneState batch run.versions grown error)]
      exact List.mem_map_of_mem hmem
    obtain ⟨other, hother, heq⟩ := List.mem_map.mp hfirst
    rw [← heq]
    exact (h.spare i hi).2.2 other hother

/-- A node that is pushed is one of the same nodes. -/
theorem push_perm {place : Nat} {node : Registered} (hget : run.pushing[place]? = some node) :
    (node :: run.set.registered ++ run.pushing.eraseIdx place).Perm
      (run.set.registered ++ run.pushing) := by
  obtain ⟨hlt, heq⟩ := List.getElem?_eq_some_iff.mp hget
  have herase : (run.pushing[place] :: run.pushing.eraseIdx place).Perm run.pushing :=
    List.getElem_cons_eraseIdx_perm hlt
  rw [heq] at herase
  exact (List.perm_middle.symm).trans (herase.append_left run.set.registered)

theorem runSound_step {action : Action} (h : RunSound run) (hpublished : Published run)
    (hstep : run.step action = some run') : RunSound run' := by
  have hknown {buffers' : List VersionedBuffer} {versions' : Nat}
      (haged : Aged (fun version => version.id < versions') run.buffers buffers')
      (hle : run.versions ≤ versions') :
      RunSound { run with buffers := buffers', versions := versions' } := by
    refine Sound.withBuffers h haged.length hle (haged.current ?_)
    intro buffer hmem version hversion
    exact Nat.lt_of_lt_of_le (h.current buffer hmem version hversion) hle
  cases step_moved hstep with
  | create =>
    refine hknown ⟨?_, fun j after hget hlt => ?_, fun hold buffer hmem version hversion => ?_⟩
      (Nat.le_succ _)
    · rw [List.length_append]
      exact Nat.le_add_right _ _
    · rw [List.getElem?_append_left hlt] at hget
      exact ⟨after, hget, rfl, id⟩
    · rcases List.mem_append.mp hmem with hmem | hmem
      · exact hold buffer hmem version hversion
      · cases List.mem_singleton.mp hmem
        obtain ⟨made, -, heq⟩ := Option.map_eq_some_iff.mp hversion
        rw [← heq]
        exact Nat.lt_succ_self _
  | expire =>
    exact hknown (aged_modify (fun held => { held with live := false }) (fun _ => rfl)
      (fun _ h => Bool.noConfusion h) (fun _ _ h => Or.inl h) _ _) (Nat.le_refl _)
  | @renew buffer made =>
    refine hknown (aged_modify
      (fun held => { held with current := some (made.version run.versions) }) (fun _ => rfl)
      (fun _ h => h) (fun _ version h => Or.inr ?_) _ _) (Nat.le_succ _)
    cases h
    exact Nat.lt_succ_self _
  | @adoptAll place named hget =>
    refine hknown (adoptAll_aged (fun entry hmem version hversion => ?_) _) (Nat.le_refl _)
    obtain ⟨i, hentry⟩ := List.mem_iff_getElem?.mp hmem
    have hshown : named.entries.getD i {} = entry := by
      rw [List.getD_eq_getElem?_getD, hentry]
      rfl
    obtain ⟨grown, hmade⟩ := hpublished.entries named (List.mem_of_getElem? hget) i (by
      rw [hshown, hversion]
      exact Option.some_ne_none _)
    obtain ⟨known, hknown, hlt⟩ := h.ledger.known _ hmade
    rw [hshown, hversion] at hknown
    cases hknown
    exact hlt
  | refused => exact h
  | @register registration buffer held hlock hunit =>
    obtain ⟨hlt, -⟩ := List.getElem?_eq_some_iff.mp (lock_mem hlock).1
    unfold RunSound
    dsimp only
    rw [← List.append_assoc]
    exact Sound.register h hlt _ _
  | refusedLatch => exact h
  | registerLatch =>
    unfold RunSound
    dsimp only
    rw [← List.append_assoc]
    exact Sound.registerLatch h _ _
  | push hget => exact (Sound.perm h (push_perm hget)).same ⟨rfl, rfl, Nat.le_refl _, fun _ => rfl⟩
  | begin =>
    have htaken := Sound.takeRegistered h
    rw [← (takeRegistered_fields run.buffers run.set).1] at htaken
    unfold RunSound
    dsimp only
    rw [begin_registered]
    exact htaken.settle.leave
  | handleOf =>
    obtain ⟨hbatch, -, hnil, -⟩ := takeRegistered_fields run.buffers run.set
    unfold RunSound
    dsimp only
    rw [hnil, hbatch]
    exact Sound.takeRegistered h
  | @sealBuild asks host _ hseal =>
    unfold RunSound
    rw [hseal.buffers, hseal.pushing, hseal.versions, hseal.set]
    rcases sealAsks_cases run asks host with ⟨what, -, heq⟩ | ⟨build, -, heq⟩
    · rw [heq]
      exact h
    · rw [heq]
      obtain ⟨hended, -⟩ := sealBuild_both run.buffers host build run.set
      obtain ⟨-, -, hnil, -⟩ := takeRegistered_fields run.buffers run.set
      rw [hended.registered, hnil]
      exact Sound.seal h
  | @capture place stamp batch hbatch _ _ =>
    unfold RunSound at h ⊢
    rw [hbatch] at h
    exact h.same ⟨rfl, rfl, Nat.le_refl _, fun _ => rfl⟩
  | done hbatch _ _ => exact h.done hbatch
  | others => exact Sound.same h ⟨rfl, rfl, Nat.le_add_right _ _, fun _ => rfl⟩

/-- A step other than a seal publishes nothing, and keeps what is published. -/
theorem step_keeps {action : Action} (hstep : run.step action = some run')
    (hseal : ∀ asks host, action ≠ .sealBuild asks host) :
    run'.sealed = run.sealed ∧ Keeps run.set run'.set := by
  have hrefl : Keeps run.set run.set := ⟨rfl, Nat.le_refl _, fun _ h => h⟩
  cases step_moved hstep with
  | create => exact ⟨rfl, hrefl⟩
  | expire => exact ⟨rfl, hrefl⟩
  | renew => exact ⟨rfl, hrefl⟩
  | adoptAll => exact ⟨rfl, hrefl⟩
  | refused => exact ⟨rfl, hrefl⟩
  | register => exact ⟨rfl, rfl, Nat.le_succ _, fun _ h => h⟩
  | refusedLatch => exact ⟨rfl, hrefl⟩
  | registerLatch => exact ⟨rfl, rfl, Nat.le_refl _, fun _ h => h⟩
  | push => exact ⟨rfl, rfl, Nat.le_refl _, fun _ h => h⟩
  | begin => exact ⟨rfl, begin_keeps run.buffers run.set⟩
  | handleOf => exact ⟨rfl, takeRegistered_keeps run.buffers run.set⟩
  | @sealBuild asks host => exact absurd rfl (hseal asks host)
  | capture => exact ⟨rfl, rfl, Nat.le_refl _, fun _ h => h⟩
  | done => exact ⟨rfl, rfl, Nat.le_refl _, fun _ h => h⟩
  | others => exact ⟨rfl, rfl, Nat.le_add_right _ _, fun _ h => h⟩

theorem published_init (hooks : GrowableBufferSetHooks) : Published (init hooks) where
  entries _ h := absurd h List.not_mem_nil
  order := List.Pairwise.nil
  last _ h := by cases h
  newest _ h := absurd h List.not_mem_nil
  serial _ h := absurd h List.not_mem_nil

theorem published_step {action : Action} (h : RunSound run) (hpublished : Published run)
    (hstep : run.step action = some run') : Published run' := by
  by_cases hseal : ∃ asks host, action = .sealBuild asks host
  · obtain ⟨asks, host, heq⟩ := hseal
    subst heq
    exact hpublished.seal h (step_seal hstep)
  · obtain ⟨hsealed, hkeeps⟩ := step_keeps hstep fun asks host heq => hseal ⟨asks, host, heq⟩
    exact hpublished.mono hsealed hkeeps.last hkeeps.serials hkeeps.entered

theorem account_reachable (h : Run.Reachable step (init hooks) run) :
    RunSound run ∧ Published run :=
  h.invariant (I := fun run => RunSound run ∧ Published run)
    ⟨runSound_init hooks, published_init hooks⟩
    fun _ hinv _ hstep => ⟨runSound_step hinv.1 hinv.2 hstep,
      published_step hinv.1 hinv.2 hstep⟩

theorem of_ok {named : NamedVersions} {i : Nat} {entry : NamedEntry}
    (h : named.of i = .ok entry) : named.entries.getD i {} = entry ∧ entry.version ≠ none := by
  unfold NamedVersions.of at h
  split at h
  next hnames =>
    cases h
    unfold NamedVersions.names at hnames
    exact ⟨rfl, Option.isSome_iff_ne_none.mp hnames⟩
  · cases h

/-- A serial identifies what it is given to. The sets a run's seals return have serials that never
fall, and one serial is one set. And of any two entries that sets of the run name, of whatever sets
and handles, the serials are equal exactly when both are for one handle and of one version; then
they are the same entry, lease and stamp included. So a writer that keeps the serial it filled knows
its version again, though the version was made into a backing used before. -/
theorem serials_identify (h : Run.Reachable step (init hooks) run) :
    run.sealed.Pairwise (fun newer older => older = newer ∨ older.serial < newer.serial)
      ∧ ∀ named ∈ run.sealed, ∀ named' ∈ run.sealed, ∀ i j entry entry',
        named.of i = .ok entry → named'.of j = .ok entry' →
        (entry.serial = entry'.serial ↔ i = j ∧ entry.version = entry'.version)
          ∧ (entry.serial = entry'.serial → entry = entry') := by
  obtain ⟨hsound, hpublished⟩ := account_reachable h
  refine ⟨hpublished.order, ?_⟩
  intro named hnamed named' hnamed' i j entry entry' hof hof'
  obtain ⟨hentry, hsome⟩ := of_ok hof
  obtain ⟨hentry', hsome'⟩ := of_ok hof'
  subst hentry hentry'
  obtain ⟨grown, hmade⟩ := hpublished.entries named hnamed i hsome
  obtain ⟨grown', hmade'⟩ := hpublished.entries named' hnamed' j hsome'
  have hserial := fun heq => hsound.ledger.of_serial hmade hmade' heq
  refine ⟨⟨fun heq => ?_, fun hboth => ?_⟩, fun heq => ?_⟩
  · have hsame := hserial heq
    exact ⟨congrArg Entered.handle hsame, congrArg (fun made => made.entry.version) hsame⟩
  · have hsame := hsound.ledger.of_version hmade hmade' hboth.1 hboth.2
    exact congrArg (fun made : Entered => made.entry.serial) hsame
  · exact congrArg Entered.entry (hserial heq)

theorem of_names {named : NamedVersions} {i : Nat} (h : named.names i = true) :
    named.of i = .ok (named.entries.getD i {}) := by
  unfold NamedVersions.of
  rw [if_pos h]

/-- A registered buffer, sealed at its first version and again once it has grown. -/
def growTrace : List Action :=
  [.create 7 (some { size := 4 }), .register { name := "rows", extent := { unitBytes := 4 } } (some 0),
    .push 0, .begin, .sealBuild [.units 0 1] {}, .begin, .sealBuild [.units 0 5] {},
    .done (some ([{ size := 32 }], [3])) "", .begin, .sealBuild [.units 0 5] {}]

/-- The grown version has another serial. -/
theorem serials_identify_grown :
    ∃ run, Run.Reachable step (init { pool := some 1 }) run
      ∧ ∃ named ∈ run.sealed, ∃ named' ∈ run.sealed, named.names 0 = true ∧ named'.names 0 = true
        ∧ (named.entries.getD 0 {}).serial ≠ (named'.entries.getD 0 {}).serial := by
  have h : (Run.exec step (init { pool := some 1 }) growTrace).any (fun run =>
      decide (∃ named ∈ run.sealed, ∃ named' ∈ run.sealed,
        named.names 0 = true ∧ named'.names 0 = true
          ∧ (named.entries.getD 0 {}).version ≠ (named'.entries.getD 0 {}).version)) = true := by
    decide +kernel
  obtain ⟨run, hrun, hshown⟩ := (Option.any_eq_true _ _).mp h
  obtain ⟨named, hnamed, named', hnamed', hnames, hnames', hdiffer⟩ := of_decide_eq_true hshown
  have hreachable : Run.Reachable step (init { pool := some 1 }) run := Run.exec_reachable hrun
  have hiff := ((serials_identify hreachable).2 named hnamed named' hnamed' 0 0 _ _
    (of_names hnames) (of_names hnames')).1
  exact ⟨run, hreachable, named, hnamed, named', hnamed', hnames, hnames',
    fun heq => hdiffer (hiff.mp heq).2⟩

end GrowableRun

end ModuleServices.Growth
