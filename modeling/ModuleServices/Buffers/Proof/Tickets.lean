import ModuleServices.Buffers.Proof.CatchUp
import ModuleServices.Buffers.Tickets

/-!
# An epoch is honest while no upload it stands on is lost

A build makes the same change twice: to the contents its backing is to have, and, through
the tickets it queues, to the memory as it will be. So the two agree after the build if
they agreed before it, which for a backing that claims nothing is arranged by looking
into it and for one that claims a position is the invariant. Landing changes neither;
what can part them is a cancelled ticket.
-/

namespace ModuleServices.Proof

open ModuleServices UploadTicket TicketWorld

/-- Every backing is to have what the memory gives its generation. -/
def Agrees (memory : Memory) (pool : BackingSet) : Prop :=
  ∀ backing ∈ pool.all, backing.contents = memory backing.generation

/-- What a build does to its backing apart from the contents. -/
def SameBytes (backing backing' : Backing) : Prop :=
  backing'.generation = backing.generation ∧ backing'.contents = backing.contents

theorem SameBytes.refl (backing : Backing) : SameBytes backing backing := ⟨rfl, rfl⟩

/-! ## The pool -/

theorem agrees_modify {memory : Memory} {pool : BackingSet} (h : Agrees memory pool)
    {generation : Nat} {f : Backing → Backing}
    (hf : ∀ backing ∈ pool.all, backing.generation = generation →
      (f backing).contents = memory (f backing).generation) :
    Agrees memory (pool.modify generation f) := by
  intro _ hmodified
  obtain ⟨backing, hmem, rfl⟩ := List.mem_map.mp hmodified
  split
  · exact hf backing hmem ‹_›
  · exact h backing hmem

theorem agrees_release {memory : Memory} {pool : BackingSet} (h : Agrees memory pool)
    (released : List Nat) : Agrees memory (pool.release released) :=
  fun backing hmem => h backing (List.mem_of_mem_filter hmem)

/-- The pool's own choices, a fresh allocation showing its memory. -/
def Fresh (memory : Memory) (pool : BackingSet) : AcquireChoice → Prop
  | .allocate _ fill => fill = memory pool.nextGeneration
  | _ => True

theorem acquire_agrees {memory : Memory} {pool pool' : BackingSet} {request : BackingRequest}
    {choice : AcquireChoice} {released : List Nat} {result : Except String (Option (Nat × Bool))}
    (h : Agrees memory pool) (hchoice : Fresh memory pool choice)
    (hacquire : pool.acquire request choice released = some (pool', result)) :
    Agrees memory pool' := by
  cases choice with
  | reuse generation =>
    simp only [BackingSet.acquire] at hacquire
    split at hacquire
    · cases hacquire
    · split at hacquire <;> cases hacquire
      refine agrees_release (agrees_modify h ?_) released
      exact fun backing hmem _ => h backing hmem
  | allocate buffer fill =>
    simp only [BackingSet.acquire] at hacquire
    split at hacquire <;> cases hacquire
    intro backing hmem
    rcases List.mem_append.mp hmem with hmem | hmem
    · exact agrees_release h released backing hmem
    · rw [List.mem_singleton.mp hmem]
      exact hchoice
  | exhausted =>
    cases hacquire
    exact agrees_release h released
  | throws error =>
    cases hacquire
    exact agrees_release h released

theorem find?_agrees {memory : Memory} {pool : BackingSet} (h : Agrees memory pool)
    {generation : Nat} {backing : Backing} (hfind : pool.find? generation = some backing) :
    backing.generation = generation ∧ backing.contents = memory generation := by
  have hgeneration : backing.generation = generation := by
    simpa using List.find?_some hfind
  exact ⟨hgeneration, hgeneration ▸ h backing (List.mem_of_find?_eq_some hfind)⟩

/-! ## The plain path -/

/-- The ranges written in order. -/
def written (ranges : List StreamingUploadRange) (contents : Nat → Byte) : Nat → Byte :=
  ranges.foldl (fun bytes range => applyUpload bytes range.dstOffset range.data) contents

/-- The loop over the ranges applies what it queues. -/
theorem uploadAll_written (image : BufferImage) (stray : Nat → Byte) (retired : Bool)
    (ranges : List DirtyRange) (contents : Nat → Byte) :
    (uploadAll image stray retired ranges contents).1
      = written (queuedRanges image stray retired ranges) contents := by
  induction ranges generalizing contents with
  | nil => rfl
  | cons range ranges ih =>
    unfold uploadAll queuedRanges
    cases gather image stray range.size range.size range.offset with
    | none => rfl
    | some bytes =>
      cases retired with
      | true => rfl
      | false => exact ih _

/-- `Build` leaves its backing with what it queued written over it. -/
theorem buildInto_written {input : VersionedBufferBuildInput} {context : VersionedBufferBuildContext}
    {choice : ClassChoice} {allocated : Bool} {backing backing' : Backing}
    {outcome : VersionedBufferBuildOutcome}
    (h : buildInto input context choice allocated backing = (backing', outcome)) :
    backing'.generation = backing.generation
      ∧ backing'.contents = written (buildRanges input context allocated backing) backing.contents := by
  unfold buildInto at h
  unfold buildRanges
  split at h
  · rename_i hsmall
    cases h
    rw [if_pos hsmall]
    exact ⟨rfl, rfl⟩
  rename_i hsmall
  rw [if_neg hsmall]
  cases himage : buildImage input with
  | error error =>
    rw [himage] at h
    cases h
    exact ⟨rfl, rfl⟩
  | ok image =>
    rw [himage] at h
    simp only at h
    by_cases hstop : context.stopRequested₂ = true
    · rw [if_pos hstop] at h
      cases h
      cases image <;> simp [hstop, written]
    rw [if_neg hstop] at h
    by_cases hbuffer : backing.buffer = true
    · simp only [hbuffer, Bool.not_true, Bool.false_eq_true, if_false] at h
      have hfilled : backing' = (fill input context image allocated backing).1 := by
        split at h <;> cases h <;> simp_all
      subst hfilled
      unfold fill
      cases image with
      | none => exact ⟨rfl, rfl⟩
      | some image =>
        simp only [hstop, hbuffer, Bool.not_true, Bool.or_self, Bool.false_eq_true, if_false]
        by_cases hneeds : needsInitialContent input = true ∧ image.byteSize ≠ 0
        · simp only [if_pos hneeds]
          rw [← uploadAll_written]
          cases uploadAll image context.stray backing.retired
              (uploadRanges input image backing allocated) backing.contents with
          | mk contents error => cases error <;> exact ⟨rfl, rfl⟩
        · rw [if_neg hneeds, if_neg hneeds]
          exact ⟨rfl, rfl⟩
    · rw [Bool.not_eq_true] at hbuffer
      simp only [hbuffer, Bool.not_false, if_true] at h
      cases h
      cases image <;> simp [hbuffer, written]

/-- Tickets of one range each land as the ranges written in order. -/
theorem land_ranges (generation : Nat) (ranges : List StreamingUploadRange) (memory : Memory) :
    (ranges.map fun range => { generation, writes := .uploads [range] : UploadTicket }).foldl land memory
      = fun g => if g = generation then written ranges (memory generation) else memory g := by
  induction ranges generalizing memory with
  | nil =>
    funext g
    by_cases hg : g = generation
    · rw [if_pos hg, hg]
      rfl
    · rw [if_neg hg]
      rfl
  | cons range ranges ih =>
    rw [List.map_cons, List.foldl_cons, ih]
    funext g
    by_cases hg : g = generation
    · rw [if_pos hg, if_pos hg]
      unfold land
      rw [if_pos rfl]
      rfl
    · rw [if_neg hg, if_neg hg]
      exact if_neg hg

/-- A build leases nothing, or it is `Build`'s body on what it leased. -/
inductive Builds (input : VersionedBufferBuildInput) (context : VersionedBufferBuildContext)
    (pool : BackingSet) (choice : AcquireChoice) (released : List Nat) :
    BackingSet → Option PublishedBufferVersion → List UploadTicket → Prop where
  | refused : Builds input context pool choice released pool none []
  | empty {pool' : BackingSet} {request : BackingRequest}
      {result : Except String (Option (Nat × Bool))}
      (hacquire : pool.acquire request choice released = some (pool', result)) :
      Builds input context pool choice released pool' none []
  | leased {pool' : BackingSet} {request : BackingRequest} {cls : ClassChoice} {generation : Nat}
      {allocated : Bool} {leased backing kept : Backing} {outcome : VersionedBufferBuildOutcome}
      (hacquire : pool.acquire request choice released = some (pool', .ok (some (generation, allocated))))
      (hfind : pool'.find? generation = some leased)
      (hinto : buildInto input context cls allocated leased = (backing, outcome))
      (hkept : SameBytes backing kept ∧ kept.contentEpoch = backing.contentEpoch
        ∧ kept.image = backing.image) :
      Builds input context pool choice released (pool'.modify generation fun _ => kept)
        outcome.version ((buildRanges input context allocated leased).map fun range =>
          { generation, writes := .uploads [range] })

theorem build_cases {pool pool' : BackingSet} {input : VersionedBufferBuildInput}
    {context : VersionedBufferBuildContext} {choice : AcquireChoice} {released : List Nat}
    {outcome : VersionedBufferBuildOutcome}
    (hbuild : buildVersionedBuffer input context pool choice released = some (pool', outcome)) :
    Builds input context pool choice released pool' outcome.version
      (buildTickets input context pool choice released) := by
  unfold buildVersionedBuffer at hbuild
  unfold buildTickets
  split at hbuild
  · rename_i hservice
    cases hbuild
    rw [if_pos hservice]
    exact .refused
  rename_i hservice
  rw [if_neg hservice]
  split at hbuild
  · rename_i hpool
    cases hbuild
    rw [if_pos hpool]
    exact .refused
  rename_i hpool
  rw [if_neg hpool]
  split at hbuild
  · rename_i hstop
    cases hbuild
    rw [if_pos hstop]
    exact .refused
  rename_i hstop
  rw [if_neg hstop]
  cases hclass : chooseClass input context.now with
  | error error =>
    rw [hclass] at hbuild
    cases hbuild
    exact .refused
  | ok cls =>
    rw [hclass] at hbuild
    simp only at hbuild ⊢
    generalize hrequest : ({ capacityClass := cls.capacityClass, stride := input.elementStride
                             flags := input.flags } : BackingRequest) = request at hbuild ⊢
    cases hacquire : pool.acquire request choice released with
    | none =>
      rw [hacquire] at hbuild
      cases hbuild
    | some acquired =>
      obtain ⟨acquired, result⟩ := acquired
      rw [hacquire] at hbuild
      rcases result with error | _ | ⟨generation, allocated⟩
      · cases hbuild
        exact .empty hacquire
      · simp only at hbuild
        split at hbuild <;> cases hbuild <;> exact .empty hacquire
      · simp only at hbuild ⊢
        cases hfind : acquired.find? generation with
        | none =>
          rw [hfind] at hbuild
          cases hbuild
        | some leased =>
          rw [hfind] at hbuild
          simp only at hbuild ⊢
          cases hinto : buildInto input context cls allocated leased with
          | mk backing outcome' =>
            rw [hinto] at hbuild
            simp only [Option.some.injEq, Prod.mk.injEq] at hbuild
            obtain ⟨rfl, rfl⟩ := hbuild
            refine .leased hacquire hfind hinto ?_
            split <;> exact ⟨⟨rfl, rfl⟩, rfl, rfl⟩

/-- **A plain build makes one change to contents and memory.** -/
theorem Builds.agrees {memory : Memory} {pool pool' : BackingSet} {input : VersionedBufferBuildInput}
    {context : VersionedBufferBuildContext} {choice : AcquireChoice} {released : List Nat}
    {version : Option PublishedBufferVersion} {tickets : List UploadTicket}
    (hbuilds : Builds input context pool choice released pool' version tickets)
    (h : Agrees memory pool) (hchoice : Fresh memory pool choice) :
    Agrees (tickets.foldl land memory) pool' := by
  cases hbuilds with
  | refused => exact h
  | empty hacquire => exact acquire_agrees h hchoice hacquire
  | @leased acquired _ _ generation allocated leased backing kept _ hacquire hfind hinto hkept =>
    have hacquired := acquire_agrees h hchoice hacquire
    obtain ⟨hgeneration, hcontents⟩ := find?_agrees hacquired hfind
    obtain ⟨hsame, hwritten⟩ := buildInto_written hinto
    rw [land_ranges]
    intro _ hmodified
    obtain ⟨b, hb, rfl⟩ := List.mem_map.mp hmodified
    split
    · have hat : kept.generation = generation := hkept.1.1.trans (hsame.trans hgeneration)
      rw [hkept.1.2, hwritten, hcontents]
      exact (if_pos hat).symm
    · exact (hacquired b hb).trans (if_neg ‹_›).symm

/-! ## The predecessor path -/

/-- The body touches no byte, and forgets the backing it fills. -/
theorem predecessorInto_same {input : PredecessorInput} {context : PredecessorContext}
    {choice : ClassChoice} {emitDelta : Except String (List DeltaWrite)} {allocated : Bool}
    {backing backing' : Backing} {queued : Queued} {outcome : VersionedBufferBuildOutcome}
    (h : predecessorInto input context choice emitDelta allocated backing
      = (backing', queued, outcome)) :
    SameBytes backing backing' ∧ (backing' = backing ∧ outcome.version = none
      ∨ backing'.image = none ∧ ∀ version, outcome.version = some version →
        version.backingEpoch = backing.generation) := by
  unfold predecessorInto at h
  simp only at h
  repeat' split at h
  all_goals
    cases h
    first
      | exact ⟨⟨rfl, rfl⟩, .inl ⟨rfl, rfl⟩⟩
      | exact ⟨⟨rfl, rfl⟩, .inr ⟨rfl, fun _ hversion => (by cases hversion <;> rfl)⟩⟩

/-- A build leases nothing, or it is the body on what it leased. -/
inductive BuildsFrom (pool : BackingSet) (choice : AcquireChoice) (released : List Nat) :
    BackingSet → Option PublishedBufferVersion → Prop where
  | refused : BuildsFrom pool choice released pool none
  | empty {pool' : BackingSet} {request : BackingRequest}
      {result : Except String (Option (Nat × Bool))}
      (hacquire : pool.acquire request choice released = some (pool', result)) :
      BuildsFrom pool choice released pool' none
  | leased {pool' : BackingSet} {request : BackingRequest} {generation : Nat} {allocated : Bool}
      {leased kept : Backing} {version : Option PublishedBufferVersion}
      (hacquire : pool.acquire request choice released = some (pool', .ok (some (generation, allocated))))
      (hfind : pool'.find? generation = some leased) (hsame : SameBytes leased kept)
      (hkept : kept.contentEpoch = leased.contentEpoch ∧ kept.image = leased.image ∧ version = none
        ∨ kept.image = none ∧ ∀ v, version = some v → v.backingEpoch = leased.generation) :
      BuildsFrom pool choice released (pool'.modify generation fun _ => kept) version

theorem buildFrom_cases {pool : BackingSet} {input : PredecessorInput}
    {context : PredecessorContext} {choice : AcquireChoice} {released : List Nat}
    {built : PredecessorBuilt}
    (hbuild : ModuleServices.buildFromPredecessor input context pool choice released = some built) :
    BuildsFrom pool choice released built.pool built.outcome.version := by
  unfold ModuleServices.buildFromPredecessor at hbuild
  split at hbuild
  · cases hbuild
    exact .refused
  · cases hbuild
  rename_i emitDelta hrefusal hemit
  split at hbuild
  · cases hbuild
    exact .refused
  split at hbuild
  · cases hbuild
    exact .refused
  rename_i cls hclass
  simp only at hbuild
  split at hbuild
  · cases hbuild
  · rename_i hacquire
    cases hbuild
    exact .empty hacquire
  · rename_i hacquire
    split at hbuild <;> cases hbuild <;> exact .empty hacquire
  · rename_i acquired generation allocated hacquire
    split at hbuild
    · cases hbuild
    · rename_i leased hfind
      generalize hinto : predecessorInto input context cls emitDelta allocated leased = into at hbuild
      obtain ⟨backing, queued, outcome⟩ := into
      obtain ⟨hsame, hkept⟩ := predecessorInto_same hinto
      cases hbuild
      refine .leased hacquire hfind ?_ ?_
      · split <;> exact hsame
      · rcases hkept with ⟨rfl, hversion⟩ | hkept
        · left
          split <;> exact ⟨rfl, rfl, hversion⟩
        · right
          split <;> exact hkept

/-- The build itself writes nothing: what it queues is applied by its tickets. -/
theorem BuildsFrom.agrees {memory : Memory} {pool pool' : BackingSet} {choice : AcquireChoice}
    {released : List Nat} {version : Option PublishedBufferVersion}
    (hbuilds : BuildsFrom pool choice released pool' version) (h : Agrees memory pool)
    (hchoice : Fresh memory pool choice) : Agrees memory pool' := by
  cases hbuilds with
  | refused => exact h
  | empty hacquire => exact acquire_agrees h hchoice hacquire
  | leased hacquire hfind hsame =>
    have hacquired := acquire_agrees h hchoice hacquire
    obtain ⟨hgeneration, hcontents⟩ := find?_agrees hacquired hfind
    refine agrees_modify hacquired fun b _ _ => ?_
    rw [hsame.2, hsame.1, hcontents, hgeneration]

/-- The copies' and the uploads' tickets land as the batch. -/
theorem land_predecessor (source : CopySource) (bytes : Nat → Byte) (memory : Memory)
    (hsource : ∀ generation, source = .pooled generation → bytes = memory generation)
    (helsewhere : ∀ b, source = .elsewhere b → bytes = b) {built : PredecessorBuilt}
    {version : PublishedBufferVersion} (hversion : built.outcome.version = some version) :
    (predecessorTickets source built).foldl land memory = fun g =>
      if g = version.backingEpoch then built.queued.apply bytes (memory version.backingEpoch)
      else memory g := by
  have hcopies : (if built.queued.copies = [] then []
      else [{ generation := version.backingEpoch
              writes := .copies source built.queued.copies : UploadTicket }]).foldl land memory
      = fun g => if g = version.backingEpoch then
          built.queued.copies.foldl (applyCopy bytes) (memory version.backingEpoch)
        else memory g := by
    split
    · rename_i hnone
      funext g
      by_cases hg : g = version.backingEpoch
      · rw [if_pos hg, hnone, hg]
        rfl
      · rw [if_neg hg]
        rfl
    · funext g
      change (if g = version.backingEpoch then _ else _) = _
      cases source with
      | pooled generation => rw [hsource generation rfl]; rfl
      | elsewhere b => rw [helsewhere b rfl]; rfl
  unfold predecessorTickets
  rw [hversion]
  simp only
  rw [List.foldl_append, hcopies]
  split
  · rename_i hnone
    funext g
    by_cases hg : g = version.backingEpoch
    · simp only [List.foldl_nil, if_pos hg, Queued.apply, hnone]
    · simp only [List.foldl_nil, if_neg hg]
  · funext g
    by_cases hg : g = version.backingEpoch
    · simp only [List.foldl_cons, List.foldl_nil, land, if_pos hg, result, if_true]
      rfl
    · simp only [List.foldl_cons, List.foldl_nil, land, if_neg hg]

/-! ## The images the backings keep -/

/-- A backing that claims a position and keeps an image shows it; and so did one of `w`'s. -/
def Shows (w : TicketWorld) (pool : BackingSet) : Prop :=
  ∀ backing ∈ pool.all, backing.contentEpoch ≠ 0 → ∀ image, backing.image = some image →
    Holds backing image
      ∧ ∃ held ∈ w.pool.all, held.contentEpoch = backing.contentEpoch ∧ held.image = some image

theorem acquire_shows {w : TicketWorld} {pool pool' : BackingSet} {request : BackingRequest}
    {choice : AcquireChoice} {released : List Nat} {result : Except String (Option (Nat × Bool))}
    (h : Shows w pool) (hacquire : pool.acquire request choice released = some (pool', result)) :
    Shows w pool' := by
  cases choice with
  | reuse generation =>
    simp only [BackingSet.acquire] at hacquire
    split at hacquire
    · cases hacquire
    · split at hacquire <;> cases hacquire
      intro _ hmodified hepoch image himage
      obtain ⟨backing, hmem, rfl⟩ := List.mem_map.mp (List.mem_of_mem_filter hmodified)
      split at hepoch <;> rename_i hgeneration
      · rw [if_pos hgeneration] at himage ⊢
        exact h backing hmem hepoch image himage
      · rw [if_neg hgeneration] at himage ⊢
        exact h backing hmem hepoch image himage
  | allocate buffer fill =>
    simp only [BackingSet.acquire] at hacquire
    split at hacquire <;> cases hacquire
    intro backing hmem hepoch image himage
    rcases List.mem_append.mp hmem with hmem | hmem
    · exact h backing (List.mem_of_mem_filter hmem) hepoch image himage
    · rw [List.mem_singleton.mp hmem] at hepoch
      exact absurd rfl hepoch
  | exhausted =>
    cases hacquire
    exact fun backing hmem => h backing (List.mem_of_mem_filter hmem)
  | throws error =>
    cases hacquire
    exact fun backing hmem => h backing (List.mem_of_mem_filter hmem)

/-- The backing shows the image it keeps, if it claims a position. -/
def ShowsImage (backing : Backing) : Prop :=
  backing.contentEpoch ≠ 0 → ∀ image, backing.image = some image → Holds backing image

theorem fromBytes_wf (bytes : List Byte) : (BufferImage.fromBytes bytes).WF :=
  Paged.chunks_dense bytes

/-- `Build` leaves its backing with the image it keeps. -/
theorem buildInto_shows {w : TicketWorld} {input : VersionedBufferBuildInput}
    {context : VersionedBufferBuildContext} {choice : ClassChoice} {allocated : Bool}
    {pool : BackingSet} {backing backing' : Backing} {outcome : VersionedBufferBuildOutcome}
    (hshows : Shows w pool) (hmem : backing ∈ pool.all) (hrecords : RecordsChanges w input)
    (h : buildInto input context choice allocated backing = (backing', outcome)) :
    ShowsImage backing' := by
  have hsame : ShowsImage backing := fun hepoch image himage =>
    (hshows backing hmem hepoch image himage).1
  unfold buildInto at h
  split at h
  · cases h
    exact hsame
  split at h
  · cases h
    exact hsame
  rename_i image himage
  split at h
  · cases h
    exact hsame
  split at h
  · cases h
    exact hsame
  generalize hfill : fill input context image allocated backing = filled at h
  obtain ⟨filled, error⟩ := filled
  have hfilled : backing' = filled := by
    cases error <;> cases h <;> rfl
  subst hfilled
  cases himage' : image with
  | none =>
    subst himage'
    unfold fill at hfill
    cases hfill
    intro _ image hnone
    simp only [ite_self] at hnone
    cases hnone
  | some image =>
    subst himage'
    cases hgpu : input.gpuWritten with
    | true =>
      -- what the GPU writes keeps no image
      intro hepoch image' hkept
      unfold fill at hfill
      simp only [hgpu, if_true] at hfill
      have hneeds : needsInitialContent input = false := by
        unfold needsInitialContent
        rw [hgpu]
        rfl
      rw [hneeds] at hfill
      simp only [Bool.false_eq_true, false_and, if_false] at hfill
      cases hfill
      cases hkept
    | false =>
      obtain hwritten | ⟨hneeds, hrecords⟩ := hrecords
      · rw [hgpu] at hwritten
        cases hwritten
      have hsource : image.WF ∧ (journalCoversBacking input image backing allocated = true →
          ∀ i, i < image.byteSize → BufferWorld.Recorded input.writes backing.contentEpoch i
            ∨ image.byteAt i = backing.contents i) := by
        unfold buildImage at himage
        cases hinput : input.image with
        | some given =>
          rw [hinput] at himage
          cases himage
          obtain ⟨hwf, hchanges⟩ := hrecords _ hinput
          refine ⟨hwf, fun hcovers i hi => ?_⟩
          unfold journalCoversBacking at hcovers
          simp only [Bool.and_eq_true, bne_iff_ne, decide_eq_true_eq] at hcovers
          obtain ⟨⟨⟨⟨⟨_, hsome⟩, hepoch⟩, hbase⟩, hle⟩, hkept⟩ := hcovers
          obtain ⟨held, hheld, hsize⟩ := (Option.any_eq_true _ _).mp hkept
          rw [beq_iff_eq] at hsize
          obtain ⟨hholds, old, hold, holdEpoch, holdImage⟩ :=
            hshows backing hmem hepoch held hheld
          have hcoversOld : journalCoversBacking input image old false = true := by
            unfold journalCoversBacking
            simp only [holdEpoch, holdImage, Bool.and_eq_true, bne_iff_ne, decide_eq_true_eq]
            exact ⟨⟨⟨⟨⟨rfl, hsome⟩, hepoch⟩, hbase⟩, hle⟩, beq_iff_eq.mpr hsize⟩
          rcases hchanges old hold held holdImage hcoversOld i hi with hrecorded | hbyte
          · exact .inl (holdEpoch ▸ hrecorded)
          · exact .inr (hbyte.trans (hholds i (hsize ▸ hi)).symm)
        | none =>
          rw [hinput, hgpu] at himage
          simp only [Bool.false_eq_true, if_false] at himage
          cases hreplay : replayVersionedBuffer input with
          | error error =>
            rw [hreplay] at himage
            cases himage
          | ok bytes =>
            rw [hreplay] at himage
            cases himage
            refine ⟨fromBytes_wf bytes, fun hcovers => ?_⟩
            unfold journalCoversBacking at hcovers
            rw [hinput] at hcovers
            simp at hcovers
      obtain ⟨_, hready, hfailed⟩ := fill_spec hsource.1 hgpu hneeds hsource.2 hfill
      cases error with
      | some error =>
        intro hepoch
        exact absurd (hfailed (Option.some_ne_none _)) hepoch
      | none =>
        obtain ⟨_, hkept, hbytes⟩ := hready rfl
        intro _ image' himage''
        rw [hkept] at himage''
        cases himage''
        exact hbytes

theorem Builds.shows {w : TicketWorld} {pool pool' : BackingSet} {input : VersionedBufferBuildInput}
    {context : VersionedBufferBuildContext} {choice : AcquireChoice} {released : List Nat}
    {version : Option PublishedBufferVersion} {tickets : List UploadTicket}
    (hbuilds : Builds input context pool choice released pool' version tickets)
    (h : Shows w pool) (hrecords : RecordsChanges w input) :
    ∀ backing ∈ pool'.all, ShowsImage backing := by
  cases hbuilds with
  | refused => exact fun b hb hepoch image himage => (h b hb hepoch image himage).1
  | empty hacquire =>
    exact fun b hb hepoch image himage => (acquire_shows h hacquire b hb hepoch image himage).1
  | leased hacquire hfind hinto hkept =>
    have hacquired := acquire_shows h hacquire
    have hshows := buildInto_shows hacquired (find?_mem hfind).1 hrecords hinto
    obtain ⟨⟨_, hcontents⟩, hepoch, himage⟩ := hkept
    intro _ hmodified
    obtain ⟨b, hb, rfl⟩ := List.mem_map.mp hmodified
    split
    · intro hne image hkeeps i hi
      rw [hcontents]
      exact hshows (hepoch ▸ hne) image (himage ▸ hkeeps) i hi
    · exact fun hepoch image himage => (hacquired b hb hepoch image himage).1

/-- The backing of a version built from its predecessor keeps no image. -/
theorem BuildsFrom.shows {w : TicketWorld} {pool pool' : BackingSet} {choice : AcquireChoice}
    {released : List Nat} {version : Option PublishedBufferVersion}
    (hbuilds : BuildsFrom pool choice released pool' version) (h : Shows w pool) :
    ∀ backing ∈ pool'.all, ShowsImage backing
      ∧ ∀ v, version = some v → backing.generation = v.backingEpoch → backing.image = none := by
  cases hbuilds with
  | refused => exact fun b hb => ⟨fun hepoch image himage => (h b hb hepoch image himage).1, nofun⟩
  | empty hacquire =>
    exact fun b hb => ⟨fun hepoch image himage => (acquire_shows h hacquire b hb hepoch image himage).1,
      nofun⟩
  | leased hacquire hfind hsame hkept =>
    have hacquired := acquire_shows h hacquire
    obtain ⟨hmem, hgeneration⟩ := find?_mem hfind
    intro _ hmodified
    obtain ⟨b, hb, rfl⟩ := List.mem_map.mp hmodified
    split
    · rcases hkept with ⟨hepoch, himage, rfl⟩ | ⟨hnone, _⟩
      · refine ⟨fun hne image hkeeps i hi => ?_, nofun⟩
        rw [hsame.2]
        exact (hacquired _ hmem (hepoch ▸ hne) image (himage ▸ hkeeps)).1 i hi
      · exact ⟨fun _ image hkeeps => absurd (hnone.symm.trans hkeeps) nofun, fun _ _ _ => hnone⟩
    · rename_i hother
      refine ⟨fun hepoch image himage => (hacquired b hb hepoch image himage).1, fun v hv hat => ?_⟩
      rcases hkept with ⟨_, _, rfl⟩ | ⟨_, hversion⟩
      · cases hv
      · exact absurd (hat.trans ((hversion v hv).trans hgeneration)) hother

/-! ## The run -/

theorem observed_agrees {w : TicketWorld} (h : EpochsHonest w) : Agrees w.settled w.observed := by
  intro _ hmodified
  obtain ⟨backing, hmem, rfl⟩ := List.mem_map.mp hmodified
  split
  · rfl
  · exact funext fun i => ((h backing hmem ‹_›).1 i).symm

theorem observed_shows {w : TicketWorld} (h : EpochsHonest w) : Shows w w.observed := by
  intro _ hmodified hepoch image himage
  obtain ⟨backing, hmem, rfl⟩ := List.mem_map.mp hmodified
  split at hepoch <;> rename_i hzero
  · exact absurd hzero hepoch
  · rw [if_neg hzero] at himage ⊢
    obtain ⟨hsettled, hshown⟩ := h backing hmem hzero
    exact ⟨fun i hi => (hsettled i).symm.trans (hshown image himage i hi), backing, hmem, rfl, himage⟩

theorem allocating_fresh (w : TicketWorld) (choice : AcquireChoice) :
    Fresh w.settled w.observed (w.allocating choice) := by
  cases choice <;> trivial

theorem settled_append (w : TicketWorld) (tickets : List UploadTicket) (pool : BackingSet)
    (versions : List PublishedBufferVersion) :
    { w with pool, queue := w.queue ++ tickets, versions }.settled = tickets.foldl land w.settled :=
  List.foldl_append

theorem honest_of_agrees {w : TicketWorld} (h : Agrees w.settled w.pool)
    (hshows : ∀ backing ∈ w.pool.all, ShowsImage backing) : EpochsHonest w :=
  fun backing hmem hepoch => ⟨fun i => (congrFun (h backing hmem) i).symm, fun image himage i hi =>
    (congrFun (h backing hmem) i).symm.trans (hshows backing hmem hepoch image himage i hi)⟩

theorem sourceBytes_pooled {w : TicketWorld} (h : EpochsHonest w) (generation : Nat) :
    w.sourceBytes (.pooled generation) = w.settled generation := by
  unfold sourceBytes
  simp only
  split
  · exact (find?_agrees (observed_agrees h) ‹_›).2
  · rfl

/-- Backings and memory are what they were, as far as the epochs speak of them. -/
theorem honest_same {w w' : TicketWorld} (h : EpochsHonest w)
    (hsame : ∀ backing' ∈ w'.pool.all, backing'.contentEpoch ≠ 0 → ∃ backing ∈ w.pool.all,
      SameBytes backing backing' ∧ backing'.contentEpoch = backing.contentEpoch
        ∧ backing'.image = backing.image
        ∧ ∀ i, w'.settled backing.generation i = w.settled backing.generation i) :
    EpochsHonest w' := by
  intro backing' hmem' hepoch'
  obtain ⟨backing, hmem, ⟨hgeneration, hcontents⟩, hepoch, himage, hsettled⟩ :=
    hsame backing' hmem' hepoch'
  obtain ⟨hbytes, hshown⟩ := h backing hmem (hepoch ▸ hepoch')
  refine ⟨fun i => ?_, fun image hkeeps i hi => ?_⟩
  · rw [hgeneration, hsettled, hcontents, hbytes]
  · rw [hgeneration, hsettled]
    exact hshown image (himage ▸ hkeeps) i hi

theorem honest_step {w w' : TicketWorld} {action : TicketAction} (h : EpochsHonest w)
    (hkeeps : KeepsEpochs w action) (hstep : step w action = some w') : EpochsHonest w' := by
  cases action with
  | build input context choice released =>
    simp only [step] at hstep
    split at hstep
    · cases hstep
    · rename_i pool outcome hbuild
      cases hstep
      have hbuilds := build_cases hbuild
      refine honest_of_agrees ?_ (hbuilds.shows (observed_shows h) hkeeps)
      rw [settled_append]
      exact hbuilds.agrees (observed_agrees h) (allocating_fresh w choice)
  | buildFromPredecessor input elsewhere context choice released =>
    simp only [step] at hstep
    split at hstep
    · cases hstep
    split at hstep
    · cases hstep
    · rename_i built hbuild
      cases hstep
      have hbuilds := buildFrom_cases hbuild
      have hpool := hbuilds.agrees (observed_agrees h) (allocating_fresh w choice)
      have hshows := hbuilds.shows (observed_shows h)
      cases hversion : built.outcome.version with
      | none =>
        refine honest_of_agrees ?_ fun b hb => (hshows b hb).1
        rw [settled_append]
        unfold predecessorTickets
        rw [hversion]
        exact hpool
      | some version =>
        refine honest_of_agrees ?_ ?_
        · rw [settled_append, land_predecessor (copySource input elsewhere)
            (w.sourceBytes (copySource input elsewhere)) w.settled
            (fun generation hsource => hsource ▸ sourceBytes_pooled h generation)
            (fun b hsource => hsource ▸ rfl) hversion]
          intro _ hmodified
          obtain ⟨b, hb, rfl⟩ := List.mem_map.mp hmodified
          split
          · rename_i hgeneration
            simp only [hgeneration, if_true]
            rw [hpool b hb, hgeneration]
          · exact (hpool b hb).trans (if_neg ‹_›).symm
        · intro _ hmodified
          obtain ⟨b, hb, rfl⟩ := List.mem_map.mp hmodified
          split
          · intro _ image himage
            exact absurd (((hshows b hb).2 version hversion ‹_›).symm.trans himage) nofun
          · exact (hshows b hb).1
  | land =>
    simp only [step] at hstep
    split at hstep
    · cases hstep
    · rename_i ticket rest hqueue
      cases hstep
      refine honest_same h fun backing hmem _ => ⟨backing, hmem, .refl _, rfl, rfl, fun i => ?_⟩
      unfold settled
      rw [hqueue]
      rfl
  | cancel ticket =>
    simp only [step] at hstep
    split at hstep
    · cases hstep
      exact honest_same h fun backing hmem hepoch =>
        ⟨backing, hmem, .refl _, rfl, rfl, hkeeps backing hmem hepoch⟩
    · cases hstep
  | drop version =>
    simp only [step] at hstep
    split at hstep
    · cases hstep
    · cases hstep
      refine honest_same h fun _ hmodified _ => ?_
      obtain ⟨backing, hmem, rfl⟩ := List.mem_map.mp hmodified
      refine ⟨backing, hmem, ?_⟩
      split <;> exact ⟨.refl _, rfl, rfl, fun _ => rfl⟩

/-- A build of a two-row image from nothing but what it is given. -/
def rowsBuild (sequence : Nat) (rows : List Byte) (writes : List BufferWrite)
    (choice : AcquireChoice) : TicketAction :=
  .build
    { writeSequence := sequence
      elementStride := 1
      elementCount := 2
      capacity := 2
      writes
      image := some { byteSize := 2, pages := [rows] } }
    { revision := sequence } choice []

/-- Two rows are built and cancelled on their way; their version goes, and the next one, which
changes the second row, is caught up in the same backing and lands. -/
def cancelledRows : List TicketAction :=
  [rowsBuild 1 [7, 7] [] (.allocate true fun _ => 0), .cancel 0, .drop 0,
    rowsBuild 2 [7, 9] [{ sequence := 2, byteOffset := 1, byteSize := 1 }] (.reuse 1), .land]

/-- Nothing is in flight, and some backing claims a position whose first byte it does not hold. -/
def missesFirstByte (w : TicketWorld) : Bool :=
  w.queue.isEmpty && w.versions.length == 1 && w.pool.all.any fun backing =>
    backing.contentEpoch != 0 && w.settled backing.generation 0 != backing.contents 0

end ModuleServices.Proof
