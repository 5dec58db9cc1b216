import Mathlib
import ModuleServices.Buffers.BuildCall

/-!
# A build that is not ready leaves an honest backing

A call goes through three phases: no backing, a backing as it was handed out with nothing
queued into it, and a backing forgotten. Every exit but the last lies in one of them, whether
it returns or throws; only a forgotten backing has anything queued, and only the ready exit
settles it. The specifications below say for each operation which phases it keeps.
-/

set_option mvcgen.warning false

namespace ModuleServices.Proof

open ModuleServices BuildCallees Std.Do

namespace BuildCall

/-- Nothing is leased, and nothing queued. -/
def NoLease (s : BuildState) : Prop := s.acquired = none ∧ s.leased = none ∧ s.queued = []

/-- The backing is as it was handed out, and nothing is queued. -/
def Untouched (backing : Backing) (s : BuildState) : Prop :=
  s.acquired = some backing ∧ s.leased = some backing ∧ s.queued = []

/-- The backing holds nothing a successor may catch up from. -/
def Forgotten (backing : Backing) (s : BuildState) : Prop :=
  s.acquired = some backing
    ∧ ∃ leased, s.leased = some leased ∧ leased.contentEpoch = 0 ∧ leased.image = none

/-- Nothing leased, a backing as it was handed out, or one forgotten. -/
def Honest (s : BuildState) : Prop :=
  NoLease s ∨ ∃ backing, Untouched backing s ∨ Forgotten backing s

/-- What a property says does not depend on how many calls were made. -/
def Uncounted (P : BuildState → Prop) : Prop :=
  ∀ s asked looked uploads, P s → P { s with asked, looked, uploads }

variable {backing : Backing} {callees : BuildCallees}

theorem uncounted_noLease : Uncounted NoLease := fun _ _ _ _ h => h

theorem uncounted_untouched : Uncounted (Untouched backing) := fun _ _ _ _ h => h

theorem uncounted_forgotten : Uncounted (Forgotten backing) := fun _ _ _ _ h => h

theorem honest_untouched {s : BuildState} (h : Untouched backing s) : Honest s :=
  .inr ⟨backing, .inl h⟩

theorem honest_forgotten {s : BuildState} (h : Forgotten backing s) : Honest s :=
  .inr ⟨backing, .inr h⟩

/-! ## The operations -/

/-- A phase stays, whether the operation returns or throws. -/
abbrev Keeps {α : Type} (P : BuildState → Prop) (x : BuildM α) : Prop :=
  ⦃fun s => ⌜P s⌝⦄ x ⦃post⟨fun _ s => ⌜P s⌝, fun _ s => ⌜P s⌝⟩⦄

theorem call_keeps {α : Type} (P : BuildState → Prop) (answer : Except String α) :
    Keeps P (call answer) := by
  cases answer with
  | ok value =>
    unfold call
    mvcgen
  | error error =>
    unfold call
    mvcgen

theorem stopped_keeps {P : BuildState → Prop} (hP : Uncounted P) : Keeps P callees.stopped := by
  have hcall := fun answer : Except String Bool => call_keeps P answer
  mvcgen [stopped, hcall]
  exact hP _ _ _ _ ‹_›

theorem isRetired_keeps {P : BuildState → Prop} (hP : Uncounted P) :
    Keeps P callees.isRetired := by
  mvcgen [isRetired]
  exact hP _ _ _ _ ‹_›

theorem enqueue_keeps (write : QueuedWrite) :
    Keeps (Forgotten backing) (callees.enqueue write) := by
  mvcgen [BuildCallees.enqueue]

theorem forget_spec : ⦃fun s => ⌜Untouched backing s⌝⦄ forget
    ⦃post⟨fun _ s => ⌜Forgotten backing s⌝, fun _ s => ⌜Honest s⌝⟩⦄ := by
  mvcgen [forget]
  rename_i huntouched _
  obtain ⟨hacquired, hleased, -⟩ := huntouched
  refine ⟨hacquired, backing.forget, ?_, rfl, rfl⟩
  show Option.map _ _ = _
  rw [hleased]
  rfl

/-- Where `Acquire` leaves the call. -/
def HandedOut : Option Acquired → BuildState → Prop
  | none, s => NoLease s
  | some acquired, s => Untouched acquired.backing s

theorem lease_spec (request : BackingRequest) (preferEpoch : Nat) :
    ⦃fun s => ⌜NoLease s⌝⦄ callees.lease request preferEpoch
    ⦃post⟨fun acquired s => ⌜HandedOut acquired s⌝, fun _ s => ⌜NoLease s⌝⟩⦄ := by
  have hcall := call_keeps NoLease (callees.acquire request preferEpoch)
  mvcgen [lease, hcall]
  rename_i hnone _
  exact ⟨rfl, rfl, hnone.2.2⟩

theorem suspend_keeps : Keeps NoLease callees.suspend := by
  have hcall := fun answer : Except String Unit => call_keeps NoLease answer
  mvcgen [suspend, hcall]

/-! ## The plain path -/

theorem uploadAll_keeps (image : BufferImage) (ranges : List DirtyRange) :
    Keeps (Forgotten backing) (callees.uploadAll image ranges) := by
  have hretired : Keeps (Forgotten backing) callees.isRetired := isRetired_keeps uncounted_forgotten
  have henqueue : ∀ write, Keeps (Forgotten backing) (callees.enqueue write) := enqueue_keeps
  induction ranges with
  | nil => mvcgen [BuildCallees.uploadAll]
  | cons range ranges ih => mvcgen [BuildCallees.uploadAll, hretired, henqueue, ih]

/-- Filling a backing starts by forgetting what it held, when it has anything to queue. -/
theorem fillBacking_spec (input : VersionedBufferBuildInput) (image : Option BufferImage)
    (acquired : Acquired) :
    ⦃fun s => ⌜Untouched acquired.backing s⌝⦄ callees.fillBacking input image acquired
    ⦃post⟨fun _ s => ⌜Honest s⌝, fun _ s => ⌜Honest s⌝⟩⦄ := by
  have hforget : ⦃fun s => ⌜Untouched acquired.backing s⌝⦄ forget
      ⦃post⟨fun _ s => ⌜Forgotten acquired.backing s⌝, fun _ s => ⌜Honest s⌝⟩⦄ := forget_spec
  have hupload : ∀ image ranges, Keeps (Forgotten acquired.backing)
      (callees.uploadAll image ranges) := uploadAll_keeps
  mvcgen [fillBacking, hforget, hupload]
  all_goals first | exact honest_untouched ‹_› | exact honest_forgotten

/-- A call that ends without a version ends with the backing honest. -/
def Ends (outcome : VersionedBufferBuildOutcome) (s : BuildState) : Prop :=
  outcome.kind ≠ .ready → Honest s

theorem ends_honest {outcome : VersionedBufferBuildOutcome} {s : BuildState} (h : Honest s) :
    Ends outcome s := fun _ => h

theorem ends_ready {version : Option PublishedBufferVersion} {s : BuildState} :
    Ends { kind := .ready, version } s := fun h => absurd rfl h

theorem buildInto_spec (input : VersionedBufferBuildInput) (choice : ClassChoice)
    (acquired : Acquired) :
    ⦃fun s => ⌜Untouched acquired.backing s⌝⦄ callees.buildInto input choice acquired
    ⦃post⟨fun outcome s => ⌜Ends outcome s⌝, fun _ s => ⌜Honest s⌝⟩⦄ := by
  have hstopped : Keeps (Untouched acquired.backing) callees.stopped :=
    stopped_keeps uncounted_untouched
  mvcgen [BuildCallees.buildInto, hstopped, fillBacking_spec, settle]
  -- the exits before the fill, the one after a fill that failed, and the ready one
  all_goals first
    | exact ends_honest (honest_untouched ‹_›)
    | exact honest_untouched
    | exact ends_honest ‹_›
    | exact ends_ready

theorem build_spec (input : VersionedBufferBuildInput) :
    ⦃fun s => ⌜NoLease s⌝⦄ callees.build input
    ⦃post⟨fun outcome s => ⌜Ends outcome s⌝, fun _ s => ⌜Honest s⌝⟩⦄ := by
  have hstopped : Keeps NoLease callees.stopped := stopped_keeps uncounted_noLease
  have hchoice := call_keeps NoLease (chooseClass input callees.now)
  have hsuspend : Keeps NoLease callees.suspend := suspend_keeps
  mvcgen [build, hstopped, hchoice, lease_spec, hsuspend, buildInto_spec]
  all_goals first
    | exact ends_honest (.inl ‹_›)
    | exact .inl
    | exact fun h => ends_honest (.inl h)

/-! ## The predecessor path -/

theorem missingBytes_keeps {P : BuildState → Prop} (input : BuildCallInput)
    (previous : PublishedBufferVersion) (acquired : Acquired) (usedBytes : Nat) :
    Keeps P (BuildCallees.missingBytes input previous acquired usedBytes) := by
  have hcall := fun answer : Except String (Option (List BufferByteRange)) => call_keeps P answer
  mvcgen [BuildCallees.missingBytes, hcall]

theorem batch_keeps {P : BuildState → Prop} (input : BuildCallInput) (acquired : Acquired)
    (usedBytes : Nat) (writes : List DeltaWrite) :
    Keeps P (BuildCallees.batch input acquired usedBytes writes) := by
  have hmissing := fun previous => missingBytes_keeps (P := P) input previous acquired usedBytes
  mvcgen [BuildCallees.batch, hmissing]

theorem enqueueBatch_keeps (queued : Queued) :
    Keeps (Forgotten backing) (callees.enqueueBatch queued) := by
  have henqueue : ∀ write, Keeps (Forgotten backing) (callees.enqueue write) := enqueue_keeps
  mvcgen [enqueueBatch, henqueue]

theorem predecessorInto_spec (input : BuildCallInput) (choice : ClassChoice)
    (emitDelta : Except String (List DeltaWrite)) (acquired : Acquired) :
    ⦃fun s => ⌜Untouched acquired.backing s⌝⦄
    callees.predecessorInto input choice emitDelta acquired
    ⦃post⟨fun outcome s => ⌜Ends outcome s⌝, fun _ s => ⌜Honest s⌝⟩⦄ := by
  have hstopped : Keeps (Untouched acquired.backing) callees.stopped :=
    stopped_keeps uncounted_untouched
  have hemit := call_keeps (Untouched acquired.backing) emitDelta
  have hbatch := fun usedBytes writes =>
    batch_keeps (P := Untouched acquired.backing) input acquired usedBytes writes
  have hforget : ⦃fun s => ⌜Untouched acquired.backing s⌝⦄ forget
      ⦃post⟨fun _ s => ⌜Forgotten acquired.backing s⌝, fun _ s => ⌜Honest s⌝⟩⦄ := forget_spec
  have hretired : Keeps (Forgotten acquired.backing) callees.isRetired :=
    isRetired_keeps uncounted_forgotten
  have hqueue : ∀ queued, Keeps (Forgotten acquired.backing) (callees.enqueueBatch queued) :=
    enqueueBatch_keeps
  mvcgen [BuildCallees.predecessorInto, hstopped, hemit, hbatch, hforget, hretired, hqueue, settle]
  -- the exits before `Forget`, those after it, and the ready one
  all_goals first
    | exact ends_honest (honest_untouched ‹_›)
    | exact honest_untouched
    | exact ends_honest (honest_forgotten ‹_›)
    | exact honest_forgotten
    | exact ends_ready

theorem buildFromPredecessor_spec (input : BuildCallInput) :
    ⦃fun s => ⌜NoLease s⌝⦄ callees.buildFromPredecessor input
    ⦃post⟨fun outcome s => ⌜Ends outcome s⌝, fun _ s => ⌜Honest s⌝⟩⦄ := by
  have hstopped : Keeps NoLease callees.stopped := stopped_keeps uncounted_noLease
  have hchoice := call_keeps NoLease (chooseClass input.toVersionedBufferBuildInput callees.now)
  have hsuspend : Keeps NoLease callees.suspend := suspend_keeps
  mvcgen [BuildCallees.buildFromPredecessor, hstopped, hchoice, lease_spec, hsuspend,
    predecessorInto_spec]
  all_goals first
    | exact ends_honest (.inl ‹_›)
    | exact .inl
    | exact fun h => ends_honest (.inl h)

/-- **Every exit is honest.** An exception of either path has become a failure. -/
theorem buildVersionedBuffer_spec (input : BuildCallInput) :
    ⦃fun s => ⌜NoLease s⌝⦄ callees.buildVersionedBuffer input
    ⦃post⟨fun outcome s => ⌜Ends outcome s⌝, fun _ _ => ⌜False⌝⟩⦄ := by
  mvcgen [BuildCallees.buildVersionedBuffer, build_spec, buildFromPredecessor_spec]
  -- an outcome returned stands, and so does the state an exception leaves
  all_goals first
    | exact id
    | exact ends_honest ‹Honest _›

end BuildCall

end ModuleServices.Proof

namespace ModuleServices.BuildCallees

open Proof

/-- Whatever the stop request, the pool, the caller's callbacks and the uploader answer or throw, a
call returns an outcome; and unless that is a version, what it leased, if anything, either has
nothing queued and the position and image it was handed out with, or no position and no image. -/
theorem not_ready_honest (callees : BuildCallees) (input : BuildCallInput) :
    ∃ outcome s, (callees.buildVersionedBuffer input).run {} = .ok outcome s
      ∧ (outcome.kind ≠ .ready → (s.leased = none ∧ s.queued = [])
        ∨ ∃ acquired leased, s.acquired = some acquired ∧ s.leased = some leased
          ∧ ((s.queued = [] ∧ leased.contentEpoch = acquired.contentEpoch
              ∧ leased.image = acquired.image)
            ∨ (leased.contentEpoch = 0 ∧ leased.image = none))) := by
  have hends : ∃ outcome s, (callees.buildVersionedBuffer input).run {} = .ok outcome s
      ∧ BuildCall.Ends outcome s := by
    generalize hresult : (callees.buildVersionedBuffer input).run {} = result
    apply Std.Do.EStateM.of_wp_run_eq hresult
      (fun result => ∃ outcome s, result = .ok outcome s ∧ BuildCall.Ends outcome s)
    mvcgen [BuildCall.buildVersionedBuffer_spec]
    exact fun hends => ⟨_, _, rfl, hends⟩
  obtain ⟨outcome, s, hrun, hends⟩ := hends
  refine ⟨outcome, s, hrun, fun hkind => ?_⟩
  obtain ⟨-, hleased, hqueued⟩ | ⟨backing, hphase⟩ := hends hkind
  · exact .inl ⟨hleased, hqueued⟩
  obtain ⟨hacquired, hleased, hqueued⟩ | ⟨hacquired, leased, hleased, hepoch, himage⟩ := hphase
  · exact .inr ⟨backing, backing, hacquired, hleased, .inl ⟨hqueued, rfl, rfl⟩⟩
  · exact .inr ⟨backing, leased, hacquired, hleased, .inr ⟨hepoch, himage⟩⟩

end ModuleServices.BuildCallees
