import ModuleServices.Growth.Seal
import Mathlib.Tactic.ByContra

/-!
# One event of a growable set's run

Everything an event can do, with what let it happen, is a case of `Moved`. The invariants of the runs
go by these cases and do not unfold `step` again.
-/

namespace ModuleServices.Growth

open GrowableBufferSet

theorem register_ok {set set' : GrowableBufferSet} {registration : GrowableRegistration}
    {buffer : Option Nat} {node : Registered}
    (hok : set.register registration buffer = .ok (node, set')) :
    registration.extent.unitBytes ≠ 0 ∧ ∃ versioned, buffer = some versioned
      ∧ node = .buffer set.nextHandle { registration with pool := registration.pool.or set.hooks.pool }
          versioned (set.serials + 1)
      ∧ set' = { set with nextHandle := set.nextHandle + 1, serials := set.serials + 1 } := by
  unfold register at hok
  dsimp only at hok
  split at hok
  · cases hok
  next versioned =>
    split at hok
    · cases hok
    next hunit =>
      split at hok
      · cases hok
      · split at hok
        · cases hok
        · cases hok
          exact ⟨hunit, versioned, rfl, rfl, rfl⟩

namespace GrowableRun

/-- A seal's step: the set after, and the set it returned, if any. -/
structure SealStep (run run' : GrowableRun) (asks : List Ask) (host : HostAnswers) : Prop where
  set : run'.set = (run.sealAsks asks host).2
  buffers : run'.buffers = run.buffers
  pushing : run'.pushing = run.pushing
  versions : run'.versions = run.versions
  sealed : (∃ sealed named, (run.sealAsks asks host).1 = .ok sealed ∧ sealed.named = some named
      ∧ run'.sealed = named :: run.sealed)
    ∨ run'.sealed = run.sealed ∧ ∀ sealed, (run.sealAsks asks host).1 = .ok sealed →
      sealed.named = none

theorem step_seal {run run' : GrowableRun} {asks : List Ask} {host : HostAnswers}
    (hstep : run.step (.sealBuild asks host) = some run') : SealStep run run' asks host := by
  unfold step at hstep
  dsimp only at hstep
  cases hseal : run.sealAsks asks host with
  | mk result after =>
    rw [hseal] at hstep
    rcases result with what | ⟨named, pending, error⟩
    · cases hstep
      exact ⟨by rw [hseal], rfl, rfl, rfl, Or.inr ⟨rfl, fun sealed h => by rw [hseal] at h; cases h⟩⟩
    · cases named with
      | none =>
        cases hstep
        exact ⟨by rw [hseal], rfl, rfl, rfl,
          Or.inr ⟨rfl, fun sealed h => by rw [hseal] at h; cases h; rfl⟩⟩
      | some named =>
        cases hstep
        exact ⟨by rw [hseal], rfl, rfl, rfl, Or.inl ⟨_, named, by rw [hseal], rfl, rfl⟩⟩

/-- A seal with its build, or a call that threw while its asks were made. -/
theorem sealAsks_cases (run : GrowableRun) (asks : List Ask) (host : HostAnswers) :
    (∃ what, Build.after {} asks = .error what ∧ run.sealAsks asks host = (.error what, run.set))
      ∨ ∃ build, Build.after {} asks = .ok build
        ∧ run.sealAsks asks host = run.set.sealBuild run.buffers host build := by
  unfold sealAsks
  cases Build.after {} asks with
  | error what => exact Or.inl ⟨what, rfl, rfl⟩
  | ok build => exact Or.inr ⟨build, rfl, rfl⟩

/-- What an event does to the state, with what let it happen. -/
inductive Moved (run : GrowableRun) : Action → GrowableRun → Prop where
  | create {key : Nat} {current : Option MadeVersion}
      (fresh : ∀ held ∈ run.buffers, held.live = true → held.key ≠ key) :
      Moved run (.create key current) { run with
        buffers := run.buffers ++ [{ key, current := current.map (·.version run.versions) }]
        versions := run.versions + 1 }
  | expire {buffer : Nat} : Moved run (.expire buffer) { run with
      buffers := run.buffers.modify buffer fun held => { held with live := false } }
  | renew {buffer : Nat} {made : MadeVersion} : Moved run (.renew buffer made) { run with
      buffers := run.buffers.modify buffer fun held =>
        { held with current := some (made.version run.versions) }
      versions := run.versions + 1 }
  | adoptAll {place : Nat} {named : NamedVersions} (get : run.sealed[place]? = some named) :
      Moved run (.adoptAll place) { run with buffers := named.adoptAll run.buffers }
  /-- A registration that threw. -/
  | refused {registration : GrowableRegistration} {buffer : Option Nat} :
      Moved run (.register registration buffer) run
  | register {registration : GrowableRegistration} {buffer : Nat} {held : VersionedBuffer}
      (live : lock run.buffers buffer = some held) (unit : registration.extent.unitBytes ≠ 0) :
      Moved run (.register registration (some buffer)) { run with
        set := { run.set with
          nextHandle := run.set.nextHandle + 1, serials := run.set.serials + 1 }
        pushing := run.pushing ++ [.buffer run.set.nextHandle
          { registration with pool := registration.pool.or run.set.hooks.pool } buffer
          (run.set.serials + 1)] }
  | refusedLatch {registration : LatchRegistration} : Moved run (.registerLatch registration) run
  | registerLatch {registration : LatchRegistration} :
      Moved run (.registerLatch registration) { run with
        set := { run.set with nextLatch := run.set.nextLatch + 1 }
        pushing := run.pushing ++ [.latch run.set.nextLatch registration] }
  | push {place : Nat} {node : Registered} (get : run.pushing[place]? = some node) :
      Moved run (.push place) { run with
        set := { run.set with registered := node :: run.set.registered }
        pushing := run.pushing.eraseIdx place }
  | begin : Moved run .begin { run with set := run.set.begin run.buffers }
  | handleOf {buffer : Nat} :
      Moved run (.handleOf buffer) { run with set := run.set.takeRegistered run.buffers }
  | sealBuild {asks : List Ask} {host : HostAnswers} {run' : GrowableRun}
      (sealed : SealStep run run' asks host) : Moved run (.sealBuild asks host) run'
  | capture {place stamp : Nat} {batch : Batch} (get : run.set.batch = some batch)
      (posted : batch.posted = true) (pending : batch.state = .pending) :
      Moved run (.capture place stamp) { run with set := { run.set with
        batch := some { batch with stamps := batch.stamps.set place (some stamp) } } }
  | done {grown : Option (List MadeVersion × List Nat)} {error : String} {batch : Batch}
      (get : run.set.batch = some batch) (posted : batch.posted = true)
      (pending : batch.state = .pending) :
      Moved run (.done grown error) { run with
        set := { run.set with
          batch := some { batch with state := doneState batch run.versions grown error } }
        versions := run.versions + (grown.map (·.1.length)).getD 0 }
  | others {count : Nat} :
      Moved run (.others count) { run with
        set := { run.set with serials := run.set.serials + count } }

theorem handleOf_set (buffers : List VersionedBuffer) (set : GrowableBufferSet)
    (buffer : VersionedBuffer) :
    (set.handleOf buffers buffer).2 = set.takeRegistered buffers := by
  unfold handleOf
  dsimp only
  split
  · split <;> rfl
  · rfl

theorem step_moved {run run' : GrowableRun} {action : Action}
    (hstep : run.step action = some run') : Moved run action run' := by
  cases action with
  | sealBuild asks host => exact .sealBuild (step_seal hstep)
  | create key current =>
    unfold step at hstep
    dsimp only at hstep
    split at hstep
    · cases hstep
    next hfresh =>
      cases hstep
      refine .create fun held hmem hlive hkey => hfresh (List.any_eq_true.mpr ⟨held, hmem, ?_⟩)
      rw [hlive, hkey]
      exact beq_self_eq_true key
  | expire buffer =>
    unfold step at hstep
    dsimp only at hstep
    split at hstep <;> cases hstep
    exact .expire
  | renew buffer made =>
    unfold step at hstep
    dsimp only at hstep
    split at hstep <;> cases hstep
    exact .renew
  | register registration buffer =>
    unfold step at hstep
    dsimp only at hstep
    split at hstep
    · cases hstep
    next hlocked =>
      split at hstep
      · cases hstep
        exact .refused
      next node set hok =>
        cases hstep
        obtain ⟨hunit, versioned, hbuffer, hnode, hset⟩ := register_ok hok
        subst hbuffer hnode hset
        have hlive : lock run.buffers versioned ≠ none := fun hnone => hlocked (by
          show (lock run.buffers versioned).isNone = true
          rw [hnone]
          rfl)
        obtain ⟨held, hheld⟩ := Option.ne_none_iff_exists'.mp hlive
        exact .register hheld hunit
  | registerLatch registration =>
    unfold step at hstep
    dsimp only at hstep
    split at hstep
    · cases hstep
      exact .refusedLatch
    next node set hok =>
      cases hstep
      unfold GrowableBufferSet.registerLatch at hok
      split at hok <;> cases hok
      exact .registerLatch
  | push place =>
    unfold step at hstep
    dsimp only at hstep
    split at hstep
    · cases hstep
    next node hget =>
      cases hstep
      exact .push hget
  | begin =>
    unfold step at hstep
    cases hstep
    exact .begin
  | handleOf buffer =>
    unfold step at hstep
    dsimp only at hstep
    split at hstep
    · cases hstep
    · cases hstep
      rw [handleOf_set]
      exact .handleOf
  | capture place stamp =>
    unfold step at hstep
    dsimp only at hstep
    split at hstep
    next batch hbatch =>
      split at hstep
      next hheld =>
        cases hstep
        exact .capture hbatch hheld.1 hheld.2.1
      · cases hstep
    · cases hstep
  | done grown error =>
    unfold step at hstep
    dsimp only at hstep
    split at hstep
    next batch hbatch =>
      split at hstep
      next hheld =>
        cases hstep
        exact .done hbatch hheld.1 hheld.2
      · cases hstep
    · cases hstep
  | adoptAll place =>
    unfold step at hstep
    dsimp only at hstep
    split at hstep
    · cases hstep
    next named hget =>
      cases hstep
      exact .adoptAll hget
  | others count =>
    unfold step at hstep
    cases hstep
    exact .others

end GrowableRun

end ModuleServices.Growth
