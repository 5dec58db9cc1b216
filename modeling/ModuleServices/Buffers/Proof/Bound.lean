import ModuleServices.Buffers.Bound
import ModuleServices.Buffers.Proof.Publish

/-!
# Which paths wait for a bound backing

Only the predecessor path looks at `AcquireInfo::writeAfter`. The others queue into a
bound backing whatever they have to send (`queued_pos`), so they are safe exactly when
the pool did not have to hand one out or there was nothing to send.
-/

namespace ModuleServices.Proof

/-! ## What `Acquire` hands out -/

theorem betterBound_spec {request : BackingRequest} {free : List Held} {bound held : Option Held}
    (hbound : ∀ b, bound = some b → Pool.fits b.pooled request = true ∧ b.leases = 0
      ∧ b.readbackPins = 0 ∧ b.bindingConsumers = 0)
    (h : free.foldl (BoundPool.betterBound request) bound = held) :
    ∀ b, held = some b → (bound = some b ∨ b ∈ free) ∧ Pool.fits b.pooled request = true
      ∧ b.leases = 0 ∧ b.readbackPins = 0 ∧ b.bindingConsumers = 0 := by
  induction free generalizing bound with
  | nil =>
    rintro b hb
    subst h
    exact ⟨.inl hb, hbound b hb⟩
  | cons a free ih =>
    rw [List.foldl_cons] at h
    have hstep : ∀ b, BoundPool.betterBound request bound a = some b →
        (bound = some b ∨ b = a) ∧ Pool.fits b.pooled request = true ∧ b.leases = 0
          ∧ b.readbackPins = 0 ∧ b.bindingConsumers = 0 := by
      intro b hb
      unfold BoundPool.betterBound at hb
      split at hb
      · exact ⟨.inl hb, hbound b hb⟩
      · rename_i hok
        have ha : Pool.fits a.pooled request = true ∧ a.leases = 0 ∧ a.readbackPins = 0
            ∧ a.bindingConsumers = 0 := by
          simpa [and_assoc] using hok
        split at hb
        · cases hb
          exact ⟨.inr rfl, ha⟩
        · split at hb <;> cases hb
          · exact ⟨.inr rfl, ha⟩
          · exact ⟨.inl rfl, hbound _ rfl⟩
    intro b hb
    obtain ⟨hmem, hrest⟩ := ih (fun b hb => (hstep b hb).2) h b hb
    refine ⟨?_, hrest⟩
    rcases hmem with hmem | hmem
    · rcases (hstep b hmem).1 with hmem | rfl
      · exact .inl hmem
      · exact .inr List.mem_cons_self
    · exact .inr (List.mem_cons_of_mem _ hmem)

/-- **A bound backing is not retired.** What `reuseBound` takes would have been reusable otherwise. -/
theorem boundTaken_safeAt {pool : BoundPool} {request : BackingRequest} {held : Held}
    (h : pool.boundTaken request = some held) : pool.completed < held.safeAt := by
  unfold BoundPool.boundTaken at h
  split at h
  · rename_i hcond
    obtain ⟨hmem, hfits, hleases, hpins, hconsumers⟩ :=
      betterBound_spec (fun b hb => by cases hb) rfl held h
    have hfree : held ∈ pool.free := hmem.resolve_left (fun h => by cases h)
    by_contra hle
    have hreusable : Pool.reusable held.pooled pool.completed = true := by
      simp [Pool.reusable, Held.pooled, hleases, hpins, hconsumers]
      omega
    have : held ∈ pool.sameClass request :=
      List.mem_filter.mpr ⟨hfree, by simp [hfits, hreusable]⟩
    rw [hcond.1] at this
    cases this
  · cases h

/-- A leased backing is retired, or it is the one `reuseBound` takes and its point is reported. -/
theorem acquire_leased {pool : BoundPool} {request : BackingRequest} {preferEpoch : Nat}
    {allocation : Except String Bool} {held : Held} {info : AcquireInfo}
    (h : pool.acquire request preferEpoch allocation = .leased held info) :
    (held.safeAt ≤ pool.completed ∧ pool.boundTaken request = none)
      ∨ ∃ bound, pool.boundTaken request = some bound ∧ held = bound.lease
        ∧ info.allocated = false ∧ info.writeAfter = bound.safeAt := by
  unfold BoundPool.acquire at h
  dsimp only at h
  split at h
  · rename_i chosen rest hsorted
    cases h
    have hmem : chosen ∈ pool.sameClass request :=
      (List.mem_insertionSort _).mp (hsorted ▸ List.mem_cons_self)
    have hne : pool.sameClass request ≠ [] := List.ne_nil_of_mem hmem
    have hreusable : Pool.fits chosen.pooled request = true
        ∧ Pool.reusable chosen.pooled pool.completed = true := by
      simpa using (List.mem_filter.mp hmem).2
    left
    constructor
    · have := hreusable.2
      simp only [Pool.reusable, Held.pooled, Bool.and_eq_true] at this
      exact of_decide_eq_true this.1.1.2
    · unfold BoundPool.boundTaken
      rw [if_neg fun hc => hne hc.1]
  · split at h
    · rename_i bound hbound
      cases h
      exact .inr ⟨bound, hbound, rfl, rfl, rfl⟩
    · rename_i hnone
      split at h
      · cases h
      · split at h
        · cases h
        · cases h
          exact .inl ⟨Nat.zero_le _, hnone⟩

/-- When nothing is leased, nothing bound was there to take. -/
theorem boundTaken_of_not_leased {pool : BoundPool} {request : BackingRequest}
    (preferEpoch : Nat) (allocation : Except String Bool)
    (h : ∀ held info, pool.acquire request preferEpoch allocation ≠ .leased held info) :
    pool.boundTaken request = none := by
  by_contra hsome
  obtain ⟨bound, hbound⟩ := Option.ne_none_iff_exists'.mp hsome
  unfold BoundPool.acquire at h
  dsimp only at h
  split at h
  · exact h _ _ rfl
  · rw [hbound] at h
    exact h _ _ rfl

/-! ## What a path sends -/

theorem fillsQueued_ne_nil {size : Nat} {fills : List VersionFill} :
    fillsQueued size fills ≠ [] ↔ ∃ fill, fills.find? (fun fill => fill.bytes != 0) = some fill
      ∧ (fill.offset + fill.bytes) % 2 ^ 64 ≤ size ∧ fill.accepted = true := by
  induction fills with
  | nil => simp [fillsQueued]
  | cons fill fills ih =>
    unfold fillsQueued
    by_cases hbytes : fill.bytes = 0
    · rw [if_pos hbytes, ih, List.find?_cons_of_neg (by simp [hbytes])]
    · rw [if_neg hbytes, List.find?_cons_of_pos (by simp [hbytes])]
      simp only [Option.some.injEq, exists_eq_left']
      split
      · rename_i hbad
        simp only [ne_eq, not_true_eq_false, false_iff]
        rintro ⟨h₁, h₂⟩
        rcases hbad with hbad | hbad
        · omega
        · simp [h₂] at hbad
      · rename_i hok
        push Not at hok
        simp only [ne_eq, List.cons_ne_nil, not_false_eq_true, true_iff]
        exact ⟨hok.1, by simpa using hok.2⟩

theorem uploadsQueued_ne_nil {image : BufferImage} {stray : Nat → Byte}
    {accepts : DirtyRange → Bool} {ranges : List DirtyRange} :
    uploadsQueued image stray accepts ranges ≠ [] ↔ ∃ range rest, ranges = range :: rest
      ∧ (gather image stray range.size range.size range.offset).isSome = true
      ∧ accepts range = true := by
  cases ranges with
  | nil => simp [uploadsQueued]
  | cons range rest =>
    unfold uploadsQueued
    rw [List.takeWhile_cons]
    split
    · rename_i h
      rw [Bool.and_eq_true] at h
      simp [h.1, h.2]
    · rename_i h
      rw [Bool.and_eq_true] at h
      simp only [ne_eq, not_true_eq_false, false_iff]
      rintro ⟨r, rs, heq, h₁, h₂⟩
      cases heq
      exact h ⟨h₁, h₂⟩

/-- An emit queues something exactly when it comes to a write the sink takes. -/
theorem runEmit_sends {emit : Journaled.Emit} {w : Journaled.World} {sink : Journaled.World.Sink}
    {g : Nat} :
    w.writes.length < (w.runEmit sink g 0 false emit).1.writes.length
      ↔ emit.sends (w.backing g) := by
  induction emit generalizing w sink with
  | returns contentEpoch => simp [Journaled.World.runEmit, Journaled.Emit.sends]
  | throws error => simp [Journaled.World.runEmit, Journaled.Emit.sends]
  | write ranges accepted next caught ihNext ihCaught =>
    unfold Journaled.World.runEmit Journaled.Emit.sends Journaled.World.sinkWrite
    dsimp only
    cases Journaled.checkRanges (w.backing g) 0 ranges with
    | error error => exact ihCaught error
    | ok _ =>
      dsimp only
      by_cases hkept : (ranges.filter fun range => decide (range.size ≠ 0)) = []
      · rw [if_pos hkept, if_pos hkept]
        exact ihNext
      · rw [if_neg hkept, if_neg hkept]
        by_cases hbuffer : (w.backing g).buffer = false
        · simp only [hbuffer, Bool.not_false, if_true]
          exact ihCaught _
        · by_cases hretired : (w.backing g).retired = true
          · simp only [hbuffer, hretired, if_true, if_false, Bool.not_eq_true', Bool.false_eq_true]
            exact ihCaught _
          · by_cases haccepted : accepted = false
            · simp only [hbuffer, hretired, haccepted, if_true, if_false, Bool.not_eq_true',
                Bool.false_eq_true]
              exact ihCaught _
            · have hbuffer' : (w.backing g).buffer = true := by simpa using hbuffer
              have hretired' : (w.backing g).retired = false := by simpa using hretired
              have haccepted' : accepted = true := by simpa using haccepted
              simp only [hbuffer', hretired', haccepted', Bool.not_true, Bool.false_eq_true, if_false,
                Bool.true_eq_false, iff_true]
              -- the write is queued, and what follows only adds to it
              rcases hrun : Journaled.World.runEmit _ _ g 0 false next with ⟨w', sink', result⟩
              obtain ⟨log, rfl, -⟩ := Journaled.Proof.runEmit_spec hrun
              have : 0 < (ranges.filter fun range => decide (range.size ≠ 0)).length :=
                List.length_pos_iff.mpr hkept
              simp only [List.length_append, List.length_map]
              omega

/-- **A bound backing is written as any other.** Every path but the predecessor's queues into it
whatever it has to send. -/
theorem queued_pos {filling : Filling} {held : Held} {info : AcquireInfo}
    (hnew : info.allocated = false) (hbound : info.writeAfter ≠ 0) :
    0 < filling.queued held info ↔ filling.Sends held := by
  cases filling with
  | build input context accepts =>
    unfold Filling.queued Filling.Sends
    dsimp only
    rw [hnew]
    split
    · rename_i hnone
      simp [hnone]
    · rename_i image ranges hranges
      rw [hranges, List.length_pos_iff, uploadsQueued_ne_nil]
      constructor
      · rintro ⟨range, rest, rfl, h⟩
        exact ⟨image, range, rest, rfl, h⟩
      · rintro ⟨image', range, rest, heq, h⟩
        cases heq
        exact ⟨range, rest, rfl, h⟩
  | predecessor input context emitDelta =>
    unfold Filling.queued Filling.Sends predecessorInto
    dsimp only
    rw [if_pos hbound]
    simp
  | publish part request =>
    unfold Filling.queued Filling.Sends publishWrites
    dsimp only
    rw [hnew]
    cases request.emit with
    | none => simp
    | some emit =>
      dsimp only
      have := @runEmit_sends (emit (Journaled.World.targetOf
        ((Journaled.World.leased held).versionOf 0 request.units 0 held.capacityClass part false
          false))) (Journaled.World.leased held) {} 0
      rw [show (Journaled.World.leased held).writes = [] from rfl, List.length_nil] at this
      rw [this]
      simp
  | grow request =>
    unfold Filling.queued Filling.Sends VersionGrowthRequest.queued
    dsimp only
    split
    · rename_i h
      simp only [List.length_nil, Nat.lt_irrefl, false_iff]
      rintro ⟨h₁, h₂, -⟩
      rcases h with h | h
      · rw [h] at h₁
        cases h₁
      · rw [h] at h₂
        cases h₂
    · rename_i h
      push Not at h
      rw [List.length_pos_iff, fillsQueued_ne_nil]
      simp [h.1, h.2]

/-- A backing of four bytes still bound to a frame the clock has not reached, alone in its pool. -/
def boundHeld : Held :=
  { generation := 1, capacityClass := 4, byteCapacity := 4, stride := 1, safeAt := 5
    contents := fun _ => 0 }

def boundPool : BoundPool :=
  { config := { maxPerClass := 1, reuseBound := true }, all := [boundHeld], free := [boundHeld]
    completed := 3 }

/-- A growth of four elements with contents. -/
def boundGrowth : Filling :=
  .grow { elements := 4, stride := 1, fills := [⟨0, 4, true⟩], bufferSize := 4 }

end ModuleServices.Proof
