import ModuleServices.Growth.Proof.Set

/-!
# What a seal does to the batch

A seal posts at most one batch, and only while none is in flight. Every way `Post` can end is a case
of `Outcome`; a seal's effect on the batch and on what the slots ask is then that of the one post it
made, if any (`SealBatch`), and its effect on everything else is in `sealBuild_rest`.
-/

namespace ModuleServices.Growth

namespace GrowableBufferSet

variable {buffers : List VersionedBuffer} {host : HostAnswers} {build : Build}
  {set set' : GrowableBufferSet}

/-- How a post of these asks may end, with no batch in flight. `added` are the asks that were made
into requests. -/
inductive Outcome (buffers : List VersionedBuffer) (host : HostAnswers) (set set' : GrowableBufferSet)
    (asks added : List (Nat × Nat)) : Except String Bool → Prop where
  /-- A request could not be made: the asks before it stay written. -/
  | thrown (what : String) (batch : set'.batch = none)
      (asked : ∀ i, (set'.slot i).asked = askedOf added i (set.slot i).asked) :
      Outcome buffers host set set' asks added (.error what)
  | nothing (empty : added = []) (batch : set'.batch = none)
      (asked : ∀ i, (set'.slot i).asked = (set.slot i).asked) :
      Outcome buffers host set set' asks added (.ok true)
  | accepted (some_ : added ≠ []) (batch : set'.batch = some (batchOf added true))
      (asked : ∀ i, (set'.slot i).asked = askedOf added i (set.slot i).asked) :
      Outcome buffers host set set' asks added (.ok true)
  /-- The host's hook threw: the batch stays, though the host never took it. -/
  | threw (what : String) (post : host.post = .threw what) (some_ : added ≠ [])
      (batch : set'.batch = some (batchOf added false))
      (asked : ∀ i, (set'.slot i).asked = askedOf added i (set.slot i).asked) :
      Outcome buffers host set set' asks added (.error what)
  | refused (batch : set'.batch = none)
      (asked : ∀ i, (set'.slot i).asked
        = if i ∈ added.map Prod.fst then 0 else (set.slot i).asked) :
      Outcome buffers host set set' asks added (.ok false)

theorem clear_asked (asks : List (Nat × Nat)) : ∀ (set : GrowableBufferSet) (i : Nat),
    ((asks.foldl (fun set ask => set.modifySlot ask.1 fun slot => { slot with asked := 0 })
      set).slot i).asked = if i ∈ asks.map Prod.fst then 0 else (set.slot i).asked := by
  induction asks with
  | nil => exact fun _ _ => rfl
  | cons ask rest ih =>
    intro set i
    rw [List.foldl_cons, ih, List.map_cons]
    have hfirst : ((set.modifySlot ask.1 fun slot => { slot with asked := 0 }).slot i).asked
        = if i = ask.1 then 0 else (set.slot i).asked := by
      rw [slot_modifySlot]
      by_cases heq : i = ask.1
      · rw [if_pos heq]
        split
        · rfl
        next hle =>
          rw [slot_of_le (by omega)]
      · rw [if_neg heq, if_neg fun both => heq both.1]
    by_cases hmem : i ∈ rest.map Prod.fst
    · rw [if_pos hmem, if_pos (List.mem_cons_of_mem _ hmem)]
    · rw [if_neg hmem, hfirst]
      by_cases heq : i = ask.1
      · rw [if_pos heq, if_pos (List.mem_cons.mpr (Or.inl heq))]
      · rw [if_neg heq, if_neg fun h => (List.mem_cons.mp h).elim heq hmem]

theorem post_outcome (buffers : List VersionedBuffer) (host : HostAnswers)
    (set : GrowableBufferSet) (asks : List (Nat × Nat)) (hnodup : (asks.map Prod.fst).Nodup)
    (hbatch : set.batch = none) :
    ∃ added, added.Sublist asks ∧ (∀ ask ∈ added, Live buffers set ask.1)
      ∧ Outcome buffers host set (set.post buffers host asks).2 asks added
        (set.post buffers host asks).1 := by
  obtain ⟨added, h⟩ := postAsks_added buffers host asks { set }
  refine ⟨added, h.sublist, h.live, ?_⟩
  have hadded : (postAsks buffers host asks { set }).2.asks = added := h.added_eq
  have hasked (i : Nat) := h.asked hnodup i
  unfold post
  cases hloop : postAsks buffers host asks { set } with
  | mk thrown posting =>
    rw [hloop] at h hadded hasked
    have hposting : posting.set.batch = none := h.batch.trans hbatch
    obtain ⟨more, hmore, hlength⟩ := h.requests
    have hmore : posting.requests = more := hmore
    have hempty : posting.requests = [] ↔ added = [] := by
      rw [hmore, ← List.length_eq_zero_iff, hlength, List.length_eq_zero_iff]
    cases thrown with
    | some what => exact .thrown what hposting hasked
    | none =>
      dsimp only
      by_cases hnil : posting.requests = []
      · rw [if_pos hnil]
        have hnone := hempty.mp hnil
        refine .nothing hnone hposting fun i => (hasked i).trans ?_
        rw [hnone]
        rfl
      · rw [if_neg hnil]
        have hsome := fun hadded => hnil (hempty.mpr hadded)
        cases hpost : host.post with
        | accepted => exact .accepted hsome (congrArg (fun asks => some (batchOf asks true)) hadded) hasked
        | threw what =>
          exact .threw what hpost hsome (congrArg (fun asks => some (batchOf asks false)) hadded)
            hasked
        | refused =>
          refine .refused rfl fun i => (clear_asked posting.asks posting.set i).trans ?_
          dsimp only at hadded hasked
          rw [hadded, hasked]
          by_cases hmem : i ∈ added.map Prod.fst
          · rw [if_pos hmem, if_pos hmem]
          · rw [if_neg hmem, if_neg hmem]
            exact askedOf_of_not_mem hmem

/-! ## The buffers a seal posts are distinct -/

theorem unmetRequired_sublist (handles : List Nat) : ∀ {unmet : List Nat},
    set.unmetRequired build handles = .ok unmet → unmet.Sublist handles := by
  induction handles with
  | nil =>
    intro unmet h
    cases h
    exact List.Sublist.refl _
  | cons handle rest ih =>
    intro unmet h
    unfold unmetRequired at h
    dsimp only at h
    split at h
    · exact (ih h).cons handle
    · split at h
      · cases h
      · cases hrest : set.unmetRequired build rest with
        | error what =>
          rw [hrest] at h
          cases h
        | ok more =>
          rw [hrest] at h
          dsimp only at h
          split at h
          · cases h
            exact (ih hrest).cons handle
          · cases h
            exact (ih hrest).cons₂ handle

theorem unmet_nodup {unmet : List Nat} (h : set.unmet buffers build = .ok unmet) :
    unmet.Nodup := by
  unfold GrowableBufferSet.unmet at h
  cases hrequired : set.unmetRequired build (List.range build.required.length) with
  | error what =>
    rw [hrequired] at h
    cases h
  | ok required =>
    rw [hrequired] at h
    cases h
    have hfirst := (unmetRequired_sublist _ hrequired).nodup List.nodup_range
    refine List.Nodup.append hfirst (List.nodup_range.filter _) ?_
    intro handle hleft hright
    have hnot := (Bool.and_eq_true_iff.mp (List.mem_filter.mp hright).2).2
    rw [List.contains_iff_mem.mpr hleft] at hnot
    cases hnot

theorem observe_sublist (handles : List Nat) : ∀ set {shrinks : List (Nat × Nat)},
    (observe host build handles set).1 = .ok shrinks →
    (shrinks.map Prod.fst).Sublist handles := by
  induction handles with
  | nil =>
    intro set shrinks h
    cases h
    exact List.Sublist.refl _
  | cons handle rest ih =>
    intro set shrinks h
    unfold observe at h
    dsimp only at h
    split at h
    · exact (ih set h).cons handle
    · split at h
      · exact (ih set h).cons handle
      · split at h
        · cases h
        next target window hobserve =>
          cases hrest : observe host build rest (set.modifySlot handle fun slot =>
              { slot with window }) with
          | mk result after =>
            rw [hrest] at h
            cases result with
            | error what => cases h
            | ok more =>
              cases h
              have hmore := @ih (set.modifySlot handle fun slot => { slot with window }) more
                (by rw [hrest])
              cases target with
              | none => exact hmore.cons handle
              | some units => exact hmore.cons₂ handle

/-! ## The seal -/

/-- What a seal may do to the batch and to what the slots ask. -/
inductive SealBatch (buffers : List VersionedBuffer) (host : HostAnswers)
    (set set' : GrowableBufferSet) (result : Except String Sealed) : Prop where
  | same (batch : set'.batch = set.batch) (asked : ∀ i, (set'.slot i).asked = (set.slot i).asked)
  /-- One post was made. -/
  | posted (none_ : set.batch = none) (asks added : List (Nat × Nat)) (ended : Except String Bool)
      (nodup : (added.map Prod.fst).Nodup) (live : ∀ ask ∈ added, Live buffers set ask.1)
      (outcome : Outcome buffers host set set' asks added ended)
      (throws : ∀ what, ended = .error what → result = .error what)

theorem Outcome.congr {set₁ set₁' : GrowableBufferSet} {asks added : List (Nat × Nat)}
    {ended : Except String Bool} (h : Outcome buffers host set set' asks added ended)
    (hasked : ∀ i, (set.slot i).asked = (set₁.slot i).asked)
    (hbatch : set₁'.batch = set'.batch)
    (hasked' : ∀ i, (set₁'.slot i).asked = (set'.slot i).asked) :
    Outcome buffers host set₁ set₁' asks added ended := by
  cases h with
  | thrown what batch asked =>
    exact .thrown what (hbatch.trans batch) fun i => by rw [hasked', asked, hasked]
  | nothing empty batch asked =>
    exact .nothing empty (hbatch.trans batch) fun i => by rw [hasked', asked, hasked]
  | accepted some_ batch asked =>
    exact .accepted some_ (hbatch.trans batch) fun i => by rw [hasked', asked, hasked]
  | threw what post some_ batch asked =>
    exact .threw what post some_ (hbatch.trans batch) fun i => by rw [hasked', asked, hasked]
  | refused batch asked =>
    exact .refused (hbatch.trans batch) fun i => by rw [hasked', asked, hasked]

/-- How a seal ends: its effect on everything but the batch and the asks. -/
inductive Ended (buffers : List VersionedBuffer) (set set' : GrowableBufferSet)
    (result : Except String Sealed) : Prop where
  | unnamed (met : GrowableBufferSet) (quiet : Quiet set met) (latched : Latched met set')
      (none_ : ∀ sealed, result = .ok sealed → sealed.named = none)
  | named (met made : GrowableBufferSet) (sealed : Sealed) (quiet : Quiet set met)
      (latched : Latched met made) (ok : result = .ok sealed)
      (named : sealNamed buffers made = (sealed, set'))

theorem Ended.trans {result : Except String Sealed} {set₁ : GrowableBufferSet}
    (h' : Ended buffers set₁ set' result) (h : Quiet set set₁) : Ended buffers set set' result := by
  cases h' with
  | unnamed met quiet latched none_ => exact .unnamed met (h.trans quiet) latched none_
  | named met made sealed quiet latched ok named =>
    exact .named met made sealed (h.trans quiet) latched ok named

theorem Latched.batch (h : Latched set set') : set'.batch = set.batch := by rw [h.rest]

theorem Latched.slots (h : Latched set set') : set'.slots = set.slots := by rw [h.rest]

theorem Latched.slot (h : Latched set set') (i : Nat) : set'.slot i = set.slot i := by
  unfold GrowableBufferSet.slot
  rw [h.slots]

theorem sealNamed_slots (buffers : List VersionedBuffer) (set : GrowableBufferSet) :
    (set.sealNamed buffers).2.slots = set.slots := by
  unfold sealNamed
  split <;> rfl

theorem sealNamed_batch (buffers : List VersionedBuffer) (set : GrowableBufferSet) :
    (set.sealNamed buffers).2.batch = set.batch := by
  unfold sealNamed
  split <;> rfl

theorem sealNamed_registered (buffers : List VersionedBuffer) (set : GrowableBufferSet) :
    (set.sealNamed buffers).2.registered = set.registered := by
  unfold sealNamed
  split <;> rfl

theorem Ended.registered {result : Except String Sealed} (h : Ended buffers set set' result) :
    set'.registered = set.registered := by
  cases h with
  | unnamed met quiet latched none_ =>
    rw [latched.rest]
    exact quiet.registered
  | named met made sealed quiet latched ok named =>
    have hnamed := sealNamed_registered buffers made
    rw [named] at hnamed
    refine hnamed.trans ?_
    rw [latched.rest]
    exact quiet.registered

theorem shrink_batch (buffers : List VersionedBuffer) (host : HostAnswers) (build : Build)
    (set : GrowableBufferSet) : SealBatch buffers host set (set.shrink buffers host build).2
    (match (set.shrink buffers host build).1 with
      | .error what => .error what
      | .ok _ => .ok {}) := by
  have hwindowed := observe_windowed host build
    (List.range (min build.required.length set.slots.length)) set
  have hsub := @observe_sublist host build
    (List.range (min build.required.length set.slots.length)) set
  unfold shrink
  by_cases hbatch : set.batch.isSome = true
  · rw [if_pos hbatch]
    exact .same rfl fun _ => rfl
  · rw [if_neg hbatch]
    have hnone := Option.not_isSome_iff_eq_none.mp hbatch
    cases hobserve : observe host build (List.range (min build.required.length set.slots.length))
        set with
    | mk result observed =>
      rw [hobserve] at hwindowed hsub
      rcases result with what | shrinks
      · exact .same hwindowed.batch hwindowed.asked
      · rcases shrinks with _ | ⟨shrink, rest⟩
        · exact .same hwindowed.batch hwindowed.asked
        · dsimp only
          have hnodup := (hsub rfl).nodup List.nodup_range
          obtain ⟨added, hadded, hlive, houtcome⟩ := post_outcome buffers host observed
            (shrink :: rest) hnodup (hwindowed.batch.trans hnone)
          have hnodup' := (hadded.map Prod.fst).nodup hnodup
          have hlive' (ask : Nat × Nat) (hmem : ask ∈ added) : Live buffers set ask.1 := by
            have h := hlive ask hmem
            unfold Live at h ⊢
            rw [hwindowed.registration, hwindowed.buffer] at h
            exact h
          cases hpost : observed.post buffers host (shrink :: rest) with
          | mk ended posted =>
            rw [hpost] at houtcome
            dsimp only at houtcome
            have hcongr := houtcome.congr hwindowed.asked rfl fun _ => rfl
            rcases ended with what | accepted
            · exact .posted hnone _ added _ hnodup' hlive' hcongr fun _ h => by cases h; rfl
            · cases accepted with
              | true => exact .posted hnone _ added _ hnodup' hlive' hcongr fun _ h => by cases h
              | false =>
                exact .posted hnone _ added _ hnodup' hlive'
                  (houtcome.congr hwindowed.asked rfl fun _ => rfl) fun _ h => by cases h

theorem sealMet_ended : Ended buffers set (set.sealMet buffers host build).2
    (set.sealMet buffers host build).1 := by
  have hquiet := shrink_quiet buffers host build set
  unfold sealMet
  cases hshrink : set.shrink buffers host build with
  | mk result met =>
    rw [hshrink] at hquiet
    rcases result with what | _
    · exact .unnamed met hquiet (Latched.refl met) fun _ h => by cases h
    · have hlatched := makeLatches_latched host build.latches.zipIdx met
      dsimp only
      cases hlatches : makeLatches host build.latches.zipIdx met with
      | mk thrown made =>
        rw [hlatches] at hlatched
        cases thrown with
        | some what => exact .unnamed met hquiet hlatched fun _ h => by cases h
        | none => exact .named met made _ hquiet hlatched rfl rfl

theorem sealMet_batch : SealBatch buffers host set (set.sealMet buffers host build).2
    (set.sealMet buffers host build).1 := by
  have hshrink := shrink_batch buffers host build set
  unfold sealMet
  cases hresult : set.shrink buffers host build with
  | mk result met =>
    rw [hresult] at hshrink
    dsimp only at hshrink ⊢
    rcases result with what | _
    · cases hshrink with
      | same batch asked => exact .same batch asked
      | posted none_ asks added ended nodup live outcome throws =>
        refine .posted none_ asks added ended nodup live outcome fun what' h => ?_
        cases throws what' h
        rfl
    · dsimp only
      have hlatched := makeLatches_latched host build.latches.zipIdx met
      have hkeep : ∀ after : GrowableBufferSet, ∀ result : Except String Sealed,
          after.batch = met.batch → after.slots = met.slots →
          SealBatch buffers host set after result := by
        intro after result hbatch hslots
        have hslot (i : Nat) : (after.slot i).asked = (met.slot i).asked := by
          unfold GrowableBufferSet.slot
          rw [hslots]
        cases hshrink with
        | same batch asked =>
          exact .same (hbatch.trans batch) fun i => (hslot i).trans (asked i)
        | posted none_ asks added ended nodup live outcome throws =>
          refine .posted none_ asks added ended nodup live
            (outcome.congr (fun _ => rfl) hbatch hslot) fun what h => ?_
          cases throws what h
      cases hlatches : makeLatches host build.latches.zipIdx met with
      | mk thrown made =>
        rw [hlatches] at hlatched
        cases thrown with
        | some what => exact hkeep made _ hlatched.batch hlatched.slots
        | none =>
          exact hkeep _ _ ((sealNamed_batch buffers made).trans hlatched.batch)
            ((sealNamed_slots buffers made).trans hlatched.slots)

theorem unnamed_error (what : String) (sealed : Sealed)
    (h : (.error what : Except String Sealed) = .ok sealed) : sealed.named = none := by
  cases h

theorem live_congr {i : Nat} (h : Quiet set set') : Live buffers set' i ↔ Live buffers set i := by
  unfold Live
  rw [h.registration, h.buffer]

theorem SealBatch.trans {result : Except String Sealed} {set₁ : GrowableBufferSet}
    (h : SealBatch buffers host set₁ set' result) (hquiet : Quiet set set₁)
    (hbatch : set₁.batch = set.batch) (hasked : ∀ i, (set₁.slot i).asked = (set.slot i).asked) :
    SealBatch buffers host set set' result := by
  cases h with
  | same batch asked => exact .same (batch.trans hbatch) fun i => (asked i).trans (hasked i)
  | posted none_ asks added ended nodup live outcome throws =>
    exact .posted (hbatch.symm.trans none_) asks added ended nodup
      (fun ask hmem => (live_congr hquiet).mp (live ask hmem))
      (outcome.congr hasked rfl fun _ => rfl) throws

theorem sealUnmet_both {unmet : List Nat} (hnodup : unmet.Nodup) :
    Ended buffers set (set.sealUnmet buffers host build unmet).2
        (set.sealUnmet buffers host build unmet).1
      ∧ SealBatch buffers host set (set.sealUnmet buffers host build unmet).2
        (set.sealUnmet buffers host build unmet).1 := by
  have hgrown := growthAsks_windowed build unmet { set with failure := "" }
  have hhandles := @growthAsks_handles build unmet { set with failure := "" }
  unfold sealUnmet
  by_cases hbatch : set.batch.isSome = true
  · rw [if_pos hbatch]
    exact ⟨.unnamed set (Quiet.refl set) (Latched.refl set) fun _ h => by cases h; rfl,
      .same rfl fun _ => rfl⟩
  · rw [if_neg hbatch]
    have hnone := Option.not_isSome_iff_eq_none.mp hbatch
    cases hasks : growthAsks build unmet { set with failure := "" } with
    | mk result grown =>
      rw [hasks] at hgrown hhandles
      have hwindowed : Windowed set grown := (windowed_failure _ _).trans hgrown
      rcases result with what | asks
      · exact ⟨.unnamed grown hwindowed.toQuiet (Latched.refl grown) (unnamed_error what),
          .same hwindowed.batch hwindowed.asked⟩
      · dsimp only
        have hdistinct : (asks.map Prod.fst).Nodup := by
          rw [hhandles rfl]
          exact hnodup
        have hposted := post_quiet buffers host grown asks
        obtain ⟨added, hadded, hlive, houtcome⟩ := post_outcome buffers host
          grown asks hdistinct (hwindowed.batch.trans hnone)
        have hone {after : GrowableBufferSet} {ended : Except String Bool}
            {result : Except String Sealed} (houtcome : Outcome buffers host grown after asks added
              ended) (hthrows : ∀ what, ended = .error what → result = .error what) :
            SealBatch buffers host set after result :=
          (SealBatch.posted (hwindowed.batch.trans hnone) asks added ended
            ((hadded.map Prod.fst).nodup hdistinct) hlive houtcome hthrows).trans
              hwindowed.toQuiet hwindowed.batch hwindowed.asked
        cases hpost : grown.post buffers host asks with
        | mk ended posted =>
          rw [hpost] at hposted houtcome
          have hquiet : Quiet set posted := hwindowed.toQuiet.trans hposted
          rcases ended with what | accepted
          · exact ⟨.unnamed posted hquiet (Latched.refl posted) (unnamed_error what),
              hone houtcome fun _ h => by cases h; rfl⟩
          · cases accepted with
            | false =>
              exact ⟨.unnamed posted hquiet (Latched.refl posted) fun _ h => by cases h; rfl,
                hone houtcome fun _ h => by cases h⟩
            | true =>
              dsimp only
              by_cases hpending : posted.batch.isSome = true
              · rw [if_pos hpending]
                exact ⟨.unnamed posted hquiet (Latched.refl posted) fun _ h => by cases h; rfl,
                  hone houtcome fun _ h => by cases h⟩
              · rw [if_neg hpending]
                -- no ask was of a live buffer, so nothing was posted yet
                cases houtcome with
                | nothing empty batch asked =>
                  have hsame : posted.batch = set.batch := by
                    rw [hnone]
                    exact batch
                  exact ⟨sealMet_ended.trans hquiet,
                    sealMet_batch.trans hquiet hsame fun i =>
                      (asked i).trans (hwindowed.asked i)⟩
                | accepted some_ batch asked =>
                  refine absurd ?_ hpending
                  rw [batch]
                  rfl

/-- A seal, past the registrations it takes: what it changes apart from the batch, and what it does
to the batch. -/
theorem sealBuild_both (buffers : List VersionedBuffer) (host : HostAnswers) (build : Build)
    (set : GrowableBufferSet) :
    Ended buffers (set.takeRegistered buffers) (set.sealBuild buffers host build).2
        (set.sealBuild buffers host build).1
      ∧ SealBatch buffers host (set.takeRegistered buffers) (set.sealBuild buffers host build).2
        (set.sealBuild buffers host build).1 := by
  unfold sealBuild
  generalize set.takeRegistered buffers = taken
  cases hunmet : taken.unmet buffers build with
  | error what =>
    simp only [hunmet]
    exact ⟨.unnamed taken (Quiet.refl taken) (Latched.refl taken) (unnamed_error what),
      .same rfl fun _ => rfl⟩
  | ok unmet =>
    simp only [hunmet]
    by_cases hnil : unmet = []
    · rw [if_pos hnil]
      exact ⟨sealMet_ended, sealMet_batch⟩
    · rw [if_neg hnil]
      exact sealUnmet_both (unmet_nodup hunmet)

end GrowableBufferSet

end ModuleServices.Growth
