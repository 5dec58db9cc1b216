import ModuleServices.Graph.Proof.ViewRequests
import ModuleServices.Graph.Proof.ViewReads

/-!
# The read model is coherent

Every call marks the addresses whose answers it changes, the views of the marked
addresses are rebuilt before a slice ends, and a fresh view answers as the graph does.
The one function that may miss a mark is a publication (`MarksPublication`), so in runs
where it does not the readers are told what the graph would say.
-/

namespace ModuleServices.Graph.Proof

open World

variable {s s' : World}

/-! ## Every call marks -/

theorem Frame.beside (h : Frame s s') : Beside s s' :=
  ⟨h.versions, h.generationAliases, h.versionGenerations, h.reservedGenerations,
    h.nextVersionGeneration, h.readModel, h.posted⟩

/-- A reservation is posted with the version it is for. -/
theorem postRequest_marked (s : World) (intent : ArtifactIntent) (coalescible : Bool) :
    Marked [] s (s.postRequest intent coalescible) := by
  unfold postRequest
  simp only
  split
  · exact .of_same ⟨rfl, rfl, rfl, rfl, rfl, rfl, fun _ _ _ _ => .inl⟩ rfl rfl
  · set v : VersionKey := ⟨intent.key, intent.desiredRevision⟩ with hv
    obtain ⟨hnodes, hversions, haliases, hread, hdirty⟩ := reserveGeneration_same (s := s) v
    refine .of_owned hnodes hversions haliases hread hdirty fun howned => ?_
    obtain ⟨hreserved, hfind⟩ := reserveGeneration_owned v howned
    refine hreserved.of_names (Nat.le_refl _) fun generation w hw => .inl ?_
    cases hw with
    | assigned h => exact .assigned h
    | reserved h => exact .reserved h
    | posted h hne =>
      rcases List.mem_append.mp h with hold | hnew
      · exact .posted hold hne
      · cases List.mem_singleton.mp hnew
        exact .reserved hfind
    | node h hnames => exact .node h hnames
    | archived h => exact .archived h
    | predicted h => exact .predicted h
    | target h => exact .target h

/-- What a posted request has been given is claimed while it is applied. -/
theorem posted_marked {intent : ArtifactIntent} {coalescible : Bool} {generation : Nat}
    {lease : Option Nat} {rest : List PostedRequest} {u : World} (hkeyed : Keyed s)
    (hhead : s.postedIntents = .request intent coalescible generation lease :: rest)
    (hu : u = { s with postedIntents := rest }.took false) :
    Marked [] s (u.requestInternal { ofIntent intent coalescible with
      preassignedGeneration := generation, preassignedLease := lease }) := by
  subst hu
  set u : World := { s with postedIntents := rest }.took false with hu
  have hmem (p : PostedRequest) (h : p ∈ u.postedIntents) : p ∈ s.postedIntents :=
    hhead ▸ List.mem_cons_of_mem _ h
  have htaken : Marked [] s u := .of_same
    ⟨rfl, rfl, rfl, rfl, rfl, rfl, fun _ _ _ _ h => .inl (hmem _ h)⟩ rfl rfl
  by_cases hgeneration : generation = 0
  · exact htaken.trans (requestInternal_marked (htaken.keyed hkeyed) fun h => absurd hgeneration h)
  set claim : Nat × VersionKey := (generation, ⟨intent.key, intent.desiredRevision⟩) with hclaim
  have hrequest : Marked [claim] u (u.requestInternal { ofIntent intent coalescible with
      preassignedGeneration := generation, preassignedLease := lease }) :=
    requestInternal_marked (htaken.keyed hkeyed) fun _ => List.mem_singleton.mpr rfl
  have hclaimed (howned : Owned [] s) : Owned [claim] u := by
    obtain ⟨owner, howner, _⟩ := howned
    have hnamed := howner generation ⟨intent.key, intent.desiredRevision⟩
      (.posted (hhead ▸ List.mem_cons_self) hgeneration)
    refine ⟨owner, fun g v hv => howner g v ?_, fun c hc => ?_⟩
    · cases hv with
      | assigned h => exact .assigned h
      | reserved h => exact .reserved h
      | posted h hne => exact .posted (hmem _ h) hne
      | node h hnames => exact .node h hnames
      | archived h => exact .archived h
      | predicted h => exact .predicted h
      | target h => exact .target h
    · rw [List.mem_singleton.mp hc]
      exact hnamed
  exact
    { readModel := hrequest.readModel.trans htaken.readModel
      dirty := fun key h => hrequest.dirty key (htaken.dirty key h)
      owned := fun howned => by
        obtain ⟨owner, howner, _⟩ := hrequest.owned (hclaimed howned)
        exact ⟨owner, howner, nofun⟩
      aliases := hrequest.aliases ∘ htaken.aliases
      unqueued := hrequest.unqueued ∘ htaken.unqueued
      keyed := hrequest.keyed ∘ htaken.keyed
      filed := hrequest.filed ∘ htaken.filed
      shown := fun key hnot => (htaken.shown key fun h => hnot (hrequest.dirty key h)).trans
        (hrequest.shown key hnot) }

theorem completion_ticket {completion : Completion} {rest : List Completion}
    (hhead : s.slice.readyCompletions = completion :: rest) :
    completionTicket completion ∈ outstanding s :=
  (landed_perm false hhead).mem_iff.mpr List.mem_cons_self

theorem Does.marked (hbuilds : BuildInv s) (haliases : AliasesKeep s) (hun : Unqueued s)
    (h : Does MarksPublication s s') (hpublish : s' ≠ s.publishDirtyViews) : Marked [] s s' := by
  have hkeyed : Keyed s := fun key node hfind => (hbuilds.node key node hfind).key
  have hlanded (completion : Completion) (rest : List Completion) (stale : Bool) :
      Marked [] s (landed (takeCompletion s rest) completion stale) :=
    (takeCompletion_marked s rest).trans (landed_marked _ _ _)
  cases h with
  | frame h => exact .of_same h.beside h.nodes h.dirtyViews
  | publish => exact absurd rfl hpublish
  | move h => exact h.marked hkeyed fun _ _ _ hbegun => .inr hbegun
  | await operation => exact applyAwait_marked s operation
  | request a hgeneration => exact requestInternal_marked hkeyed fun h => absurd hgeneration h
  | posted hhead hu => exact posted_marked hkeyed hhead hu
  | cancel key => exact cancelLocked_marked hun key
  | erase => exact eraseNode_marked s _
  | markPublished v h => exact markPublishedLocked_marked hkeyed haliases h
  | @resume key f hf =>
    have hmodified : Marked [] s (s.modifyNode key f) := modifyNode_marked s key fun node => by
      rw [hf]
      exact ⟨⟨rfl, rfl, rfl, rfl, rfl, rfl⟩, rfl, rfl⟩
    exact hmodified.trans (queueNode_marked (hmodified.keyed hkeyed) key)
  | gpuEnded => exact gpuEnded_marked hkeyed _ _
  | gpuSubmitted => exact gpuSubmitted_marked hkeyed _
  | gpuReached => exact gpuReached_marked hkeyed _ _
  | prepare => exact .of_same ⟨rfl, rfl, rfl, rfl, rfl, rfl, fun _ _ _ _ => .inl⟩ rfl rfl
  | discard => exact takeCompletion_marked s _
  | @stale completion rest node u key hhead hu =>
    subst hu
    have h := hlanded completion rest (!(takeCompletion s rest).accepts node completion)
    exact h.trans (queueNode_marked (h.keyed hkeyed) key)
  | @ready completion rest node u hhead hu hfind =>
    subst hu
    have h := hlanded completion rest false
    have hmem := completion_ticket hhead
    obtain ⟨node', hfind', hflight⟩ := hbuilds.flight hmem
    cases hfind.symm.trans hfind'
    have hnode : (landed (takeCompletion s rest) completion false).nodes.find? completion.key
        = some (landedNode node) := by
      rw [landed_nodes, takeCompletion_nodes, Table.find?_modify, if_pos rfl, hfind]
      rfl
    exact h.trans (readied_marked (h.keyed hkeyed) _ hnode
      ((hbuilds.node _ _ hfind).building hflight) fun hrevision =>
        (hbuilds.ticket _ hmem hrevision node hfind).1)
  | @needs completion rest _ _ _ hu =>
    subst hu
    exact (hlanded completion rest false).trans (needed_marked _ _ _)
  | @retryAfter completion rest _ _ _ hu =>
    subst hu
    exact (hlanded completion rest false).trans (applyRetryAfter_marked _ _ _)
  | @suspended completion rest _ _ _ _ hu =>
    subst hu
    have h := hlanded completion rest false
    exact h.trans (applySuspended_marked (h.keyed hkeyed) _ _ _)
  | @ended completion rest _ _ _ hu =>
    subst hu
    have h := hlanded completion rest false
    exact h.trans (ended_marked (h.keyed hkeyed) _ _ _)
  | wake dependency consumer =>
    exact (wakeWaiter_moves s dependency consumer
      fun _ _ => begun_of_publishable).marked_begun hkeyed
  | block => exact (latchReadyGates_marked s _).trans (setState_marked _ _ _)
  | build => exact (latchReadyGates_marked s _).trans (startBuild_marked _ _ _)
  | producerless => exact (latchReadyGates_marked s _).trans (failProducerless_marked _ _)
  | dispatch snapshot =>
    unfold dispatchReady
    split
    · exact .refl s
    · exact .of_same ⟨rfl, rfl, rfl, rfl, rfl, rfl, fun _ _ _ _ => .inl⟩ rfl rfl
  | reclaim _ hfind => exact reclaimVersion_marked hfind
  | post intent coalescible => exact postRequest_marked s intent coalescible
  | forget | dropLease | finishBuild | finishAcceptance | collect | handBuild | handAcceptance =>
    exact .of_same ⟨rfl, rfl, rfl, rfl, rfl, rfl, fun _ _ _ _ => .inl⟩ rfl rfl

/-! ## The invariant -/

structure ViewInv (s : World) : Prop where
  builds : BuildInv s
  aliases : AliasesKeep s
  unqueued : Unqueued s
  owned : Owned [] s
  /-- What is not marked reads as it should. -/
  coherent : ∀ version : VersionID, version.isNamed = true → version.address ∉ s.dirtyViews →
    s.ReadsTrue version

/-- Publishing the views names nothing. -/
theorem Owned.publish (h : Owned [] s) : Owned [] s.publishDirtyViews := by
  refine h.of_names (Nat.le_refl _) fun generation v hv => .inl ?_
  cases hv with
  | assigned h => exact .assigned h
  | reserved h => exact .reserved h
  | posted h hne => exact .posted h hne
  | node h hnames => exact .node h hnames
  | archived h => exact .archived h
  | predicted h => exact .predicted h
  | target h => exact .target h

/-- The views of the slice are published: those of the marked addresses are built anew, the others
read true already. -/
theorem ViewInv.publish (h : ViewInv s) : ViewInv s.publishDirtyViews where
  builds := h.builds.after (.of_eq ⟨rfl, rfl, rfl, rfl, rfl, rfl⟩ rfl)
  aliases := h.aliases
  unqueued := h.unqueued
  owned := h.owned.publish
  coherent version hnamed _ := by
    have hview : (s.publishDirtyViews.readModel.find? version.address).join
        = if version.address ∈ s.dirtyViews then s.addressView version.address
          else (s.readModel.find? version.address).join :=
      join_publishViews s.dirtyViews s.readModel
    by_cases hmarked : version.address ∈ s.dirtyViews
    · rw [if_pos hmarked] at hview
      exact readsTrue_of_fresh (h.owned.publish) h.aliases hnamed hview
    · rw [if_neg hmarked] at hview
      have hold := readsTrue_iff.mp (h.coherent version hnamed hmarked)
      have hsame : s.publishDirtyViews.snapshotFromView version = s.snapshotFromView version := by
        unfold snapshotFromView
        rw [hview]
      exact readsTrue_iff.mpr (hsame ▸ hold)

theorem Does.viewInv (h : Does MarksPublication s s') (hinv : ViewInv s) : ViewInv s' := by
  by_cases hpublish : s' = s.publishDirtyViews
  · exact hpublish ▸ hinv.publish
  have hmarked := h.marked hinv.builds hinv.aliases hinv.unqueued hpublish
  exact
    { builds := h.buildInv hinv.builds
      aliases := hmarked.aliases hinv.aliases
      unqueued := hmarked.unqueued hinv.unqueued
      owned := hmarked.owned hinv.owned
      coherent := fun version hnamed hnot =>
        (hmarked.shown _ hnot).readsTrue hinv.aliases hmarked.readModel
          (hinv.coherent version hnamed fun h => hnot (hmarked.dirty _ h)) }

theorem start_viewInv (policies : List ArtifactKindPolicy) : ViewInv (start policies) where
  builds :=
    { node := fun _ _ => nofun
      count := fun _ => rfl
      ticket := fun _ => nofun }
  aliases _ _ := nofun
  unqueued _ _ := nofun
  owned := ⟨fun _ => ⟨{}, 0⟩, fun generation v hv => by cases hv <;> contradiction, nofun⟩
  coherent version _ _ := readsTrue_iff.mpr rfl

/-- **Read-model coherence.** In a run whose publications mark what they move on, whatever the read
model answers differently from the graph is marked, and once a slice has published its views they
answer alike for every version. -/
theorem readModel_coherent (policies : List ArtifactKindPolicy)
    (h : Run.Within step (CallsMeet MarksPublication) (start policies) s) :
    (∀ version : VersionID, version.isNamed = true → ¬s.ReadsTrue version →
      version.address ∈ s.dirtyViews)
    ∧ (s.slice.phase = .retire → ∀ s', step s .leave = some s' → s'.Coherent) := by
  have hinv := within_invariant (start_viewInv policies) Does.viewInv h
  refine ⟨fun version hnamed hfalse => ?_, fun hphase s' hleave version hnamed => ?_⟩
  · by_contra hnot
    exact hfalse (hinv.coherent version hnamed hnot)
  · have hbetween : s.betweenPhases = s.publishDirtyViews := by
      unfold betweenPhases
      rw [hphase]
    simp only [step, leave, hbetween] at hleave
    split at hleave
    · cases hleave
    split at hleave
    · cases hleave
      have htrue := hinv.publish.coherent version hnamed List.not_mem_nil
      exact SameShown.readsTrue (s := s.publishDirtyViews) ⟨rfl, fun _ _ => rfl, fun _ _ => rfl⟩
        hinv.publish.aliases rfl htrue
    · cases hleave

/-- A slice up to one of its phases, with the items each of the phases before takes. -/
def slice (taken : List Nat) : List Action :=
  .drain :: taken.flatMap fun n => List.replicate n .item ++ [.leave]

/-- Revision 1 of the address `{}` is requested, built and ready. -/
def built : List Action :=
  [.registerProducer 0 {}, .request { key := {}, desiredRevision := 1 } false]
    ++ slice [0, 0, 1, 0, 0, 0, 0, 0, 0, 0, 0, 0, 1, 0, 0, 0, 1]
    ++ [.finishBuild 0 { outcome := .ready, payload := { value := some 7 } }]
    ++ slice [0, 0, 0, 0, 0, 0, 0, 1, 0, 0, 1, 0, 0, 1, 1, 0, 0]

/-- The revision at the cursor is published, and the slice is about to publish its views. -/
def publishedTrace : List Action :=
  built ++ [.mutate (.markPublished [⟨{}, 1, 1⟩])]
    ++ slice [0, 0, 1, 0, 0, 0, 1, 0, 0, 0, 0, 0, 0, 1, 2]

/-- The same, but revision 2 has taken the address over before. -/
def overtakenTrace : List Action :=
  built ++ [.request { key := {}, desiredRevision := 2 } false]
    ++ slice [0, 0, 1, 0, 0, 0, 0, 0, 0, 0, 0, 0, 1, 0, 2, 0, 1]
    ++ [.mutate (.markPublished [⟨{}, 1, 1⟩])]
    ++ slice [0, 0, 1, 0, 0, 0, 1, 0, 0, 0, 0, 0, 0, 1, 1]

/-- A publication that finds its version at the cursor is seen by the readers. -/
theorem readModel_coherent_published :
    ∃ s s', Run.Within step (CallsMeet MarksPublication) (start [{}]) s
      ∧ step s .leave = some s' ∧ s'.Coherent
      ∧ (s'.snapshotFromView ⟨{}, 1, 1⟩).readiness = .published := by
  let check (s : World) (a : Action) : Bool := decide (CallsMeet MarksPublication s a)
  have h : (Run.exec (Run.checked step check) (start [{}]) publishedTrace).any (fun s =>
      decide (s.slice.phase = .retire) && (step s .leave).any fun s' =>
        decide ((s'.snapshotFromView ⟨{}, 1, 1⟩).readiness = .published)) = true := by
    decide +kernel
  obtain ⟨s, hrun, hs⟩ := (Option.any_eq_true _ _).mp h
  simp only [Bool.and_eq_true, decide_eq_true_eq] at hs
  obtain ⟨s', hleave, hread⟩ := (Option.any_eq_true _ _).mp hs.2
  have hwithin : Run.Within step (CallsMeet MarksPublication) (start [{}]) s :=
    Run.exec_checked_within (fun _ _ => of_decide_eq_true) hrun
  exact ⟨s, s', hwithin, hleave, (readModel_coherent [{}] hwithin).2 hs.1 s' hleave,
    of_decide_eq_true hread⟩

/-- A publication of a version that is in the archive alone is hidden from the readers: the slice
ends without the view of its address being built anew. -/
theorem publication_hidden :
    ∃ s s', Run.Reachable step (start [{}]) s ∧ s.slice.phase = .retire
      ∧ step s .leave = some s' ∧ ¬s'.Coherent := by
  have h : (Run.exec step (start [{}]) overtakenTrace).any (fun s =>
      decide (s.slice.phase = .retire) && (step s .leave).any fun s' =>
        !decide (s'.ReadsTrue ⟨{}, 1, 1⟩)) = true := by
    decide +kernel
  obtain ⟨s, hrun, hs⟩ := (Option.any_eq_true _ _).mp h
  simp only [Bool.and_eq_true, decide_eq_true_eq] at hs
  obtain ⟨s', hleave, hfalse⟩ := (Option.any_eq_true _ _).mp hs.2
  simp only [Bool.not_eq_true', decide_eq_false_iff_not] at hfalse
  exact ⟨s, s', Run.exec_reachable hrun, hs.1, hleave, fun hcoherent => hfalse (hcoherent _ rfl)⟩

end ModuleServices.Graph.Proof
