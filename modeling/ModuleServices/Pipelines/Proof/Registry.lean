import ModuleServices.Pipelines.Registry

/-!
# Reloads reach every pipeline

Where a reload that concerns a live registration has gone: it is asked for still, the registration
is stale or in the running reload, its new pipeline is staged, its rebuild failed, or the pipeline
in its slot is of files read after it was asked for (`Reaches`). What is covered by the pending
request is out of account (`Since`), so that a new request disturbs nothing, and the start of a
reload takes everything over that it covers.
-/

namespace ModuleServices

namespace PipelineRegistry

variable {s : PipelineRegistry} {i : Nat} {entry entry' : Entry}

/-! ## What the registry's functions leave alone -/

theorem modifyEntries_get (s : PipelineRegistry) (places : List Nat) (f : Entry → Entry) (i : Nat) :
    (s.modifyEntries places f).registered[i]?
      = s.registered[i]?.map fun entry => if i ∈ places then f entry else entry :=
  List.getElem?_mapIdx

theorem not_expired (hfind : s.registered[i]? = some entry) (hheld : entry.slot.held = true) :
    s.expired i = false := by
  unfold expired
  rw [hfind]
  simp [hheld]

theorem mem_prune (hmem : i ∈ s.entries) (hfind : s.registered[i]? = some entry)
    (hheld : entry.slot.held = true) : i ∈ s.prune.entries := by
  refine List.mem_filter.mpr ⟨hmem, ?_⟩
  rw [not_expired hfind hheld]
  rfl

theorem prune_sublist (s : PipelineRegistry) : s.prune.entries.Sublist s.entries :=
  List.filter_sublist

/-- The places a list of answers stages, with their pipelines. -/
def stagedOf (answers : List (Nat × LiveBuild)) : List Staged :=
  answers.filterMap fun answer => answer.2.payload.map fun payload =>
    { entry := answer.1, payload, fingerprint := answer.2.fingerprint }

/-- What finishing a reload changes: the answered entries leave it, the new pipelines are staged. -/
structure Finished (s : PipelineRegistry) (answers : List (Nat × LiveBuild))
    (s' : PipelineRegistry) : Prop where
  registered (i : Nat) : s'.registered[i]? = s.registered[i]?.map fun entry =>
    if i ∈ answers.map Prod.fst then { entry with inBatch := false } else entry
  staged : s'.staged = s.staged ++ stagedOf answers
  entries : s'.entries = s.entries
  request : s'.request = s.request
  asked : s'.asked = s.asked
  sources : s'.sourcesGeneration = s.sourcesGeneration
  running : s'.running = s.running
  length : s'.registered.length = s.registered.length

theorem finishEntry_finished (s : PipelineRegistry) (answer : Nat × LiveBuild) :
    Finished s [answer] (s.finishEntry answer.1 answer.2) := by
  have hget (i : Nat) := modifyEntries_get s [answer.1] (fun entry =>
    { entry with inBatch := false }) i
  unfold finishEntry
  dsimp only
  split
  next payload hpayload =>
    refine ⟨hget, ?_, rfl, rfl, rfl, rfl, rfl, List.length_mapIdx⟩
    unfold stagedOf
    rw [List.filterMap_cons, hpayload]
    rfl
  next hpayload =>
    have hstaged : s.staged = s.staged ++ stagedOf [answer] := by
      unfold stagedOf
      rw [List.filterMap_cons, hpayload]
      exact (List.append_nil _).symm
    split <;> exact ⟨hget, hstaged, rfl, rfl, rfl, rfl, rfl, List.length_mapIdx⟩

theorem foldl_finished (answers : List (Nat × LiveBuild)) : ∀ s : PipelineRegistry,
    Finished s answers (answers.foldl (fun s answer => s.finishEntry answer.1 answer.2) s) := by
  induction answers with
  | nil =>
    refine fun s => ⟨fun i => ?_, (List.append_nil _).symm, rfl, rfl, rfl, rfl, rfl, rfl⟩
    simp
  | cons answer answers ih =>
    intro s
    have hone := finishEntry_finished s answer
    have hrest := ih (s.finishEntry answer.1 answer.2)
    refine ⟨fun i => ?_, ?_, hrest.entries.trans hone.entries, hrest.request.trans hone.request,
      hrest.asked.trans hone.asked, hrest.sources.trans hone.sources,
      hrest.running.trans hone.running, hrest.length.trans hone.length⟩
    · rw [List.foldl_cons, hrest.registered, hone.registered, Option.map_map]
      congr 1
      funext entry
      simp only [Function.comp, List.map_cons, List.map_nil, List.mem_cons, List.not_mem_nil,
        or_false]
      by_cases hhere : i = answer.1
      · by_cases hlater : i ∈ answers.map Prod.fst
        · rw [if_pos hlater, if_pos hhere, if_pos (.inl hhere)]
        · rw [if_neg hlater, if_pos hhere, if_pos (.inl hhere)]
      · by_cases hlater : i ∈ answers.map Prod.fst
        · rw [if_pos hlater, if_neg hhere, if_pos (.inr hlater)]
        · rw [if_neg hlater, if_neg hhere, if_neg (fun hno => hno.elim hhere hlater)]
    · rw [List.foldl_cons, hrest.staged, hone.staged, List.append_assoc]
      congr 1
      unfold stagedOf
      rw [← List.filterMap_append]
      rfl

theorem finishBatch_finished (s : PipelineRegistry) (batch : Batch) (now : Nat) :
    Finished { s with running := none } batch.answers (s.finishBatch batch now) := by
  have h := foldl_finished batch.answers { s with
    running := none
    outcome :=
      { serial := s.outcome.serial + 1
        entries := batch.entries.length
        seconds := now - batch.started } }
  exact ⟨h.registered, h.staged, h.entries, h.request, h.asked, h.sources, h.running, h.length⟩

/-- Only the slot and the fingerprint change, and nobody takes hold of a slot that was let go. -/
structure Alike (entry entry' : Entry) : Prop where
  held : entry'.slot.held = true → entry.slot.held = true
  desc : entry'.desc = entry.desc
  stale : entry'.stale = entry.stale
  inBatch : entry'.inBatch = entry.inBatch

/-- What a publication leaves alone. -/
structure Swapped (s s' : PipelineRegistry) : Prop where
  registered : ∀ (i : Nat) (entry' : Entry), s'.registered[i]? = some entry' →
    ∃ entry, s.registered[i]? = some entry ∧ Alike entry entry'
  entries : s'.entries = s.entries
  request : s'.request = s.request
  asked : s'.asked = s.asked
  sources : s'.sourcesGeneration = s.sourcesGeneration
  running : s'.running = s.running
  staged : s'.staged = s.staged
  length : s'.registered.length = s.registered.length

theorem Alike.refl (entry : Entry) : Alike entry entry := ⟨id, rfl, rfl, rfl⟩

theorem Swapped.refl (s : PipelineRegistry) : Swapped s s :=
  ⟨fun _ entry' h => ⟨entry', h, .refl entry'⟩, rfl, rfl, rfl, rfl, rfl, rfl, rfl⟩

theorem Swapped.trans {s s' s'' : PipelineRegistry} (h : Swapped s s') (h' : Swapped s' s'') :
    Swapped s s'' := by
  refine ⟨fun i entry'' hfind => ?_, h'.entries.trans h.entries, h'.request.trans h.request,
    h'.asked.trans h.asked, h'.sources.trans h.sources, h'.running.trans h.running,
    h'.staged.trans h.staged, h'.length.trans h.length⟩
  obtain ⟨entry', hfind', halike'⟩ := h'.registered i entry'' hfind
  obtain ⟨entry, hfind, halike⟩ := h.registered i entry' hfind'
  exact ⟨entry, hfind, halike.held ∘ halike'.held, halike'.desc.trans halike.desc,
    halike'.stale.trans halike.stale, halike'.inBatch.trans halike.inBatch⟩

theorem publishStaged_swapped (point : Nat) (s : PipelineRegistry) (item : Staged) :
    Swapped s (publishStaged point s item) := by
  unfold publishStaged
  split
  · exact .refl s
  · split
    · refine ⟨fun i entry' hfind => ?_, rfl, rfl, rfl, rfl, rfl, rfl, List.length_mapIdx⟩
      change (s.modifyEntries _ _).registered[i]? = _ at hfind
      rw [modifyEntries_get] at hfind
      obtain ⟨entry, hentry, rfl⟩ := Option.map_eq_some_iff.mp hfind
      refine ⟨entry, hentry, ?_⟩
      split
      · exact ⟨id, rfl, rfl, rfl⟩
      · exact .refl entry
    · exact .refl s

theorem publish_swapped (s : PipelineRegistry) (point : Nat) :
    Swapped { s with staged := [] } (s.publish point) := by
  have hfold (l : List Staged) : ∀ u, Swapped u (l.foldl (publishStaged point) u) := by
    induction l with
    | nil => exact fun u => .refl u
    | cons item l ih => exact fun u => (publishStaged_swapped point u item).trans (ih _)
  have h := hfold s.staged { s with staged := [] }
  exact ⟨h.registered, h.entries, h.request, h.asked, h.sources, h.running, h.staged, h.length⟩

theorem drop_swapped (s : PipelineRegistry) (i : Nat) : Swapped s (s.drop i) := by
  refine ⟨fun j entry' hfind => ?_, rfl, rfl, rfl, rfl, rfl, rfl, List.length_mapIdx⟩
  unfold drop at hfind
  rw [modifyEntries_get] at hfind
  obtain ⟨entry, hentry, rfl⟩ := Option.map_eq_some_iff.mp hfind
  refine ⟨entry, hentry, ?_⟩
  split
  · exact ⟨nofun, rfl, rfl, rfl⟩
  · exact .refl entry

/-! ## Answers -/

theorem Batch.complete_results (batch : Batch) (index : Nat) (build : LiveBuild) :
    (batch.complete index build).entries = batch.entries
      ∧ (batch.complete index build).started = batch.started
      ∧ (batch.complete index build).results.length = batch.results.length := by
  unfold Batch.complete
  split
  · exact ⟨rfl, rfl, List.length_set⟩
  · exact ⟨rfl, rfl, rfl⟩

/-- The count is of the answers that are missing. -/
theorem Batch.complete_remaining {batch : Batch}
    (h : batch.remaining = batch.results.countP Option.isNone) (index : Nat) (build : LiveBuild) :
    (batch.complete index build).remaining
      = (batch.complete index build).results.countP Option.isNone := by
  unfold Batch.complete
  split
  next hnone =>
    obtain ⟨hlt, hget⟩ := List.getElem?_eq_some_iff.mp hnone
    dsimp only
    rw [List.countP_set hlt, hget, h]
    rfl
  next => exact h

end PipelineRegistry

namespace PipelineRegistryRun

open PipelineRegistry

variable {r r' : PipelineRegistryRun} {i : Nat} {entry entry' : Entry}

/-! ## Where a reload has gone -/

/-- The request the next reload begins with asks for the file. -/
def Covered (request : Request) : Option (List Char) → Prop
  | none => request.asked = true ∧ request.all = true
  | some file => request.asked = true ∧ (request.all = true ∨ file ∈ request.files)

/-- All that concerns the entry was asked for by the time, or is covered by the next reload. -/
def Since (r : PipelineRegistryRun) (entry : Entry) (time : Nat) : Prop :=
  ∀ t file, (t, file) ∈ r.requests → Concerns entry file →
    t ≤ time ∨ Covered r.registry.request file

/-- The running reload. -/
structure BatchInv (r : PipelineRegistryRun) (batch : Batch) : Prop where
  nodup : batch.entries.Nodup
  answered : batch.results.length = batch.entries.length
  remaining : batch.remaining = batch.results.countP Option.isNone
  bounded : ∀ i ∈ batch.entries, i < r.registry.registered.length
  since : ∀ i ∈ batch.entries, ∀ entry : Entry, r.registry.registered[i]? = some entry →
    entry.slot.held = true → Since r entry batch.started
  /-- Nothing waits for publication meanwhile. -/
  apart : r.registry.staged = []

structure Reaches (r : PipelineRegistryRun) : Prop where
  nodup : r.registry.entries.Nodup
  bounded : ∀ i ∈ r.registry.entries, i < r.registry.registered.length
  listed : ∀ (i : Nat) (entry : Entry), r.registry.registered[i]? = some entry →
    entry.slot.held = true → i ∈ r.registry.entries
  flagged : ∀ (i : Nat) (entry : Entry), r.registry.registered[i]? = some entry →
    entry.inBatch = true → ∃ batch, r.registry.running = some batch ∧ i ∈ batch.entries
  batch : ∀ batch, r.registry.running = some batch → BatchInv r batch
  placed : ∀ item ∈ r.registry.staged, item.entry < r.registry.registered.length
  staged : ∀ item ∈ r.registry.staged, ∀ entry : Entry,
    r.registry.registered[item.entry]? = some entry → entry.slot.held = true →
    Since r entry (r.stagedAsOf item.entry)
  asked : r.registry.request.asked = true → r.registry.asked = true
  stale : ∀ (i : Nat) (entry : Entry), r.registry.registered[i]? = some entry →
    entry.slot.held = true → entry.stale = true → r.registry.asked = true
  moves : r.moves.length = r.registry.sourcesGeneration + 1
  past : ∀ t file, (t, file) ∈ r.requests → t ≤ r.time
  /-- What is not asked for any more was when the sources' generation moved last. -/
  taken : ∀ t file, (t, file) ∈ r.requests → Covered r.registry.request file
    ∨ ∃ move, r.moves[r.registry.sourcesGeneration]? = some move ∧ t ≤ move
  reached : ∀ (i : Nat) (entry : Entry), r.registry.registered[i]? = some entry →
    entry.slot.held = true → entry.stale = true
      ∨ (∃ batch, r.registry.running = some batch ∧ i ∈ batch.entries)
      ∨ i ∈ r.registry.staged.map Staged.entry
      ∨ r.failed i = true ∨ Since r entry (r.asOf i)

theorem Since.congr {time : Nat} (h : Since r entry time) (hrequests : r'.requests = r.requests)
    (hrequest : r'.registry.request = r.registry.request) (hdesc : entry'.desc = entry.desc) :
    Since r' entry' time := by
  intro t file hmem hconcerns
  rw [hrequests] at hmem
  rw [hrequest]
  refine h t file hmem ?_
  cases file with
  | none => exact trivial
  | some file =>
    unfold Concerns Entry.names at hconcerns ⊢
    rw [hdesc] at hconcerns
    exact hconcerns

/-! ## Asking -/

theorem covered_request {request : Request} {file : Option (List Char)} (h : Covered request file)
    {request' : Request} (hasked : request'.asked = true)
    (hall : request.all = true → request'.all = true)
    (hfiles : ∀ f ∈ request.files, request'.all = true ∨ f ∈ request'.files) :
    Covered request' file := by
  cases file with
  | none => exact ⟨hasked, hall h.2⟩
  | some file => exact ⟨hasked, h.2.elim (fun h => .inl (hall h)) (hfiles file)⟩

/-- The new request covers what it asks for, and what was covered before. -/
theorem requestReload_covers (s : PipelineRegistry) (changedFile : List Char) (force : Bool) :
    (∀ file, Covered s.request file → Covered (s.requestReload changedFile force).request file)
      ∧ Covered (s.requestReload changedFile force).request
        (if changedFile = [] then none else some (normalizeShaderPath changedFile))
      ∧ (s.requestReload changedFile force).asked = true := by
  unfold PipelineRegistry.requestReload
  dsimp only
  refine ⟨fun file h => ?_, ?_, rfl⟩
  · split
    · exact covered_request h rfl (fun _ => rfl) fun _ _ => .inl rfl
    · split
      · exact covered_request h rfl id fun _ => .inr
      · split
        · exact covered_request h rfl id fun _ => .inr
        · exact covered_request h rfl id fun _ hmem => .inr (List.mem_append_left _ hmem)
  · by_cases hempty : changedFile = []
    · rw [if_pos hempty, if_pos hempty]
      exact ⟨rfl, rfl⟩
    · rw [if_neg hempty, if_neg hempty]
      split
      next hall => exact ⟨rfl, .inl hall⟩
      next =>
        split
        next hmem => exact ⟨rfl, .inr hmem⟩
        next => exact ⟨rfl, .inr (List.mem_append_right _ (List.mem_singleton.mpr rfl))⟩

theorem Reaches.requestReload (h : Reaches r) (changedFile : List Char) (force : Bool) :
    Reaches (r.requestReload changedFile force) := by
  obtain ⟨hkeeps, hnew, hasked⟩ := requestReload_covers r.registry changedFile force
  have hrequests {t : Nat} {file : Option (List Char)}
      (hmem : (t, file) ∈ (r.requestReload changedFile force).requests) :
      (t, file) ∈ r.requests
        ∨ t = r.time ∧ Covered (r.requestReload changedFile force).registry.request file := by
    obtain hold | hlast := List.mem_append.mp hmem
    · exact .inl hold
    · cases List.mem_singleton.mp hlast
      exact .inr ⟨rfl, hnew⟩
  have hsince {entry : Entry} {time : Nat} (hold : Since r entry time) :
      Since (r.requestReload changedFile force) entry time := by
    intro t file hmem hconcerns
    obtain hmem | ⟨-, hcovered⟩ := hrequests hmem
    · exact (hold t file hmem hconcerns).imp id (hkeeps file)
    · exact .inr hcovered
  refine ⟨h.nodup, h.bounded, h.listed, h.flagged, fun batch hrunning => ?_, h.placed,
    fun item hmem entry hfind hheld => hsince (h.staged item hmem entry hfind hheld),
    fun _ => hasked, fun _ _ _ _ _ => hasked, h.moves, fun t file hmem => ?_,
    fun t file hmem => ?_, fun i entry hfind hheld => ?_⟩
  · have hbatch := h.batch batch hrunning
    exact ⟨hbatch.nodup, hbatch.answered, hbatch.remaining, hbatch.bounded,
      fun i hmem entry hfind hheld => hsince (hbatch.since i hmem entry hfind hheld), hbatch.apart⟩
  · obtain hmem | ⟨rfl, -⟩ := hrequests hmem
    · exact h.past t file hmem
    · exact Nat.le_refl _
  · obtain hmem | ⟨-, hcovered⟩ := hrequests hmem
    · exact (h.taken t file hmem).imp (hkeeps file) id
    · exact .inl hcovered
  · exact (h.reached i entry hfind hheld).imp id (Or.imp id (Or.imp id (Or.imp id hsince)))

/-! ## What leaves the reloads alone -/

/-- The registrations and the lists of the reload are as they were, or nearly. -/
theorem Reaches.swapped (h : Reaches r) (hregistry : Swapped { r.registry with staged := [] }
      { r'.registry with staged := [] })
    (hstaged : r'.registry.staged = r.registry.staged) (hrequests : r'.requests = r.requests)
    (htime : r.time ≤ r'.time) (hmoves : r'.moves = r.moves) (hasOf : r'.asOf = r.asOf)
    (hstagedAsOf : r'.stagedAsOf = r.stagedAsOf) (hfailed : r'.failed = r.failed) : Reaches r' := by
  have hrequest : r'.registry.request = r.registry.request := hregistry.request
  have hrunning : r'.registry.running = r.registry.running := hregistry.running
  have hentries : r'.registry.entries = r.registry.entries := hregistry.entries
  have hasked : r'.registry.asked = r.registry.asked := hregistry.asked
  have hsources : r'.registry.sourcesGeneration = r.registry.sourcesGeneration := hregistry.sources
  have hlength : r'.registry.registered.length = r.registry.registered.length := hregistry.length
  have hfound {i : Nat} {entry' : Entry} (hfind : r'.registry.registered[i]? = some entry') :
      ∃ entry, r.registry.registered[i]? = some entry ∧ Alike entry entry' :=
    hregistry.registered i entry' hfind
  have hsince {entry entry' : Entry} {time : Nat} (halike : Alike entry entry')
      (hold : Since r entry time) : Since r' entry' time :=
    hold.congr hrequests hrequest halike.desc
  refine ⟨hentries ▸ h.nodup, fun i hmem => ?_, fun i entry' hfind hheld => ?_,
    fun i entry' hfind hflag => ?_, fun batch hbatch => ?_, fun item hmem => ?_,
    fun item hmem entry' hfind hheld => ?_, fun hpending => ?_, fun i entry' hfind hheld hstale => ?_, ?_, fun t file hmem => ?_,
    fun t file hmem => ?_, fun i entry' hfind hheld => ?_⟩
  · rw [hlength]
    exact h.bounded i (hentries ▸ hmem)
  · obtain ⟨entry, hentry, halike⟩ := hfound hfind
    rw [hentries]
    exact h.listed i entry hentry (halike.held hheld)
  · obtain ⟨entry, hentry, halike⟩ := hfound hfind
    rw [hrunning]
    exact h.flagged i entry hentry (halike.inBatch ▸ hflag)
  · have hold := h.batch batch (hrunning ▸ hbatch)
    refine ⟨hold.nodup, hold.answered, hold.remaining, hlength ▸ hold.bounded,
      fun i hmem entry' hfind hheld => ?_, hstaged.trans hold.apart⟩
    obtain ⟨entry, hentry, halike⟩ := hfound hfind
    exact hsince halike (hold.since i hmem entry hentry (halike.held hheld))
  · rw [hlength]
    exact h.placed item (hstaged ▸ hmem)
  · obtain ⟨entry, hentry, halike⟩ := hfound hfind
    rw [hstagedAsOf]
    exact hsince halike (h.staged item (hstaged ▸ hmem) entry hentry (halike.held hheld))
  · rw [hasked]
    exact h.asked (hrequest ▸ hpending)
  · obtain ⟨entry, hentry, halike⟩ := hfound hfind
    rw [hasked]
    exact h.stale i entry hentry (halike.held hheld) (halike.stale ▸ hstale)
  · rw [hmoves, hsources]
    exact h.moves
  · exact (h.past t file (hrequests ▸ hmem)).trans htime
  · rw [hrequest, hmoves, hsources]
    exact h.taken t file (hrequests ▸ hmem)
  · obtain ⟨entry, hentry, halike⟩ := hfound hfind
    rw [halike.stale, hrunning, hstaged, hfailed, hasOf]
    exact (h.reached i entry hentry (halike.held hheld)).imp id
      (Or.imp id (Or.imp id (Or.imp id (hsince halike))))

theorem Reaches.publish (h : Reaches r) (point : Nat) : Reaches (r.publish point) := by
  have hcleared : Reaches { r.publish point with
      registry := { r.registry with staged := [] } } := by
    refine ⟨h.nodup, h.bounded, h.listed, h.flagged, fun batch hrunning => ?_,
      fun item hmem => absurd hmem List.not_mem_nil,
      fun item hmem => absurd hmem List.not_mem_nil, h.asked, h.stale, h.moves, h.past, h.taken,
      fun i entry hfind hheld => ?_⟩
    · have hbatch := h.batch batch hrunning
      exact ⟨hbatch.nodup, hbatch.answered, hbatch.remaining, hbatch.bounded, hbatch.since, rfl⟩
    · have hpublished : i ∈ r.registry.staged.map Staged.entry →
          Since r entry ((r.publish point).asOf i) := by
        intro hmem
        obtain ⟨item, hitem, rfl⟩ := List.mem_map.mp hmem
        have hasOf : (r.publish point).asOf item.entry = r.stagedAsOf item.entry := if_pos hmem
        rw [hasOf]
        exact h.staged item hitem entry hfind hheld
      obtain hstale | hbatch | hstaged | hfailed | hsince := h.reached i entry hfind hheld
      · exact .inl hstale
      · exact .inr (.inl hbatch)
      · exact .inr (.inr (.inr (.inr (hpublished hstaged))))
      · exact .inr (.inr (.inr (.inl hfailed)))
      · refine .inr (.inr (.inr (.inr ?_)))
        by_cases hmem : i ∈ r.registry.staged.map Staged.entry
        · exact hpublished hmem
        · have hasOf : (r.publish point).asOf i = r.asOf i := if_neg hmem
          rw [hasOf]
          exact hsince
  have hswapped := publish_swapped r.registry point
  exact hcleared.swapped
    ⟨hswapped.registered, hswapped.entries, hswapped.request, hswapped.asked, hswapped.sources,
      hswapped.running, rfl, hswapped.length⟩
    hswapped.staged rfl (Nat.le_refl _) rfl rfl rfl rfl

/-- Answers go to the running reload alone. -/
theorem Reaches.complete (h : Reaches r) (answer : Nat × LiveBuild) :
    Reaches (r.complete answer) := by
  have hrunning {batch' : Batch} (hbatch : (r.complete answer).registry.running = some batch') :
      ∃ batch, r.registry.running = some batch ∧ batch' = batch.complete answer.1 answer.2 := by
    obtain ⟨batch, hfound, rfl⟩ := Option.map_eq_some_iff.mp hbatch
    exact ⟨batch, hfound, rfl⟩
  have hin {i : Nat} (hold : ∃ batch, r.registry.running = some batch ∧ i ∈ batch.entries) :
      ∃ batch, (r.complete answer).registry.running = some batch ∧ i ∈ batch.entries := by
    obtain ⟨batch, hbatch, hmem⟩ := hold
    refine ⟨batch.complete answer.1 answer.2, ?_, ?_⟩
    · change r.registry.running.map _ = _
      rw [hbatch]
      rfl
    · rw [(batch.complete_results answer.1 answer.2).1]
      exact hmem
  refine ⟨h.nodup, h.bounded, h.listed, fun i entry hfind hflag => hin (h.flagged i entry hfind hflag),
    fun batch' hbatch' => ?_, h.placed, h.staged, h.asked, h.stale, h.moves, h.past, h.taken,
    fun i entry hfind hheld => (h.reached i entry hfind hheld).imp id (Or.imp hin id)⟩
  obtain ⟨batch, hbatch, rfl⟩ := hrunning hbatch'
  obtain ⟨hentries, hstarted, hlength⟩ := batch.complete_results answer.1 answer.2
  have hold := h.batch batch hbatch
  refine ⟨hentries ▸ hold.nodup, ?_, batch.complete_remaining hold.remaining _ _,
    hentries ▸ hold.bounded, fun i hmem entry hfind hheld => ?_, hold.apart⟩
  · rw [hlength, hentries]
    exact hold.answered
  · rw [hstarted]
    exact hold.since i (hentries ▸ hmem) entry hfind hheld

theorem Reaches.prune (h : Reaches r) : Reaches { r with registry := r.registry.prune } := by
  have hsub := prune_sublist r.registry
  exact ⟨h.nodup.sublist hsub, fun i hmem => h.bounded i (hsub.mem hmem),
    fun i entry hfind hheld => mem_prune (h.listed i entry hfind hheld) hfind hheld, h.flagged,
    fun batch hrunning => ⟨(h.batch batch hrunning).nodup, (h.batch batch hrunning).answered,
      (h.batch batch hrunning).remaining, (h.batch batch hrunning).bounded,
      (h.batch batch hrunning).since, (h.batch batch hrunning).apart⟩,
    h.placed, h.staged, h.asked, h.stale, h.moves, h.past, h.taken, h.reached⟩

/-! ## Registration -/

/-- A registration that is new has nothing to wait for, or it is stale. -/
theorem Reaches.append (h : Reaches r) {new : Entry} {time : Nat} (hflag : new.inBatch = false)
    (hnew : new.stale = true ∨ Since r new time) :
    Reaches { r with
      registry := { r.registry with
        registered := r.registry.registered ++ [new]
        entries := r.registry.entries ++ [r.registry.registered.length]
        asked := r.registry.asked || new.stale }
      asOf := fun i => if i = r.registry.registered.length then time else r.asOf i } := by
  have hcases {i : Nat} {entry : Entry}
      (hfind : (r.registry.registered ++ [new])[i]? = some entry) :
      r.registry.registered[i]? = some entry ∧ i ≠ r.registry.registered.length
        ∨ i = r.registry.registered.length ∧ entry = new := by
    obtain hlt | hge := Nat.lt_or_ge i r.registry.registered.length
    · rw [List.getElem?_append_left hlt] at hfind
      exact .inl ⟨hfind, Nat.ne_of_lt hlt⟩
    · rw [List.getElem?_append_right hge] at hfind
      obtain ⟨hlt, heq⟩ := List.getElem?_eq_some_iff.mp hfind
      have hzero : i - r.registry.registered.length = 0 := by
        simpa using hlt
      refine .inr ⟨by omega, ?_⟩
      rw [← heq]
      simp only [hzero, List.getElem_cons_zero]
  have hlonger {i : Nat} (hlt : i < r.registry.registered.length) :
      i < (r.registry.registered ++ [new]).length := by
    rw [List.length_append]
    exact Nat.lt_add_right _ hlt
  have hlast : r.registry.registered.length ∉ r.registry.entries := fun hmem =>
    absurd (h.bounded _ hmem) (Nat.lt_irrefl _)
  refine ⟨?_, fun i hmem => ?_, fun i entry hfind hheld => ?_, fun i entry hfind hinBatch => ?_,
    fun batch hrunning => ?_, fun item hmem => hlonger (h.placed item hmem),
    fun item hmem entry hfind hheld => ?_, fun hpending => ?_,
    fun i entry hfind hheld hstale => ?_, h.moves, h.past, h.taken, fun i entry hfind hheld => ?_⟩
  · refine List.nodup_append.mpr ⟨h.nodup, List.nodup_singleton _, fun a ha b hb => ?_⟩
    cases List.mem_singleton.mp hb
    rintro rfl
    exact hlast ha
  · obtain hold | hnew := List.mem_append.mp hmem
    · exact hlonger (h.bounded i hold)
    · rw [List.mem_singleton.mp hnew, List.length_append, List.length_singleton]
      exact Nat.lt_succ_self _
  · obtain ⟨hold, -⟩ | ⟨rfl, -⟩ := hcases hfind
    · exact List.mem_append_left _ (h.listed i entry hold hheld)
    · exact List.mem_append_right _ (List.mem_singleton.mpr rfl)
  · obtain ⟨hold, -⟩ | ⟨-, rfl⟩ := hcases hfind
    · exact h.flagged i entry hold hinBatch
    · rw [hflag] at hinBatch
      cases hinBatch
  · have hbatch := h.batch batch hrunning
    refine ⟨hbatch.nodup, hbatch.answered, hbatch.remaining,
      fun i hmem => hlonger (hbatch.bounded i hmem), fun i hmem entry hfind hheld => ?_,
      hbatch.apart⟩
    obtain ⟨hold, -⟩ | ⟨rfl, -⟩ := hcases hfind
    · exact hbatch.since i hmem entry hold hheld
    · exact absurd (hbatch.bounded _ hmem) (Nat.lt_irrefl _)
  · obtain ⟨hold, -⟩ | ⟨heq, -⟩ := hcases hfind
    · exact h.staged item hmem entry hold hheld
    · exact absurd (h.placed item hmem) (heq ▸ Nat.lt_irrefl _)
  · dsimp only
    rw [h.asked hpending, Bool.true_or]
  · obtain ⟨hold, -⟩ | ⟨-, rfl⟩ := hcases hfind
    · dsimp only
      rw [h.stale i entry hold hheld hstale, Bool.true_or]
    · dsimp only
      rw [hstale, Bool.or_true]
  · obtain ⟨hold, hne⟩ | ⟨rfl, rfl⟩ := hcases hfind
    · dsimp only
      rw [if_neg hne]
      exact h.reached i entry hold hheld
    · obtain hstale | hsince := hnew
      · exact .inl hstale
      · dsimp only
        rw [if_pos rfl]
        exact .inr (.inr (.inr (.inr hsince)))

theorem Reaches.register (h : Reaches r) (desc : LivePipelineDesc) (payload : PipelinePayload)
    (fingerprint : Nat) {builtFor : Nat} (hbuilt : builtFor ≤ r.registry.sourcesGeneration) :
    Reaches (r.register desc payload fingerprint builtFor) := by
  -- pruned or not, the new registration is of the last generation or stale
  have hplace (u : PipelineRegistry) (hregistered : u.registered = r.registry.registered)
      (hreaches : Reaches { r with registry := u })
      (hsources : u.sourcesGeneration = r.registry.sourcesGeneration) (new : Entry)
      (hstale : new.stale = decide (builtFor < u.sourcesGeneration))
      (hflag : new.inBatch = false) :
      Reaches { r with
        registry := { u with
          registered := u.registered ++ [new]
          entries := u.entries ++ [u.registered.length]
          asked := u.asked || new.stale }
        asOf := fun i => if i = u.registered.length then (r.moves[builtFor]?).getD 0
          else r.asOf i } := by
    refine Reaches.append hreaches hflag ?_
    by_cases hlt : builtFor < u.sourcesGeneration
    · exact .inl (hstale.trans (decide_eq_true hlt))
    · have heq : builtFor = u.sourcesGeneration := by omega
      refine .inr fun t file hmem _ => ?_
      obtain hcovered | ⟨move, hmove, hle⟩ := hreaches.taken t file hmem
      · exact .inr hcovered
      · refine .inl ?_
        change r.moves[u.sourcesGeneration]? = some move at hmove
        rw [heq, hmove]
        exact hle
  unfold PipelineRegistryRun.register PipelineRegistry.register
  split
  · exact hplace r.registry.prune rfl h.prune rfl _ rfl rfl
  · exact hplace r.registry rfl h rfl _ rfl rfl

/-! ## A reload begins -/

theorem mem_taken {s : PipelineRegistry} : i ∈ s.taken ↔ i ∈ s.entries ∧ ∃ entry : Entry,
    s.registered[i]? = some entry ∧ entry.inBatch = false ∧ entry.slot.held = true
      ∧ (s.request.picks (s.request.everything s) entry = true ∨ entry.stale = true) := by
  unfold taken
  rw [List.mem_filter]
  refine and_congr_right fun _ => ?_
  cases hfind : s.registered[i]? with
  | none => simp
  | some entry => simp [and_assoc]

/-- A reload that concerns an entry, and is covered, picks it. -/
theorem picks_of_covered {s : PipelineRegistry} {file : Option (List Char)}
    (hcovered : Covered s.request file) (hconcerns : Concerns entry file) :
    s.request.picks (s.request.everything s) entry = true := by
  unfold Request.picks Request.everything
  cases file with
  | none =>
    obtain ⟨hasked, hall⟩ := hcovered
    rw [hasked, hall]
    rfl
  | some file =>
    obtain ⟨hasked, hall | hmem⟩ := hcovered
    · rw [hasked, hall]
      rfl
    · have hnamed : s.request.files.any entry.names = true :=
        List.any_eq_true.mpr ⟨file, hmem, hconcerns⟩
      rw [hasked, hnamed, Bool.or_true]
      rfl

/-- **A reload takes over all that concerns a live registration.** -/
theorem Reaches.start (h : Reaches r) (hrunning : r.registry.running = none)
    (hstaged : r.registry.staged = []) : Reaches r.start := by
  have hpruned := h.prune
  obtain ⟨s, hs⟩ : ∃ s, s = r.registry.prune := ⟨_, rfl⟩
  have hget (i : Nat) : r.start.registry.registered[i]? = s.registered[i]?.map fun entry =>
      if i ∈ s.taken then { entry with stale := false, inBatch := true } else entry := by
    subst hs
    exact modifyEntries_get _ _ _ _
  have hold {i : Nat} {entry' : Entry} (hfind : r.start.registry.registered[i]? = some entry') :
      ∃ entry, s.registered[i]? = some entry ∧ entry'.slot = entry.slot ∧ entry'.desc = entry.desc
        ∧ (i ∈ s.taken ∨ i ∉ s.taken ∧ entry' = entry) := by
    rw [hget] at hfind
    obtain ⟨entry, hentry, rfl⟩ := Option.map_eq_some_iff.mp hfind
    refine ⟨entry, hentry, ?_⟩
    split
    next hmem => exact ⟨rfl, rfl, .inl hmem⟩
    next hmem => exact ⟨rfl, rfl, .inr ⟨hmem, rfl⟩⟩
  have hnone : s.running = none := by
    subst hs
    exact hrunning
  have hnothing : s.staged = [] := by
    subst hs
    exact hstaged
  rw [← hs] at hpruned
  -- a live registration that stays behind has nothing waiting for it
  have hbehind {i : Nat} {entry : Entry} (hfind : s.registered[i]? = some entry)
      (hheld : entry.slot.held = true) (hnot : i ∉ s.taken) :
      entry.stale = false ∧ s.request.picks (s.request.everything s) entry = false := by
    have hlisted := hpruned.listed i entry hfind hheld
    have hflag : entry.inBatch = false := by
      by_contra hno
      obtain ⟨batch, hbatch, -⟩ := hpruned.flagged i entry hfind (Bool.not_eq_false _ ▸ hno)
      exact absurd (hbatch.symm.trans hnone) (by simp)
    constructor
    · by_contra hno
      exact hnot (mem_taken.mpr ⟨hlisted, entry, hfind, hflag, hheld,
        .inr (Bool.not_eq_false _ ▸ hno)⟩)
    · by_contra hno
      exact hnot (mem_taken.mpr ⟨hlisted, entry, hfind, hflag, hheld,
        .inl (Bool.not_eq_false _ ▸ hno)⟩)
  have hbatch : r.start.registry.running = some
      { entries := s.taken
        requests := s.taken.filterMap fun i => s.registered[i]?.map fun entry =>
          { fingerprint := entry.fingerprint
            force := s.request.picks (s.request.everything s) entry && s.request.force }
        results := s.taken.map fun _ => none
        remaining := s.taken.length
        started := r.time } := by
    subst hs
    rfl
  have hlength : r.start.registry.registered.length = s.registered.length := by
    subst hs
    exact List.length_mapIdx
  have hentries : r.start.registry.entries = s.entries := by
    subst hs
    rfl
  have hidle : r.start.registry.request = {} := rfl
  have hrequest : s.request = r.registry.request := by
    subst hs
    rfl
  have hgeneration : s.sourcesGeneration = r.registry.sourcesGeneration := by
    subst hs
    rfl
  have hsources : r.start.registry.sourcesGeneration
      = s.sourcesGeneration + if s.request.asked then 1 else 0 := by
    subst hs
    rfl
  have hmoves : r.start.moves = if s.request.asked then r.moves ++ [r.time] else r.moves := by
    rw [hrequest]
    rfl
  have hempty : r.start.registry.staged = [] := by
    subst hs
    exact hstaged
  refine ⟨hentries ▸ hpruned.nodup, fun i hmem => ?_, fun i entry' hfind hheld => ?_,
    fun i entry' hfind hflag => ?_, fun batch hsome => ?_, fun item hmem => ?_,
    fun item hmem => ?_, fun hpending => ?_, fun i entry' hfind hheld hstale => ?_, ?_, h.past,
    fun t file hmem => ?_, fun i entry' hfind hheld => ?_⟩
  · rw [hlength]
    exact hpruned.bounded i (hentries ▸ hmem)
  · obtain ⟨entry, hentry, hslot, -⟩ := hold hfind
    rw [hentries]
    exact hpruned.listed i entry hentry (hslot ▸ hheld)
  · refine ⟨_, hbatch, ?_⟩
    obtain ⟨entry, hentry, -, -, hmem | ⟨-, rfl⟩⟩ := hold hfind
    · exact hmem
    · obtain ⟨batch, hno, -⟩ := hpruned.flagged i entry' hentry hflag
      exact absurd (hno.symm.trans hnone) (by simp)
  · cases hbatch.symm.trans hsome
    refine ⟨hpruned.nodup.sublist List.filter_sublist, List.length_map _, ?_, fun i hmem => ?_,
      fun i _ entry _ _ t file hmem _ => .inl (h.past t file hmem), hempty⟩
    · dsimp only
      rw [List.countP_map]
      exact (List.countP_eq_length.mpr fun _ _ => rfl).symm
    · rw [hlength]
      exact hpruned.bounded i (mem_taken.mp hmem).1
  · rw [hempty] at hmem
    exact absurd hmem List.not_mem_nil
  · rw [hempty] at hmem
    exact absurd hmem List.not_mem_nil
  · rw [hidle] at hpending
    cases hpending
  · obtain ⟨entry, hentry, hslot, -, hmem | ⟨hnot, rfl⟩⟩ := hold hfind
    · rw [hget, hentry, Option.map_some, if_pos hmem] at hfind
      cases hfind
      cases hstale
    · rw [(hbehind hentry hheld hnot).1] at hstale
      cases hstale
  · rw [hmoves, hsources, hgeneration]
    split
    · rw [List.length_append, h.moves]
      rfl
    · exact h.moves
  · -- the sources' generation moves with every request that is taken over
    refine .inr ?_
    rw [hmoves, hsources, hgeneration]
    split
    · refine ⟨r.time, ?_, h.past t file hmem⟩
      rw [← h.moves]
      exact List.getElem?_concat_length
    next hasked =>
      obtain hcovered | hmoved := h.taken t file hmem
      · rw [← hrequest] at hcovered
        cases file with
        | none => exact absurd hcovered.1 hasked
        | some file => exact absurd hcovered.1 hasked
      · exact hmoved
  · obtain ⟨entry, hentry, -, -, hmem | ⟨hnot, rfl⟩⟩ := hold hfind
    · exact .inr (.inl ⟨_, hbatch, hmem⟩)
    · obtain ⟨hfresh, hunpicked⟩ := hbehind hentry hheld hnot
      obtain hstale | ⟨batch, hno, -⟩ | hwaits | hfailed | hsince :=
        hpruned.reached i entry' hentry hheld
      · rw [hfresh] at hstale
        cases hstale
      · exact absurd (hno.symm.trans hnone) (by simp)
      · change i ∈ s.staged.map Staged.entry at hwaits
        rw [hnothing] at hwaits
        exact absurd hwaits List.not_mem_nil
      · exact .inr (.inr (.inr (.inl hfailed)))
      · refine .inr (.inr (.inr (.inr fun t file hmem hconcerns => .inl ?_)))
        obtain hle | hcovered := hsince t file hmem hconcerns
        · exact hle
        · rw [picks_of_covered hcovered hconcerns] at hunpicked
          cases hunpicked

/-! ## A reload ends -/

theorem answers_entries {batch : Batch} (h : batch.results.length = batch.entries.length) :
    batch.answers.map Prod.fst = batch.entries := by
  unfold Batch.answers
  exact List.map_fst_zip (by rw [List.length_map, h])

theorem answerOf_some {batch : Batch} (h : batch.results.length = batch.entries.length)
    (hmem : i ∈ batch.entries) : ∃ build, answerOf batch i = some build ∧ (i, build) ∈ batch.answers := by
  rw [← answers_entries h] at hmem
  obtain ⟨answer, hanswer, rfl⟩ := List.mem_map.mp hmem
  have hsome : (batch.answers.find? fun other => other.1 == answer.1).isSome :=
    List.find?_isSome.mpr ⟨answer, hanswer, beq_self_eq_true _⟩
  obtain ⟨found, hfound⟩ := Option.isSome_iff_exists.mp hsome
  have hfirst := List.find?_some hfound
  have heq : found.1 = answer.1 := beq_iff_eq.mp hfirst
  refine ⟨found.2, ?_, ?_⟩
  · unfold answerOf
    rw [hfound]
    rfl
  · rw [← heq]
    exact List.mem_of_find?_eq_some hfound

theorem answerOf_none {batch : Batch} (h : batch.results.length = batch.entries.length)
    (hmem : i ∉ batch.entries) : answerOf batch i = none := by
  rw [← answers_entries h] at hmem
  unfold answerOf
  rw [List.find?_eq_none.mpr fun answer hanswer heq =>
    hmem (List.mem_map.mpr ⟨answer, hanswer, beq_iff_eq.mp heq⟩)]
  rfl

theorem mem_stagedOf {answers : List (Nat × LiveBuild)} {item : Staged} :
    item ∈ stagedOf answers ↔ ∃ answer ∈ answers, ∃ payload, answer.2.payload = some payload
      ∧ item = { entry := answer.1, payload, fingerprint := answer.2.fingerprint } := by
  unfold stagedOf
  rw [List.mem_filterMap]
  refine exists_congr fun answer => and_congr_right fun _ => ?_
  rw [Option.map_eq_some_iff]
  exact exists_congr fun payload => and_congr_right fun _ => eq_comm

/-- One answer each. -/
theorem answer_unique {batch : Batch} (h : batch.results.length = batch.entries.length)
    (hnodup : batch.entries.Nodup) {build build' : LiveBuild} (hmem : (i, build) ∈ batch.answers)
    (hanswer : answerOf batch i = some build') : build = build' := by
  have hkeys : (batch.answers.map Prod.fst).Nodup := answers_entries h ▸ hnodup
  obtain ⟨found, hfound, rfl⟩ := Option.map_eq_some_iff.mp hanswer
  have hfirst := List.find?_some hfound
  have heq : found.1 = i := beq_iff_eq.mp hfirst
  have hsame := List.inj_on_of_nodup_map hkeys hmem (List.mem_of_find?_eq_some hfound) heq.symm
  exact congrArg Prod.snd hsame

theorem Reaches.finish (h : Reaches r) : Reaches r.finish := by
  unfold PipelineRegistryRun.finish
  cases hrunning : r.registry.running with
  | none => exact h
  | some batch =>
    dsimp only
    split
    next hdone =>
      have hbatch := h.batch batch hrunning
      have hfinished := finishBatch_finished r.registry batch r.time
      have hin := answers_entries hbatch.answered
      generalize r.registry.finishBatch batch r.time = s' at hfinished
      have hold {i : Nat} {entry' : Entry} (hfind : s'.registered[i]? = some entry') :
          ∃ entry, r.registry.registered[i]? = some entry ∧ entry'.slot = entry.slot
            ∧ entry'.desc = entry.desc ∧ entry'.stale = entry.stale
            ∧ entry'.inBatch = (if i ∈ batch.entries then false else entry.inBatch) := by
        rw [hfinished.registered, hin] at hfind
        obtain ⟨entry, hentry, rfl⟩ := Option.map_eq_some_iff.mp hfind
        refine ⟨entry, hentry, ?_⟩
        split
        · exact ⟨rfl, rfl, rfl, rfl⟩
        · exact ⟨rfl, rfl, rfl, rfl⟩
      have hsince {r' : PipelineRegistryRun} {entry entry' : Entry} {time : Nat}
          (hrequests : r'.requests = r.requests) (hregistry : r'.registry = s')
          (hdesc : entry'.desc = entry.desc) (h : Since r entry time) : Since r' entry' time :=
        h.congr hrequests (hregistry ▸ hfinished.request) hdesc
      have hlength : s'.registered.length = r.registry.registered.length := hfinished.length
      have hstaged : s'.staged = stagedOf batch.answers := by
        rw [hfinished.staged]
        change r.registry.staged ++ _ = _
        rw [hbatch.apart]
        rfl
      have hentries : s'.entries = r.registry.entries := hfinished.entries
      have hsources : s'.sourcesGeneration = r.registry.sourcesGeneration := hfinished.sources
      have hrequest : s'.request = r.registry.request := hfinished.request
      have hitem {item : Staged} (hmem : item ∈ s'.staged) : ∃ build : LiveBuild,
          item.entry ∈ batch.entries ∧ answerOf batch item.entry = some build
            ∧ build.payload ≠ none := by
        rw [hstaged] at hmem
        obtain ⟨⟨i, build⟩, hanswer, payload, hpayload, rfl⟩ := mem_stagedOf.mp hmem
        have hmem : i ∈ batch.entries := by
          rw [← hin]
          exact List.mem_map_of_mem hanswer
        obtain ⟨build', hbuild', -⟩ := answerOf_some hbatch.answered hmem
        cases answer_unique hbatch.answered hbatch.nodup hanswer hbuild'
        refine ⟨build, hmem, hbuild', fun hno => ?_⟩
        cases hpayload.symm.trans hno
      refine ⟨hentries ▸ h.nodup, fun i hmem => ?_, fun i entry' hfind hheld => ?_,
        fun i entry' hfind hflag => ?_, fun other hsome => ?_, fun item hmem => ?_,
        fun item hmem entry' hfind hheld => ?_, fun hpending => ?_,
        fun i entry' hfind hheld hstale => ?_, ?_, h.past, fun t file hmem => ?_,
        fun i entry' hfind hheld => ?_⟩
      · rw [hlength]
        exact h.bounded i (hentries ▸ hmem)
      · obtain ⟨entry, hentry, hslot, -⟩ := hold hfind
        rw [hentries]
        exact h.listed i entry hentry (hslot ▸ hheld)
      · obtain ⟨entry, hentry, -, -, -, heq⟩ := hold hfind
        rw [hflag] at heq
        split at heq
        · cases heq
        next hnot =>
          obtain ⟨other, hsome, hmem⟩ := h.flagged i entry hentry heq.symm
          cases hrunning.symm.trans hsome
          exact absurd hmem hnot
      · exact absurd (hfinished.running.symm.trans hsome) (by simp)
      · obtain ⟨_, hmem, -⟩ := hitem hmem
        rw [hlength]
        exact hbatch.bounded _ hmem
      · obtain ⟨build, hmem, hanswer, hpayload⟩ := hitem hmem
        obtain ⟨entry, hentry, hslot, hdesc, -⟩ := hold hfind
        dsimp only
        rw [hanswer]
        dsimp only
        rw [if_neg hpayload]
        exact hsince rfl rfl hdesc (hbatch.since _ hmem entry hentry (hslot ▸ hheld))
      · rw [hfinished.asked]
        exact h.asked (hrequest ▸ hpending)
      · obtain ⟨entry, hentry, hslot, -, hsame, -⟩ := hold hfind
        rw [hfinished.asked]
        exact h.stale i entry hentry (hslot ▸ hheld) (hsame ▸ hstale)
      · rw [hsources]
        exact h.moves
      · rw [hrequest, hsources]
        exact h.taken t file hmem
      · obtain ⟨entry, hentry, hslot, hdesc, hsame, -⟩ := hold hfind
        by_cases hmem : i ∈ batch.entries
        · have hreached := hbatch.since i hmem entry hentry (hslot ▸ hheld)
          obtain ⟨build, hanswer, hpair⟩ := answerOf_some hbatch.answered hmem
          dsimp only
          rw [hanswer]
          dsimp only
          by_cases hpayload : build.payload = none
          · by_cases herror : build.error = ""
            · rw [if_pos ⟨hpayload, herror⟩]
              exact .inr (.inr (.inr (.inr (hsince rfl rfl hdesc hreached))))
            · exact .inr (.inr (.inr (.inl (decide_eq_true ⟨hpayload, herror⟩))))
          · refine .inr (.inr (.inl ?_))
            obtain ⟨payload, hpayload⟩ := Option.ne_none_iff_exists'.mp hpayload
            rw [hstaged]
            exact List.mem_map.mpr
              ⟨_, mem_stagedOf.mpr ⟨(i, build), hpair, payload, hpayload, rfl⟩, rfl⟩
        · dsimp only
          rw [answerOf_none hbatch.answered hmem]
          obtain hstale | ⟨other, hsome, hno⟩ | hwaits | hfailed | hreached :=
            h.reached i entry hentry (hslot ▸ hheld)
          · exact .inl (hsame.trans hstale)
          · cases hrunning.symm.trans hsome
            exact absurd hno hmem
          · rw [hbatch.apart] at hwaits
            exact absurd hwaits List.not_mem_nil
          · exact .inr (.inr (.inr (.inl hfailed)))
          · exact .inr (.inr (.inr (.inr (hsince rfl rfl hdesc hreached))))
    next => exact h

/-! ## Runs -/

theorem Reaches.service (h : Reaches r) {inline : List (Nat × LiveBuild)}
    (horderly : Orderly r (.service inline)) : Reaches (r.service inline) := by
  have hcompletes (answers : List (Nat × LiveBuild)) : ∀ u : PipelineRegistryRun, Reaches u →
      Reaches (answers.foldl PipelineRegistryRun.complete u) := by
    induction answers with
    | nil => exact fun _ hu => hu
    | cons answer answers ih => exact fun u hu => ih _ (hu.complete answer)
  unfold PipelineRegistryRun.service
  dsimp only
  split
  next hstarts =>
    exact (hcompletes inline _ (h.finish.start hstarts.1 (horderly hstarts.1 hstarts.2))).finish
  next => exact h.finish

/-- The run's reloads are those of the registry. -/
theorem service_registry (r : PipelineRegistryRun) (inline : List (Nat × LiveBuild)) :
    (r.service inline).registry = r.registry.service inline r.time := by
  have hfinish (u : PipelineRegistryRun) : u.finish.registry = u.registry.finish u.time
      ∧ u.finish.time = u.time := by
    unfold PipelineRegistryRun.finish PipelineRegistry.finish
    cases u.registry.running with
    | none => exact ⟨rfl, rfl⟩
    | some batch =>
      by_cases hdone : batch.remaining = 0
      · simp only [if_pos hdone, and_self]
      · simp only [if_neg hdone, and_self]
  have hcompletes (answers : List (Nat × LiveBuild)) : ∀ u : PipelineRegistryRun,
      (answers.foldl PipelineRegistryRun.complete u).registry
          = answers.foldl (fun s answer => s.complete answer.1 answer.2) u.registry
        ∧ (answers.foldl PipelineRegistryRun.complete u).time = u.time := by
    induction answers with
    | nil => exact fun _ => ⟨rfl, rfl⟩
    | cons answer answers ih => exact fun u => ih (u.complete answer)
  unfold PipelineRegistryRun.service PipelineRegistry.service
  dsimp only
  rw [← (hfinish r).1]
  split
  · rw [(hfinish _).1, (hcompletes inline _).1, (hcompletes inline _).2]
    change PipelineRegistry.finish (inline.foldl _ (r.finish.registry.startBatch r.finish.time)) _ = _
    rw [(hfinish r).2]
    exact congrArg _ (hfinish r).2
  · rfl

theorem Reaches.tick (h : Reaches r) {time : Nat} (hle : r.time ≤ time) :
    Reaches { r with time } :=
  h.swapped (.refl _) rfl rfl hle rfl rfl rfl rfl

theorem reaches_step {a : PipelineRegistryAction} (h : Reaches r) (horderly : Orderly r a)
    (hstep : step r a = some r') : Reaches r' := by
  obtain ⟨u, hact, rfl⟩ := Option.map_eq_some_iff.mp hstep
  refine Reaches.tick ?_ (Nat.le_succ _)
  cases a with
  | register desc payload fingerprint builtFor =>
    simp only [act] at hact
    split at hact
    next hbuilt =>
      cases hact
      exact h.register desc payload fingerprint hbuilt
    next => cases hact
  | requestReload changedFile force =>
    cases hact
    exact h.requestReload changedFile force
  | complete index build =>
    cases hact
    exact h.complete (index, build)
  | service inline =>
    cases hact
    exact h.service horderly
  | publish point =>
    cases hact
    exact h.publish point
  | retire completed =>
    cases hact
    exact h.swapped ⟨fun _ entry hfind => ⟨entry, hfind, .refl entry⟩, rfl, rfl, rfl, rfl, rfl, rfl,
      rfl⟩ rfl rfl (Nat.le_refl _) rfl rfl rfl rfl
  | drainRetired =>
    cases hact
    have hempty : r.registry.staged = [] := horderly
    exact h.swapped ⟨fun _ entry hfind => ⟨entry, hfind, .refl entry⟩, rfl, rfl, rfl, rfl, rfl, rfl,
      rfl⟩ hempty.symm rfl (Nat.le_refl _) rfl rfl rfl rfl
  | drop i =>
    cases hact
    have hswapped := drop_swapped { r.registry with staged := [] } i
    exact h.swapped hswapped rfl rfl (Nat.le_refl _) rfl rfl rfl rfl

theorem reaches_start : Reaches {} := by
  refine ⟨List.nodup_nil, ?_, ?_, ?_, ?_, ?_, ?_, ?_, ?_, rfl, ?_, ?_, ?_⟩
  all_goals intros
  all_goals simp_all

instance (r : PipelineRegistryRun) : (a : PipelineRegistryAction) → Decidable (Orderly r a)
  | .service _ => inferInstanceAs (Decidable (r.finish.registry.running = none →
      r.finish.registry.asked = true → r.finish.registry.staged = []))
  | .drainRetired => inferInstanceAs (Decidable (r.registry.staged = []))
  | .register _ _ _ _ | .requestReload _ _ | .complete _ _ | .publish _ | .retire _ | .drop _ =>
    .isTrue trivial

/-- A changed file, its reload, and the publication of what it built. -/
def reloadTrace : List PipelineRegistryAction :=
  [.register { id := "lights", sources := ["Lights.hlsl".toList] } 7 1 0,
    .requestReload "Data\\Shaders\\lights.hlsl".toList false,
    .service [], .complete 0 { payload := some 8, fingerprint := 2 }, .service [], .publish 5]

end PipelineRegistryRun

end ModuleServices
