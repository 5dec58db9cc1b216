import ModuleServices.Pipelines.Service

/-!
# One active pipeline per id, and what it displaces

The service's four tables agree on who is active (`Tables`): an id's active key is the one active
key of that id, and what is in flight is not active. `PublishReady` walks the keys in flight in any
order, and each of them does one of four things (`Publishes`); the rest is read off these. A payload
that a publication displaces is held, with the fence, until a `Retire` passes it.
-/

namespace ModuleServices

namespace PipelineService

variable {s s' : PipelineService} {fence : Nat} {key : UInt64}

structure Tables (s : PipelineService) : Prop where
  active : ∀ id key, s.activeKeyById.find? id = some key ↔
    s.idsByKey.find? key = some id ∧ ∃ artifact, s.active.find? key = some artifact
  owned : ∀ key artifact, s.active.find? key = some artifact → artifact.key = key
    ∧ (∃ payload, artifact.payload = some payload) ∧ ∃ id, s.idsByKey.find? key = some id
  flying : ∀ key index, s.inFlight.find? key = some index →
    (∃ flight, s.flights[index]? = some flight ∧ flight.key = key)
      ∧ (∃ id, s.idsByKey.find? key = some id) ∧ s.active.find? key = none
  results : ∀ flight ∈ s.flights, ∀ artifact, flight.result = some artifact →
    artifact.key = flight.key

/-! ## One key of the walk -/

/-- What `PublishReady` does at one key in flight. -/
inductive Publishes (fence : Nat) (s : PipelineService) (key : UInt64) : PipelineService → Prop where
  | waiting (hready : s.readyArtifact key = none) : Publishes fence s key s
  | failed {artifact : PipelineArtifact} {id : String} (hready : s.readyArtifact key = some artifact)
      (hid : s.idsByKey.find? key = some id) (hpayload : artifact.payload = none) :
      Publishes fence s key { s with
        idsByKey := s.idsByKey.erase key, inFlight := s.inFlight.erase key }
  /-- The id had no active pipeline. -/
  | first {artifact : PipelineArtifact} {id : String} {payload : PipelinePayload}
      (hready : s.readyArtifact key = some artifact) (hid : s.idsByKey.find? key = some id)
      (hpayload : artifact.payload = some payload) (hprior : s.activeKeyById.find? id = none) :
      Publishes fence s key { s with
        active := s.active.insert key artifact
        activeKeyById := s.activeKeyById.insert id key
        inFlight := s.inFlight.erase key }
  | displacing {artifact prior : PipelineArtifact} {id : String}
      {payload priorPayload : PipelinePayload} {priorKey : UInt64}
      (hready : s.readyArtifact key = some artifact) (hid : s.idsByKey.find? key = some id)
      (hpayload : artifact.payload = some payload)
      (hpriorKey : s.activeKeyById.find? id = some priorKey) (hne : priorKey ≠ key)
      (hprior : s.active.find? priorKey = some prior)
      (hpriorPayload : prior.payload = some priorPayload) :
      Publishes fence s key { s with
        active := (s.active.erase priorKey).insert key artifact
        activeKeyById := s.activeKeyById.insert id key
        idsByKey := s.idsByKey.erase priorKey
        inFlight := s.inFlight.erase key
        retired := s.retired ++ [(fence, priorPayload)] }

/-- What is ready is in flight. -/
theorem readyArtifact_some {artifact : PipelineArtifact}
    (h : s.readyArtifact key = some artifact) :
    ∃ index flight, s.inFlight.find? key = some index ∧ s.flights[index]? = some flight
      ∧ flight.result = some artifact := by
  unfold readyArtifact at h
  obtain ⟨flight, hbound, hresult⟩ := Option.bind_eq_some_iff.mp h
  obtain ⟨index, hfind, hget⟩ := Option.bind_eq_some_iff.mp hbound
  exact ⟨index, flight, hfind, hget, hresult⟩

theorem publishKey_publishes (h : Tables s) (fence : Nat) (key : UInt64) :
    Publishes fence s key (publishKey fence s key) := by
  unfold publishKey
  cases hready : s.readyArtifact key with
  | none => exact .waiting hready
  | some artifact =>
    obtain ⟨index, flight, hfind, -, -⟩ := readyArtifact_some hready
    obtain ⟨-, ⟨id, hid⟩, hinactive⟩ := h.flying key index hfind
    dsimp only
    rw [hid]
    dsimp only
    cases hpayload : artifact.payload with
    | none =>
      rw [if_neg (by simp), if_neg (by simp [Table.contains, hinactive])]
      exact .failed hready hid hpayload
    | some payload =>
      simp only [Option.isSome_some, if_true]
      cases hpriorKey : s.activeKeyById.find? id with
      | none =>
        have hdisplaced : s.displacePrior fence id key = s := by
          unfold displacePrior
          rw [hpriorKey]
        simp only [hdisplaced, hinactive]
        exact .first hready hid hpayload hpriorKey
      | some priorKey =>
        obtain ⟨-, prior, hprior⟩ := (h.active id priorKey).mp hpriorKey
        obtain ⟨-, ⟨priorPayload, hpriorPayload⟩, -⟩ := h.owned priorKey prior hprior
        have hne : priorKey ≠ key := by
          rintro rfl
          rw [hinactive] at hprior
          cases hprior
        have hdisplaced : s.displacePrior fence id key = { s with
            active := s.active.erase priorKey
            idsByKey := s.idsByKey.erase priorKey
            retired := s.retired ++ [(fence, priorPayload)] } := by
          unfold displacePrior retirePayload
          simp only [hpriorKey, if_neg hne, hprior, hpriorPayload]
        have hgone : (s.active.erase priorKey).find? key = none := by
          rw [Table.find?_erase, if_neg hne.symm, hinactive]
        simp only [hdisplaced, hgone]
        exact .displacing hready hid hpayload hpriorKey hne hprior hpriorPayload

/-- The artifact of a key in flight is the key's. -/
theorem Tables.ready_key (h : Tables s) {artifact : PipelineArtifact}
    (hready : s.readyArtifact key = some artifact) :
    artifact.key = key ∧ s.active.find? key = none := by
  obtain ⟨index, flight, hfind, hget, hresult⟩ := readyArtifact_some hready
  obtain ⟨⟨flight', hget', hkey⟩, -, hinactive⟩ := h.flying key index hfind
  cases hget.symm.trans hget'
  exact ⟨(h.results flight (List.mem_of_getElem? hget) artifact hresult).trans hkey, hinactive⟩

theorem Tables.publishes (h : Tables s) (hstep : Publishes fence s key s') : Tables s' := by
  cases hstep with
  | waiting => exact h
  | @failed artifact id hready hid hpayload =>
    obtain ⟨-, hinactive⟩ := h.ready_key hready
    have hne {key' : UInt64} {found : PipelineArtifact} (hfound : s.active.find? key' = some found) :
        key' ≠ key := by
      rintro rfl
      rw [hinactive] at hfound
      cases hfound
    refine ⟨fun id' key' => ?_, fun key' found hfound => ?_, fun key' index hfind => ?_, h.results⟩
    · dsimp only
      rw [Table.find?_erase]
      constructor
      · intro hactive
        obtain ⟨hid', found, hfound⟩ := (h.active id' key').mp hactive
        rw [if_neg (hne hfound)]
        exact ⟨hid', found, hfound⟩
      · rintro ⟨hid', found, hfound⟩
        rw [if_neg (hne hfound)] at hid'
        exact (h.active id' key').mpr ⟨hid', found, hfound⟩
    · obtain ⟨hkey, hsome, hnamed⟩ := h.owned key' found hfound
      dsimp only
      rw [Table.find?_erase, if_neg (hne hfound)]
      exact ⟨hkey, hsome, hnamed⟩
    · dsimp only at hfind ⊢
      rw [Table.find?_erase] at hfind
      split at hfind
      · cases hfind
      next hother =>
        rw [Table.find?_erase, if_neg hother]
        exact h.flying key' index hfind
  | @first artifact id payload hready hid hpayload hprior =>
    obtain ⟨hkey, hinactive⟩ := h.ready_key hready
    refine ⟨fun id' key' => ?_, fun key' found hfound => ?_, fun key' index hfind => ?_, h.results⟩
    · dsimp only
      rw [Table.find?_insert, Table.find?_insert]
      by_cases hid' : id' = id
      · subst hid'
        rw [if_pos rfl]
        constructor
        · intro heq
          cases heq
          exact ⟨hid, artifact, if_pos rfl⟩
        · rintro ⟨hnamed, found, hfound⟩
          split at hfound
          next heq => rw [heq]
          next =>
            -- another active key of the id: there was none
            rw [(h.active id' key').mpr ⟨hnamed, found, hfound⟩] at hprior
            cases hprior
      · rw [if_neg hid', h.active id' key']
        refine and_congr_right fun hnamed => ?_
        rw [if_neg]
        rintro rfl
        exact hid' (Option.some.inj (hnamed.symm.trans hid))
    · dsimp only at hfound
      rw [Table.find?_insert] at hfound
      split at hfound
      next heq =>
        cases hfound
        exact ⟨hkey.trans heq.symm, ⟨payload, hpayload⟩, id, heq ▸ hid⟩
      next => exact h.owned key' found hfound
    · dsimp only at hfind ⊢
      rw [Table.find?_erase] at hfind
      split at hfind
      · cases hfind
      next hother =>
        rw [Table.find?_insert, if_neg hother]
        exact h.flying key' index hfind
  | @displacing artifact prior id payload priorPayload priorKey hready hid hpayload hpriorKey hne
      hprior hpriorPayload =>
    obtain ⟨hkey, hinactive⟩ := h.ready_key hready
    obtain ⟨hpriorId, -⟩ := (h.active id priorKey).mp hpriorKey
    refine ⟨fun id' key' => ?_, fun key' found hfound => ?_, fun key' index hfind => ?_, h.results⟩
    · dsimp only
      rw [Table.find?_insert, Table.find?_insert, Table.find?_erase, Table.find?_erase]
      by_cases hid' : id' = id
      · subst hid'
        rw [if_pos rfl]
        constructor
        · intro heq
          cases heq
          rw [if_neg hne.symm]
          exact ⟨hid, artifact, if_pos rfl⟩
        · rintro ⟨hnamed, found, hfound⟩
          split at hfound
          next heq => rw [heq]
          next =>
            -- the id's other active key was the one displaced
            split at hfound
            · cases hfound
            next hother =>
              rw [if_neg hother] at hnamed
              have hactive := (h.active id' key').mpr ⟨hnamed, found, hfound⟩
              exact absurd (Option.some.inj (hactive.symm.trans hpriorKey)) hother
      · rw [if_neg hid', h.active id' key']
        constructor
        · rintro ⟨hnamed, found, hfound⟩
          have hother : key' ≠ priorKey := by
            rintro rfl
            exact hid' (Option.some.inj (hnamed.symm.trans hpriorId))
          have hthis : key' ≠ key := by
            rintro rfl
            exact hid' (Option.some.inj (hnamed.symm.trans hid))
          rw [if_neg hother, if_neg hthis, if_neg hother]
          exact ⟨hnamed, found, hfound⟩
        · rintro ⟨hnamed, found, hfound⟩
          split at hnamed
          · cases hnamed
          next hother =>
            rw [if_neg hother] at hfound
            split at hfound
            next heq =>
              subst heq
              exact absurd (Option.some.inj (hnamed.symm.trans hid)) hid'
            next => exact ⟨hnamed, found, hfound⟩
    · dsimp only at hfound ⊢
      rw [Table.find?_insert, Table.find?_erase] at hfound
      rw [Table.find?_erase]
      split at hfound
      next heq =>
        cases hfound
        subst heq
        exact ⟨hkey, ⟨payload, hpayload⟩, id, (if_neg hne.symm).trans hid⟩
      next =>
        split at hfound
        · cases hfound
        next hother =>
          rw [if_neg hother]
          exact h.owned key' found hfound
    · dsimp only at hfind ⊢
      rw [Table.find?_erase] at hfind
      split at hfind
      · cases hfind
      next hthis =>
        obtain ⟨hflight, hnamed, hnone⟩ := h.flying key' index hfind
        have hother : key' ≠ priorKey := by
          rintro rfl
          rw [hprior] at hnone
          cases hnone
        rw [Table.find?_erase, if_neg hother, Table.find?_insert, if_neg hthis, Table.find?_erase,
          if_neg hother]
        exact ⟨hflight, hnamed, hnone⟩

/-! ## The walk -/

/-- An artifact is the active one of its key, or its payload is held to be retired. -/
def Held (fence : Nat) (s : PipelineService) (artifact : PipelineArtifact) : Prop :=
  s.active.find? artifact.key = some artifact
    ∨ ∀ payload, artifact.payload = some payload → (fence, payload) ∈ s.retired

/-- Only what retires at the fence joins what is retired. -/
def RetiresAt (fence : Nat) (s s' : PipelineService) : Prop :=
  ∃ extra, s'.retired = s.retired ++ extra ∧ ∀ entry ∈ extra, entry.1 = fence

theorem Publishes.retiresAt (h : Publishes fence s key s') : RetiresAt fence s s' := by
  cases h with
  | waiting | failed | first => exact ⟨[], (List.append_nil _).symm, nofun⟩
  | displacing => exact ⟨[_], rfl, fun entry hmem => List.mem_singleton.mp hmem ▸ rfl⟩

theorem RetiresAt.trans {s'' : PipelineService} (h : RetiresAt fence s s')
    (h' : RetiresAt fence s' s'') : RetiresAt fence s s'' := by
  obtain ⟨extra, heq, hfence⟩ := h
  obtain ⟨extra', heq', hfence'⟩ := h'
  refine ⟨extra ++ extra', by rw [heq', heq, List.append_assoc], fun entry hmem => ?_⟩
  exact (List.mem_append.mp hmem).elim (hfence entry) (hfence' entry)

theorem Publishes.held (h : Publishes fence s key s') (htables : Tables s)
    {artifact : PipelineArtifact} (hheld : Held fence s artifact) : Held fence s' artifact := by
  obtain hactive | hretired := hheld
  · cases h with
    | waiting | failed => exact .inl hactive
    | first hready =>
      obtain ⟨-, hinactive⟩ := htables.ready_key hready
      refine .inl ((Table.find?_insert _ _ _ _).trans ((if_neg ?_).trans hactive))
      intro heq
      rw [heq, hinactive] at hactive
      cases hactive
    | @displacing _ prior _ _ priorPayload priorKey hready _ _ _ _ hprior hpriorPayload =>
      obtain ⟨-, hinactive⟩ := htables.ready_key hready
      have hthis : artifact.key ≠ key := by
        intro heq
        rw [heq, hinactive] at hactive
        cases hactive
      by_cases heq : artifact.key = priorKey
      · -- displaced here
        refine .inr fun payload hpayload => List.mem_append_right _ (List.mem_singleton.mpr ?_)
        rw [heq, hprior] at hactive
        cases hactive
        cases hpayload.symm.trans hpriorPayload
        rfl
      · refine .inl ((Table.find?_insert _ _ _ _).trans ((if_neg hthis).trans ?_))
        exact (Table.find?_erase _ _ _).trans ((if_neg heq).trans hactive)
  · obtain ⟨extra, heq, -⟩ := h.retiresAt
    exact .inr fun payload hpayload => heq ▸ List.mem_append_left _ (hretired payload hpayload)

/-- What is ready at a key is published there. -/
theorem Publishes.published (h : Publishes fence s key s') (htables : Tables s)
    {artifact : PipelineArtifact} (hready : s.readyArtifact key = some artifact)
    (hpayload : artifact.payload ≠ none) : Held fence s' artifact := by
  have hkey := (htables.ready_key hready).1
  cases h with
  | waiting hnone =>
    rw [hnone] at hready
    cases hready
  | failed hready' _ hfailed =>
    cases hready.symm.trans hready'
    exact absurd hfailed hpayload
  | first hready' =>
    cases hready.symm.trans hready'
    exact .inl ((Table.find?_insert _ _ _ _).trans (if_pos hkey))
  | displacing hready' =>
    cases hready.symm.trans hready'
    exact .inl ((Table.find?_insert _ _ _ _).trans (if_pos hkey))

/-- The other keys in flight are as ready as they were. -/
theorem Publishes.readyArtifact (h : Publishes fence s key s') {other : UInt64}
    (hne : other ≠ key) : s'.readyArtifact other = s.readyArtifact other := by
  cases h with
  | waiting => rfl
  | failed | first | displacing =>
    unfold PipelineService.readyArtifact
    dsimp only
    rw [Table.find?_erase, if_neg hne]

theorem publishReady_spec (order : List UInt64) : ∀ s : PipelineService, Tables s → order.Nodup →
    Tables (s.publishReady fence order)
      ∧ RetiresAt fence s (s.publishReady fence order)
      ∧ (∀ artifact, Held fence s artifact → Held fence (s.publishReady fence order) artifact)
      ∧ ∀ key ∈ order, ∀ artifact, s.readyArtifact key = some artifact → artifact.payload ≠ none →
        Held fence (s.publishReady fence order) artifact := by
  induction order with
  | nil =>
    exact fun s htables _ => ⟨htables, ⟨[], (List.append_nil _).symm, nofun⟩, fun _ => id, nofun⟩
  | cons key order ih =>
    intro s htables hnodup
    obtain ⟨hnot, hnodup⟩ := List.nodup_cons.mp hnodup
    have hstep := publishKey_publishes htables fence key
    obtain ⟨htables', hretires, hheld, hready⟩ := ih _ (htables.publishes hstep) hnodup
    refine ⟨htables', hstep.retiresAt.trans hretires,
      fun artifact h => hheld artifact (hstep.held htables h), fun other hmem artifact h hpayload => ?_⟩
    obtain rfl | hmem := List.mem_cons.mp hmem
    · exact hheld artifact (hstep.published htables h hpayload)
    · have hne : other ≠ key := fun heq => hnot (heq ▸ hmem)
      exact hready other hmem artifact ((hstep.readyArtifact hne).trans h) hpayload

/-! ## The other calls -/

theorem Tables.request (h : Tables s) (recipe : PipelineRecipe) : Tables (s.request recipe).2 := by
  unfold PipelineService.request
  dsimp only
  cases hactive : s.active.find? (buildKey recipe) with
  | some artifact => exact h
  | none =>
    dsimp only
    cases hflight : (s.inFlight.find? (buildKey recipe)).bind (s.flights[·]?) with
    | some flight => exact h
    | none =>
      have hne {key' : UInt64} {found : PipelineArtifact}
          (hfound : s.active.find? key' = some found) : key' ≠ buildKey recipe := by
        rintro rfl
        rw [hactive] at hfound
        cases hfound
      refine ⟨fun id key' => ?_, fun key' found hfound => ?_, fun key' index hfind => ?_,
        fun flight hmem artifact hresult => ?_⟩
      · dsimp only
        rw [h.active id key', Table.find?_insert]
        constructor
        · rintro ⟨hid, found, hfound⟩
          rw [if_neg (hne hfound)]
          exact ⟨hid, found, hfound⟩
        · rintro ⟨hid, found, hfound⟩
          rw [if_neg (hne hfound)] at hid
          exact ⟨hid, found, hfound⟩
      · obtain ⟨hkey, hsome, hnamed⟩ := h.owned key' found hfound
        dsimp only
        rw [Table.find?_insert, if_neg (hne hfound)]
        exact ⟨hkey, hsome, hnamed⟩
      · dsimp only at hfind ⊢
        rw [Table.find?_insert] at hfind ⊢
        split at hfind
        next heq =>
          cases hfind
          rw [if_pos heq]
          refine ⟨⟨_, List.getElem?_concat_length, heq.symm⟩, ⟨_, rfl⟩, ?_⟩
          rw [heq, hactive]
        next hother =>
          obtain ⟨⟨flight, hget, hkey⟩, hnamed, hnone⟩ := h.flying key' index hfind
          rw [if_neg hother]
          refine ⟨⟨flight, ?_, hkey⟩, hnamed, hnone⟩
          rw [List.getElem?_append_left (List.getElem?_eq_some_iff.mp hget).1]
          exact hget
      · obtain hold | hnew := List.mem_append.mp hmem
        · exact h.results flight hold artifact hresult
        · rw [List.mem_singleton.mp hnew] at hresult
          cases hresult

theorem Tables.complete (h : Tables s) {index : Nat} {build : PipelineBuild}
    (hstep : s.complete index build = some s') : Tables s' := by
  unfold PipelineService.complete at hstep
  split at hstep
  · cases hstep
  next flight hget =>
    split at hstep
    · cases hstep
    · cases hstep
      refine ⟨h.active, h.owned, fun key' index' hfind => ?_, fun flight' hmem artifact hresult => ?_⟩
      · obtain ⟨⟨flight', hget', hkey⟩, hrest⟩ := h.flying key' index' hfind
        refine ⟨?_, hrest⟩
        by_cases heq : index' = index
        · subst heq
          cases hget.symm.trans hget'
          exact ⟨_, List.getElem?_set_self (List.getElem?_eq_some_iff.mp hget).1, hkey⟩
        · exact ⟨flight', (List.getElem?_set_ne (Ne.symm heq)).trans hget', hkey⟩
      · obtain hold | rfl := List.mem_or_eq_of_mem_set hmem
        · exact h.results flight' hold artifact hresult
        · cases hresult
          unfold Flight.artifact
          cases build <;> rfl

/-- The service after a `complete` has the tables it had. -/
theorem complete_tables {index : Nat} {build : PipelineBuild}
    (hstep : s.complete index build = some s') :
    s'.active = s.active ∧ s'.retired = s.retired := by
  unfold PipelineService.complete at hstep
  split at hstep
  · cases hstep
  · split at hstep <;> cases hstep
    exact ⟨rfl, rfl⟩

theorem request_tables (s : PipelineService) (recipe : PipelineRecipe) :
    (s.request recipe).2.active = s.active ∧ (s.request recipe).2.retired = s.retired := by
  unfold PipelineService.request
  dsimp only
  split
  · exact ⟨rfl, rfl⟩
  · split <;> exact ⟨rfl, rfl⟩

end PipelineService

/-! ## Runs -/

namespace PipelineRun

open PipelineService

variable {r r' : PipelineRun}

/-- A published payload is the active one of its key, or held with the fence it was displaced at
until a `Retire` has passed that. -/
structure Custody (s : PipelineService) (entry : Published) : Prop where
  active : entry.displacedAt = none → s.active.find? entry.artifact.key = some entry.artifact
  retired : ∀ fence payload, entry.displacedAt = some fence →
    entry.artifact.payload = some payload → entry.passed = true ∨ (fence, payload) ∈ s.retired

structure Inv (r : PipelineRun) : Prop where
  tables : Tables r.service
  custody : ∀ entry ∈ r.published, Custody r.service entry

theorem inv_start : Inv {} where
  tables :=
    { active := fun _ _ => ⟨nofun, fun h => by cases h.1⟩
      owned := fun _ _ => nofun
      flying := fun _ _ => nofun
      results := fun _ hmem => absurd hmem List.not_mem_nil }
  custody _ hmem := absurd hmem List.not_mem_nil

theorem Custody.same {s s' : PipelineService} {entry : Published} (h : Custody s entry)
    (hactive : s'.active = s.active) (hretired : s'.retired = s.retired) : Custody s' entry :=
  ⟨hactive ▸ h.active, hretired ▸ h.retired⟩

/-- After the walk an entry that is held is marked as displaced just when it is. -/
theorem Custody.after {s s' : PipelineService} {fence : Nat} {entry : Published}
    (hheld : entry.displacedAt = none → Held fence s' entry.artifact)
    (hold : ∀ at' payload, entry.displacedAt = some at' → entry.artifact.payload = some payload →
      entry.passed = true ∨ (at', payload) ∈ s.retired)
    (hretires : RetiresAt fence s s') : Custody s' (Published.after s' fence entry) := by
  obtain ⟨extra, heq, -⟩ := hretires
  unfold Published.after
  split
  next hgone =>
    refine ⟨nofun, fun fence' payload hfence hpayload => .inr ?_⟩
    cases hfence
    obtain hactive | hretired := hheld hgone.1
    · have hisActive : isActive s' entry.artifact = true := by
        unfold isActive
        rw [hactive]
        exact beq_self_eq_true _
      rw [hisActive] at hgone
      cases hgone.2
    · exact hretired payload hpayload
  next hstays =>
    refine ⟨fun hnone => ?_, fun at' payload hat hpayload => ?_⟩
    · have hactive : isActive s' entry.artifact = true := by
        by_contra hno
        exact hstays ⟨hnone, Bool.eq_false_iff.mpr hno⟩
      exact beq_iff_eq.mp hactive
    · exact (hold at' payload hat hpayload).imp id fun hmem => heq ▸ List.mem_append_left _ hmem

theorem mem_dropWhile {α : Type} {p : α → Bool} {x : α} {l : List α} (hmem : x ∈ l)
    (hp : p x = false) : x ∈ l.dropWhile p := by
  rw [← List.takeWhile_append_dropWhile (p := p) (l := l)] at hmem
  obtain htaken | hdropped := List.mem_append.mp hmem
  · rw [List.mem_takeWhile_imp htaken] at hp
    cases hp
  · exact hdropped

theorem Custody.passing {s : PipelineService} {entry : Published} (h : Custody s entry)
    (completed : Nat) : Custody (s.retire completed) (Published.passing completed entry) := by
  refine ⟨h.active, fun fence payload hfence hpayload => ?_⟩
  by_cases hpassed : fence ≤ completed
  · refine .inl ?_
    unfold Published.passing
    change entry.displacedAt = some fence at hfence
    dsimp only
    rw [hfence]
    simp [hpassed]
  · obtain hold | hmem := h.retired fence payload hfence hpayload
    · refine .inl ?_
      unfold Published.passing
      dsimp only
      rw [hold, Bool.true_or]
    · exact .inr (mem_dropWhile hmem (decide_eq_false hpassed))

theorem inv_step {a : PipelineAction} (h : Inv r) (hstep : step r a = some r') : Inv r' := by
  cases a with
  | request recipe =>
    cases hstep
    obtain ⟨hactive, hretired⟩ := request_tables r.service recipe
    exact ⟨h.tables.request recipe, fun entry hmem => (h.custody entry hmem).same hactive hretired⟩
  | complete flight build =>
    obtain ⟨service, hcomplete, rfl⟩ := Option.map_eq_some_iff.mp hstep
    obtain ⟨hactive, hretired⟩ := complete_tables hcomplete
    exact ⟨h.tables.complete hcomplete,
      fun entry hmem => (h.custody entry hmem).same hactive hretired⟩
  | publishReady fence order =>
    simp only [step] at hstep
    split at hstep
    next hperm =>
      cases hstep
      have hnodup : order.Nodup := hperm.nodup_iff.mpr r.service.inFlight.nodup_keys
      obtain ⟨htables, hretires, hheld, hready⟩ := publishReady_spec order r.service h.tables hnodup
      refine ⟨htables, fun entry hmem => ?_⟩
      obtain ⟨before, hbefore, rfl⟩ := List.mem_map.mp hmem
      obtain hold | hnew := List.mem_append.mp hbefore
      · have hcustody := h.custody before hold
        exact .after (fun hnone => hheld _ (.inl (hcustody.active hnone))) hcustody.retired hretires
      · obtain ⟨artifact, hartifact, rfl⟩ := List.mem_map.mp hnew
        obtain ⟨hfound, hpayload⟩ := List.mem_filter.mp hartifact
        obtain ⟨key, hkey, hreadyKey⟩ := List.mem_filterMap.mp hfound
        refine .after (fun _ => hready key hkey artifact hreadyKey ?_) nofun hretires
        intro hnone
        rw [hnone] at hpayload
        cases hpayload
    · cases hstep
  | retire completed =>
    cases hstep
    refine ⟨⟨h.tables.active, h.tables.owned, h.tables.flying, h.tables.results⟩,
      fun entry hmem => ?_⟩
    obtain ⟨before, hbefore, rfl⟩ := List.mem_map.mp hmem
    exact (h.custody before hbefore).passing completed

theorem inv_reachable (h : Run.Reachable step {} r) : Inv r :=
  Run.Within.invariant (I := Inv) inv_start (fun _ hI _ hstep => inv_step hI hstep) h

/-- **One active pipeline per id.** In every run, whatever the order in which builds end and
`PublishReady` walks them, an id's active key is the one key of that id with an active pipeline, and
no key is active and in flight at once. -/
theorem one_active_per_id (h : Run.Reachable step {} r) :
    Tables r.service
      ∧ ∀ id key key' artifact artifact',
        r.service.idsByKey.find? key = some id → r.service.active.find? key = some artifact →
        r.service.idsByKey.find? key' = some id → r.service.active.find? key' = some artifact' →
        key = key' := by
  have htables := (inv_reachable h).tables
  refine ⟨htables, fun id key key' artifact artifact' hid hactive hid' hactive' => ?_⟩
  have hkey := (htables.active id key).mpr ⟨hid, artifact, hactive⟩
  have hkey' := (htables.active id key').mpr ⟨hid', artifact', hactive'⟩
  exact Option.some.inj (hkey.symm.trans hkey')

/-- Two keys of one id, built and published one after the other. -/
def displacingTrace : List PipelineAction :=
  [.request { id := "p" }, .complete 0 (.payload 7),
    .publishReady 1 [buildKey { id := "p" }],
    .request { id := "p", shaderKey := 1 }, .complete 1 (.payload 8),
    .publishReady 2 [buildKey { id := "p", shaderKey := 1 }]]

/-- The second pipeline is the one active pipeline of its id. -/
theorem one_active_per_id_displacing :
    ∃ r, Run.Reachable step {} r ∧ r.service.idsByKey.find? (buildKey { id := "p" }) = none
      ∧ r.service.activeKeyById.find? "p" = some (buildKey { id := "p", shaderKey := 1 }) := by
  have h : (Run.exec step {} displacingTrace).any (fun r =>
      decide (r.service.idsByKey.find? (buildKey { id := "p" }) = none)
        && decide (r.service.idsByKey.find? (buildKey { id := "p", shaderKey := 1 }) = some "p")
        && (r.service.active.find? (buildKey { id := "p", shaderKey := 1 })).isSome) = true := by
    decide +kernel
  obtain ⟨r, hrun, hr⟩ := (Option.any_eq_true _ _).mp h
  simp only [Bool.and_eq_true, decide_eq_true_eq] at hr
  obtain ⟨⟨hgone, hid⟩, hactive⟩ := hr
  obtain ⟨artifact, hfind⟩ := Option.isSome_iff_exists.mp hactive
  have hreachable : Run.Reachable step {} r := Run.exec_reachable hrun
  exact ⟨r, hreachable, hgone,
    ((one_active_per_id hreachable).1.active _ _).mpr ⟨hid, artifact, hfind⟩⟩

/-! ## What retires -/

/-- The displaced payloads stand in the order of their fences. -/
structure Fenced (r : PipelineRun) : Prop where
  sorted : r.service.retired.Pairwise fun a b => a.1 ≤ b.1
  below : ∀ entry ∈ r.service.retired, entry.1 ≤ r.fence

theorem Fenced.same (h : Fenced r) (hretired : r'.service.retired = r.service.retired)
    (hfence : r'.fence = r.fence) : Fenced r' :=
  ⟨hretired ▸ h.sorted, fun entry hmem => hfence ▸ h.below entry (hretired ▸ hmem)⟩

theorem fenced_step {a : PipelineAction} (h : Fenced r) (hinv : Inv r) (hassumed : Assumed r a)
    (hstep : step r a = some r') : Fenced r' := by
  cases a with
  | request recipe =>
    cases hstep
    exact h.same (request_tables r.service recipe).2 rfl
  | complete flight build =>
    obtain ⟨service, hcomplete, rfl⟩ := Option.map_eq_some_iff.mp hstep
    exact h.same (complete_tables hcomplete).2 rfl
  | publishReady fence order =>
    simp only [step] at hstep
    split at hstep
    next hperm =>
      cases hstep
      have hnodup : order.Nodup := hperm.nodup_iff.mpr r.service.inFlight.nodup_keys
      obtain ⟨-, ⟨extra, heq, hfence⟩, -⟩ := publishReady_spec order r.service hinv.tables hnodup
      have hle : r.fence ≤ fence := hassumed
      refine ⟨?_, fun entry hmem => ?_⟩
      · dsimp only
        rw [heq]
        refine List.pairwise_append.mpr ⟨h.sorted, ?_, fun old hold new hnew => ?_⟩
        · refine List.pairwise_of_forall_mem_list fun a ha b hb => ?_
          rw [hfence a ha, hfence b hb]
        · rw [hfence new hnew]
          exact (h.below old hold).trans hle
      · dsimp only at hmem ⊢
        rw [heq] at hmem
        obtain hold | hnew := List.mem_append.mp hmem
        · exact (h.below entry hold).trans hle
        · exact (hfence entry hnew).le
    · cases hstep
  | retire completed =>
    cases hstep
    have hsub : (r.service.retire completed).retired.Sublist r.service.retired :=
      List.dropWhile_sublist _
    exact ⟨h.sorted.sublist hsub, fun entry hmem => h.below entry (hsub.mem hmem)⟩

/-- Going down a sorted list, what is left is past the point. -/
theorem past_of_sorted {l : List (Nat × PipelinePayload)} (hsorted : l.Pairwise fun a b => a.1 ≤ b.1)
    (completed : Nat) :
    ∀ entry ∈ l.dropWhile fun entry => decide (entry.1 ≤ completed), completed < entry.1 := by
  induction l with
  | nil => exact fun _ hmem => absurd hmem List.not_mem_nil
  | cons first l ih =>
    obtain ⟨hfirst, hrest⟩ := List.pairwise_cons.mp hsorted
    intro entry hmem
    rw [List.dropWhile_cons] at hmem
    split at hmem
    · exact ih hrest entry hmem
    next hstays =>
      have hlt : completed < first.1 := by simpa using hstays
      obtain rfl | hlater := List.mem_cons.mp hmem
      · exact hlt
      · exact hlt.trans_le (hfirst entry hlater)

instance (r : PipelineRun) : (a : PipelineAction) → Decidable (Assumed r a)
  | .request recipe => inferInstanceAs (Decidable (∀ request ∈ r.requests,
      buildKey request.1 = buildKey recipe → request.1 = recipe))
  | .publishReady fence _ => inferInstanceAs (Decidable (r.fence ≤ fence))
  | .complete _ _ | .retire _ => .isTrue trivial

end PipelineRun

end ModuleServices
