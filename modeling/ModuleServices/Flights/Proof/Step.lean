import ModuleServices.Flights.Flight

/-!
# What a step of the flights does

One constructor a critical section or callback, with what it needs and how the state is after it.
-/

namespace ModuleServices.Flights.Proof

variable {κ α : Type} [DecidableEq κ] {s s' : World κ α} {i f : Nat}

/-- The steps of the requesters, the tasks and the completions, with what each one needs. -/
inductive Goes (s : World κ α) : World κ α → Prop where
  | hand {i : Nat} {r : Requester κ α} {artifact : α} : s.requesters[i]? = some r →
      r.phase = .hit artifact → r.callback = true →
      Goes s ((s.setPhase i r (.returned none)).call i (some artifact))
  | drop {i : Nat} {r : Requester κ α} {artifact : α} : s.requesters[i]? = some r →
      r.phase = .hit artifact → r.callback = false → Goes s (s.setPhase i r (.returned none))
  | pass {i f : Nat} {r : Requester κ α} : s.requesters[i]? = some r → r.phase = .attaching f →
      r.callback = false → Goes s (s.setPhase i r (.attached f))
  | attach {i f : Nat} {r : Requester κ α} {record : FlightRecord κ α} :
      s.requesters[i]? = some r → r.phase = .attaching f → r.callback = true →
      s.flights[f]? = some record → record.flight.done = false →
      Goes s ((s.setFlight f { record with flight := { record.flight with
        callbacks := record.flight.callbacks ++ [i] } }).setPhase i r (.attached f))
  | late {i f : Nat} {r : Requester κ α} {record : FlightRecord κ α} :
      s.requesters[i]? = some r → r.phase = .attaching f → r.callback = true →
      s.flights[f]? = some record → record.flight.done = true →
      Goes s (s.setPhase i r (.calling f))
  | call {i f : Nat} {r : Requester κ α} {record : FlightRecord κ α} :
      s.requesters[i]? = some r → r.phase = .calling f → s.flights[f]? = some record →
      Goes s ((s.setPhase i r (.attached f)).call i record.flight.result)
  | depart {i f : Nat} {r : Requester κ α} {record : FlightRecord κ α} :
      s.requesters[i]? = some r → r.phase = .attached f → s.flights[f]? = some record →
      record.owner ≠ i → Goes s (s.setPhase i r (.returned (some f)))
  | launch {i f : Nat} {r : Requester κ α} {record : FlightRecord κ α} (submission : Submission) :
      s.requesters[i]? = some r → r.phase = .attached f → s.flights[f]? = some record →
      record.owner = i →
      Goes s { (s.setPhase i r (.returned (some f))).setFlight f { record with
          work := if launchServiceTask submission then .queued
            else s.begins (.complete (s.refused record.key)) } with
        launched := s.launched ++ [f] }
  | run {f : Nat} {record : FlightRecord κ α} (outcome : Outcome α) (cached : Table κ α) :
      s.flights[f]? = some record → record.work = .queued →
      Goes s { s.setFlight f { record with work := s.begins outcome } with cached }
  | leave {f : Nat} {record : FlightRecord κ α} {outcome : Outcome α} :
      s.flights[f]? = some record → record.work = .leaving outcome →
      Goes s { s.setFlight f { record with work := .resolving outcome } with
        table := if s.table.find? record.key = some f then s.table.erase record.key else s.table }
  | resolve {f : Nat} {record : FlightRecord κ α} {outcome : Outcome α} :
      s.flights[f]? = some record → record.work = .resolving outcome →
      Goes s (s.setFlight f { record with
        flight := record.flight.resolve outcome, work := .finishing })
  | finish {f : Nat} {record : FlightRecord κ α} :
      s.flights[f]? = some record → record.work = .finishing →
      Goes s (s.setFlight f { record with
        flight := { record.flight with done := true, callbacks := [] }
        work := .delivering record.flight.callbacks })
  | deliver {f i : Nat} {callbacks : List Nat} {record : FlightRecord κ α} :
      s.flights[f]? = some record → record.work = .delivering (i :: callbacks) →
      Goes s ((s.setFlight f { record with work := .delivering callbacks }).call i
        record.flight.result)
  | finished {f : Nat} {record : FlightRecord κ α} :
      s.flights[f]? = some record → record.work = .delivering [] →
      Goes s (s.setFlight f { record with work := .finished })

/-- All steps. -/
inductive Does (s : World κ α) : World κ α → Prop where
  | hit {key : κ} {callback : Bool} {artifact : α} : s.cached.find? key = some artifact →
      Does s (s.enter key callback (.hit (s.reuse artifact)))
  | join {key : κ} {callback : Bool} {f : Nat} : s.table.find? key = some f →
      Does s (s.enter key callback (.attaching f))
  | opens {key : κ} {callback : Bool} : s.table.find? key = none →
      Does s { s.enter key callback (.attaching s.flights.length) with
        flights := s.flights ++ [{ key, owner := s.requesters.length }]
        table := s.table.insert key s.flights.length }
  | clear (cached : Table κ α) : Does s { s with cached }
  | publish {table : Table κ Nat} (cached : Table κ α) : s.service = .pipelineService →
      (∀ key f, table.find? key = some f → s.table.find? key = some f) →
      (∀ key f, s.table.find? key = some f → table.find? key = none →
        ∃ record, s.flights[f]? = some record ∧ record.flight.future.isSome) →
      Does s { s with table, cached }
  | goes {s' : World κ α} : Goes s s' → Does s s'

theorem publish_flights (s : World κ α) (key : κ) : (s.publish key).flights = s.flights := by
  unfold World.publish
  split <;> rfl

/-- What `PublishReady` takes out of the table is ready. -/
structure Publishes (s s' : World κ α) : Prop where
  same : s' = { s with table := s'.table, cached := s'.cached }
  kept : ∀ key f, s'.table.find? key = some f → s.table.find? key = some f
  gone : ∀ key f, s.table.find? key = some f → s'.table.find? key = none →
    ∃ record, s.flights[f]? = some record ∧ record.flight.future.isSome

theorem Publishes.refl (s : World κ α) : Publishes s s :=
  ⟨rfl, fun _ _ h => h, fun _ _ h hnone => by
    rw [h] at hnone
    cases hnone⟩

theorem Publishes.trans {t : World κ α} (h : Publishes s t) (h' : Publishes t s') :
    Publishes s s' where
  same := by
    rw [h'.same, h.same]
  kept key f hf := h.kept key f (h'.kept key f hf)
  gone key f hf hnone := by
    cases ht : t.table.find? key with
    | none => exact h.gone key f hf ht
    | some g =>
      have hg : g = f := by
        have := h.kept key g ht
        rw [hf] at this
        exact (Option.some.inj this).symm
      subst hg
      obtain ⟨record, hrecord, hready⟩ := h'.gone key g ht hnone
      rw [h.same] at hrecord
      exact ⟨record, hrecord, hready⟩

theorem publish_publishes (s : World κ α) (key : κ) : Publishes s (s.publish key) := by
  unfold World.publish
  cases hready : s.readyUnder key with
  | none => exact .refl s
  | some value =>
    obtain ⟨f, hf, hfuture⟩ := Option.bind_eq_some_iff.mp hready
    obtain ⟨record, hrecord, hfuture⟩ := Option.bind_eq_some_iff.mp hfuture
    refine ⟨rfl, fun key' g hg => ?_, fun key' g hg hnone => ?_⟩
    · rw [Table.find?_erase] at hg
      split at hg
      · cases hg
      · exact hg
    · rw [Table.find?_erase] at hnone
      split at hnone
      next hkey =>
        subst hkey
        rw [hf] at hg
        cases hg
        exact ⟨record, hrecord, by rw [hfuture]; rfl⟩
      next => rw [hg] at hnone; cases hnone

theorem publishReady_publishes (s : World κ α) (displaced : List κ) :
    Publishes s (s.publishReady displaced) := by
  have hfold (keys : List κ) : ∀ t : World κ α, Publishes t (keys.foldl World.publish t) := by
    induction keys with
    | nil => exact .refl
    | cons key keys ih => exact fun t => (publish_publishes t key).trans (ih _)
  obtain ⟨hsame, hkept, hgone⟩ := hfold s.table.keys s
  unfold World.publishReady
  refine ⟨?_, hkept, hgone⟩
  rw [hsame]

theorem request_does (s : World κ α) (key : κ) (callback : Bool) :
    Does s (s.request key callback) := by
  unfold World.request
  split
  · exact .hit ‹_›
  · split
    · exact .join ‹_›
    · exact .opens ‹_›

theorem advance_goes {submission : Submission} (h : s.advance i submission = some s') :
    Goes s s' := by
  obtain ⟨r, hr, h⟩ := Option.bind_eq_some_iff.mp h
  cases hphase : r.phase with
  | hit artifact =>
    simp only [hphase, Option.some.injEq] at h
    subst h
    cases hcallback : r.callback with
    | true => exact .hand hr hphase hcallback
    | false => exact .drop hr hphase hcallback
  | attaching f =>
    simp only [hphase] at h
    cases hcallback : r.callback with
    | true =>
      simp only [hcallback, if_true] at h
      obtain ⟨record, hrecord, rfl⟩ := Option.map_eq_some_iff.mp h
      cases hdone : record.flight.done with
      | true =>
        have hattach : record.flight.attach i = (record.flight, true) := if_pos hdone
        rw [hattach]
        exact .late hr hphase hcallback hrecord hdone
      | false =>
        have hattach : record.flight.attach i = ({ record.flight with
            callbacks := record.flight.callbacks ++ [i] }, false) := if_neg (by simp [hdone])
        rw [hattach]
        exact .attach hr hphase hcallback hrecord hdone
    | false =>
      simp only [hcallback, Bool.false_eq_true, if_false, Option.some.injEq] at h
      subst h
      exact .pass hr hphase hcallback
  | calling f =>
    simp only [hphase] at h
    obtain ⟨record, hrecord, rfl⟩ := Option.map_eq_some_iff.mp h
    exact .call hr hphase hrecord
  | attached f =>
    simp only [hphase] at h
    obtain ⟨record, hrecord, rfl⟩ := Option.map_eq_some_iff.mp h
    by_cases howner : record.owner = i
    · rw [if_pos howner]
      exact .launch submission hr hphase hrecord howner
    · rw [if_neg howner]
      exact .depart hr hphase hrecord howner
  | returned f =>
    simp only [hphase] at h
    cases h

theorem runTask_goes {outcome : Outcome α} {stored : Bool}
    (h : s.runTask f outcome stored = some s') : Goes s s' := by
  obtain ⟨record, hrecord, h⟩ := Option.bind_eq_some_iff.mp h
  cases hwork : record.work with
  | queued =>
    simp only [hwork] at h
    split at h
    · cases h
      cases stored with
      | true =>
        cases outcome with
        | complete value =>
          exact .run (.complete value) (s.cached.insert record.key value) hrecord hwork
        | fail error delivered => exact .run (.fail error delivered) s.cached hrecord hwork
      | false => exact .run outcome s.cached hrecord hwork
    · cases h
  | _ =>
    simp only [hwork] at h
    cases h

theorem finish_goes (h : s.finish f = some s') : Goes s s' := by
  obtain ⟨record, hrecord, h⟩ := Option.bind_eq_some_iff.mp h
  cases hwork : record.work with
  | leaving outcome =>
    simp only [hwork, Option.some.injEq] at h
    subst h
    have hleave := Goes.leave hrecord hwork
    by_cases hfind : s.table.find? record.key = some f
    · rw [if_pos hfind] at hleave ⊢
      exact hleave
    · rw [if_neg hfind] at hleave ⊢
      exact hleave
  | resolving outcome =>
    simp only [hwork, Option.some.injEq] at h
    subst h
    exact .resolve hrecord hwork
  | finishing =>
    simp only [hwork, Option.some.injEq] at h
    subst h
    exact .finish hrecord hwork
  | delivering callbacks =>
    cases callbacks with
    | nil =>
      simp only [hwork, Option.some.injEq] at h
      subst h
      exact .finished hrecord hwork
    | cons i callbacks =>
      simp only [hwork, Option.some.injEq] at h
      subst h
      exact .deliver hrecord hwork
  | _ =>
    simp only [hwork] at h
    cases h

theorem step_does {a : Action κ α} (h : step s a = some s') : Does s s' := by
  cases a with
  | request key callback =>
    cases h
    exact request_does s key callback
  | advance i submission => exact .goes (advance_goes h)
  | runTask f outcome stored => exact .goes (runTask_goes h)
  | finish f => exact .goes (finish_goes h)
  | clearMemoryCache =>
    simp only [step] at h
    split at h
    · cases h
      exact Does.clear (s := s) ∅
    · cases h
  | publishReady displaced =>
    simp only [step] at h
    split at h
    · cases h
    · cases h
      obtain ⟨hsame, hkept, hgone⟩ := publishReady_publishes s displaced
      rw [hsame]
      exact .publish _ ‹_› hkept hgone

end ModuleServices.Flights.Proof
