import ModuleServices.Flights.Proof.Step

/-!
# Flights, their requesters and the table

Who waits for which flight (`Linked`), whose it is to submit its task (`Owned`), how far its work
shows in its parts (`Sound`) and which flights the table holds (`Tabled`), over every step.
-/

namespace ModuleServices.Flights.Proof

variable {κ α : Type} {s s' : World κ α} {i f : Nat} {r : Requester κ α}
  {record record' : FlightRecord κ α} {requesters : List (Requester κ α)}
  {flights : List (FlightRecord κ α)}

/-! ## Lookups -/

theorem getElem?_set_cases {β : Type} {l : List β} {i j : Nat} {a b : β}
    (h : (l.set i a)[j]? = some b) : (i = j ∧ b = a) ∨ (i ≠ j ∧ l[j]? = some b) := by
  by_cases hij : i = j
  · subst hij
    rw [List.getElem?_set_self'] at h
    obtain ⟨_, _, hb⟩ := Option.map_eq_some_iff.mp h
    exact .inl ⟨rfl, hb.symm⟩
  · rw [List.getElem?_set_ne hij] at h
    exact .inr ⟨hij, h⟩

theorem getElem?_set_old {β : Type} {l : List β} {i : Nat} {a b : β} (h : l[i]? = some b) :
    (l.set i a)[i]? = some a := by
  rw [List.getElem?_set_self']
  rw [h]
  rfl

theorem getElem?_concat_old {β : Type} {l : List β} {i : Nat} {a b : β} (h : l[i]? = some b) :
    (l ++ [a])[i]? = some b := by
  rw [List.getElem?_append_left (List.getElem?_eq_some_iff.mp h).1, h]

theorem getElem?_concat_cases {β : Type} {l : List β} {i : Nat} {a b : β}
    (h : (l ++ [a])[i]? = some b) : l[i]? = some b ∨ (i = l.length ∧ b = a) := by
  by_cases hi : i < l.length
  · rw [List.getElem?_append_left hi] at h
    exact .inl h
  · rw [List.getElem?_append_right (Nat.le_of_not_lt hi)] at h
    obtain ⟨hlt, hb⟩ := List.getElem?_eq_some_iff.mp h
    rw [List.length_singleton] at hlt
    refine .inr ⟨by omega, ?_⟩
    rw [← hb]
    exact List.getElem_singleton _

/-! ## Whose flight it is -/

/-- The flight whose future a requester is given. -/
def flightOf : Phase α → Option Nat
  | .hit _ => none
  | .attaching f | .calling f | .attached f => some f
  | .returned f => f

def isReturned : Phase α → Bool
  | .returned _ => true
  | _ => false

/-- The owner returns when it has submitted its flight's task, not before. -/
def Owned (requesters : List (Requester κ α)) (flights : List (FlightRecord κ α)) : Prop :=
  ∀ (f : Nat) (record : FlightRecord κ α), flights[f]? = some record →
    ∃ r, requesters[record.owner]? = some r ∧ flightOf r.phase = some f
      ∧ (record.work = .unlaunched ↔ isReturned r.phase = false)

namespace Owned

/-- A requester moves on; if it owns a flight, it is as far from returning as before. -/
theorem move (h : Owned requesters flights) (hr : requesters[i]? = some r) {phase : Phase α}
    (hflight : flightOf phase = flightOf r.phase)
    (hreturned : ∀ f record, flights[f]? = some record → flightOf r.phase = some f →
      record.owner = i → isReturned phase = isReturned r.phase) :
    Owned (requesters.set i { r with phase }) flights := by
  intro f record hf
  obtain ⟨r', hr', hphase, hwork⟩ := h f record hf
  by_cases hi : i = record.owner
  · subst hi
    rw [hr] at hr'
    cases hr'
    refine ⟨_, getElem?_set_old hr, hflight.trans hphase, ?_⟩
    rw [hwork]
    dsimp only
    rw [hreturned f record hf hphase rfl]
  · exact ⟨r', by rw [List.getElem?_set_ne hi, hr'], hphase, hwork⟩

theorem unlaunched (h : Owned requesters flights) (hf : flights[f]? = some record)
    (hr : requesters[record.owner]? = some r) (hreturned : isReturned r.phase = false) :
    record.work = .unlaunched := by
  obtain ⟨r', hr', -, hwork⟩ := h f record hf
  rw [hr] at hr'
  cases hr'
  exact hwork.mpr hreturned

/-- A flight changes, launched or not as before. -/
theorem change (h : Owned requesters flights) (hf : flights[f]? = some record)
    (howner : record'.owner = record.owner)
    (hwork : record'.work = .unlaunched ↔ record.work = .unlaunched) :
    Owned requesters (flights.set f record') := by
  intro g record₀ hg
  obtain ⟨rfl, rfl⟩ | ⟨-, hg⟩ := getElem?_set_cases hg
  · obtain ⟨r, hr, hphase, hiff⟩ := h f record hf
    exact ⟨r, howner ▸ hr, hphase, hwork.trans hiff⟩
  · exact h g record₀ hg

theorem enter (h : Owned requesters flights) (r : Requester κ α) :
    Owned (requesters ++ [r]) flights := by
  intro f record hf
  obtain ⟨r', hr', hrest⟩ := h f record hf
  exact ⟨r', getElem?_concat_old hr', hrest⟩

/-- The requester that makes a flight owns it. -/
theorem opens (h : Owned requesters flights) (hphase : r.phase = .attaching flights.length)
    (howner : record.owner = requesters.length) (hwork : record.work = .unlaunched) :
    Owned (requesters ++ [r]) (flights ++ [record]) := by
  intro f record₀ hf
  obtain hf | ⟨rfl, rfl⟩ := getElem?_concat_cases hf
  · exact h.enter r f record₀ hf
  · refine ⟨r, ?_, ?_, ?_⟩
    · rw [howner, List.getElem?_concat_length]
    · rw [hphase]
      rfl
    · rw [hphase, hwork]
      exact ⟨fun _ => rfl, fun _ => rfl⟩

/-- The owner submits the task and returns. -/
theorem launch (h : Owned requesters flights) (hr : requesters[i]? = some r)
    (hphase : r.phase = .attached f) (hf : flights[f]? = some record) (howner : record.owner = i)
    (hkept : record'.owner = record.owner) (hwork : record'.work ≠ .unlaunched) :
    Owned (requesters.set i { r with phase := .returned (some f) }) (flights.set f record') := by
  intro g record₀ hg
  obtain ⟨rfl, rfl⟩ | ⟨hfg, hg⟩ := getElem?_set_cases hg
  · refine ⟨{ r with phase := .returned (some f) }, ?_, rfl, ?_⟩
    · rw [hkept, howner]
      exact getElem?_set_old hr
    · exact ⟨fun hno => absurd hno hwork, fun hno => by cases hno⟩
  · obtain ⟨r', hr', hphase', hiff⟩ := h g record₀ hg
    have hi : i ≠ record₀.owner := by
      intro hi
      rw [← hi, hr] at hr'
      cases hr'
      rw [hphase] at hphase'
      exact hfg (Option.some.inj hphase')
    exact ⟨r', by rw [List.getElem?_set_ne hi, hr'], hphase', hiff⟩

end Owned

theorem begins_ne_unlaunched (s : World κ α) (outcome : Outcome α) :
    s.begins outcome ≠ .unlaunched := by
  unfold World.begins
  split <;> exact nofun

theorem launched_ne_unlaunched (s : World κ α) (submission : Submission) (outcome : Outcome α) :
    (if launchServiceTask submission then .queued else s.begins outcome) ≠ .unlaunched := by
  split
  · exact nofun
  · exact begins_ne_unlaunched s outcome

/-- The callbacks a flight has yet to call. -/
def waiting (record : FlightRecord κ α) : List Nat :=
  record.flight.callbacks ++
    match record.work with
    | .delivering callbacks => callbacks
    | _ => []

/-- Nobody has set the promise. -/
def Unresolved (flight : CompletionFlight α) : Prop :=
  flight.future = none ∧ flight.failure = none ∧ flight.done = false

/-- The work is not past the promise. -/
def isBefore : Work α → Bool
  | .unlaunched | .queued | .leaving _ | .resolving _ => true
  | .finishing | .delivering _ | .finished => false

/-- How far a flight's work is shows in its parts. -/
def Sound (record : FlightRecord κ α) : Prop :=
  match record.work with
  | .unlaunched | .queued | .leaving _ | .resolving _ => Unresolved record.flight
  | .finishing =>
    record.flight.future.isSome ∧ record.flight.result.isSome ∧ record.flight.done = false
  | .delivering _ | .finished =>
    record.flight.future.isSome ∧ record.flight.result.isSome ∧ record.flight.done = true
      ∧ record.flight.callbacks = []

theorem sound_before (h : isBefore record.work = true) :
    Sound record ↔ Unresolved record.flight := by
  unfold Sound
  cases hwork : record.work with
  | unlaunched | queued | leaving | resolving => exact Iff.rfl
  | finishing | delivering | finished =>
    rw [hwork] at h
    cases h

theorem waiting_before (h : isBefore record.work = true) :
    waiting record = record.flight.callbacks := by
  unfold waiting
  cases hwork : record.work with
  | delivering =>
    rw [hwork] at h
    cases h
  | _ => exact List.append_nil _

theorem before_begins (s : World κ α) (outcome : Outcome α) :
    isBefore (s.begins outcome) = true := by
  unfold World.begins
  split <;> rfl

theorem before_launched (s : World κ α) (submission : Submission) (outcome : Outcome α) :
    isBefore (if launchServiceTask submission then .queued else s.begins outcome) = true := by
  split
  · rfl
  · exact before_begins s outcome

/-- A callback more, while the flight is not done. -/
theorem sound_attach (h : Sound record) (hdone : record.flight.done = false)
    (callbacks : List Nat) :
    Sound { record with flight := { record.flight with callbacks } } := by
  unfold Sound at h ⊢
  cases hwork : record.work with
  | delivering | finished =>
    rw [hwork] at h
    rw [hdone] at h
    cases h.2.2.1
  | _ =>
    rw [hwork] at h
    exact h

theorem result_resolve (flight : CompletionFlight α) (h : Unresolved flight)
    (outcome : Outcome α) : (flight.resolve outcome).result.isSome = true := by
  cases outcome with
  | complete value =>
    unfold CompletionFlight.resolve CompletionFlight.result
    dsimp only
    rw [h.2.1]
    rfl
  | fail error delivered => rfl

theorem future_resolve (flight : CompletionFlight α) (outcome : Outcome α) :
    (flight.resolve outcome).future.isSome = true := by
  cases outcome <;> rfl

theorem done_resolve (flight : CompletionFlight α) (outcome : Outcome α) :
    (flight.resolve outcome).done = flight.done := by
  cases outcome <;> rfl

/-- Requesters and flights know each other. -/
structure Linked (requesters : List (Requester κ α)) (flights : List (FlightRecord κ α)) :
    Prop where
  flight (i : Nat) (r : Requester κ α) (f : Nat) : requesters[i]? = some r →
    flightOf r.phase = some f → ∃ record, flights[f]? = some record ∧ record.key = r.key
  calling (i : Nat) (r : Requester κ α) (f : Nat) : requesters[i]? = some r →
    r.phase = .calling f → ∃ record, flights[f]? = some record ∧ record.flight.done = true
  waiting (f : Nat) (record : FlightRecord κ α) : flights[f]? = some record →
    ∀ i ∈ waiting record, ∃ r, requesters[i]? = some r ∧ flightOf r.phase = some f
  sound (f : Nat) (record : FlightRecord κ α) : flights[f]? = some record → Sound record

namespace Linked

/-- A requester moves on within its flight. -/
theorem move (h : Linked requesters flights) (hr : requesters[i]? = some r) {phase : Phase α}
    (hflight : flightOf phase = flightOf r.phase)
    (hcalling : ∀ f, phase = .calling f →
      ∃ record, flights[f]? = some record ∧ record.flight.done = true) :
    Linked (requesters.set i { r with phase }) flights where
  flight j r' f hj hf := by
    obtain ⟨-, rfl⟩ | ⟨-, hj⟩ := getElem?_set_cases hj
    · exact h.flight i r f hr (hflight ▸ hf)
    · exact h.flight j r' f hj hf
  calling j r' f hj hf := by
    obtain ⟨-, rfl⟩ | ⟨-, hj⟩ := getElem?_set_cases hj
    · exact hcalling f hf
    · exact h.calling j r' f hj hf
  waiting f record hf j hj := by
    obtain ⟨r', hr', hphase⟩ := h.waiting f record hf j hj
    by_cases hij : i = j
    · subst hij
      rw [hr] at hr'
      cases hr'
      exact ⟨_, getElem?_set_old hr, hflight.trans hphase⟩
    · exact ⟨r', by rw [List.getElem?_set_ne hij, hr'], hphase⟩
  sound := h.sound

/-- A flight changes within its bounds. -/
theorem change (h : Linked requesters flights) (hf : flights[f]? = some record)
    (hkey : record'.key = record.key) (hsound : Sound record')
    (hdone : record.flight.done = true → record'.flight.done = true)
    (hwaiting : ∀ i ∈ Proof.waiting record',
      i ∈ Proof.waiting record ∨ ∃ r, requesters[i]? = some r ∧ flightOf r.phase = some f) :
    Linked requesters (flights.set f record') where
  flight j r g hj hg := by
    obtain ⟨record₀, hrecord₀, hkey₀⟩ := h.flight j r g hj hg
    by_cases hfg : f = g
    · subst hfg
      rw [hf] at hrecord₀
      cases hrecord₀
      exact ⟨record', getElem?_set_old hf, hkey.trans hkey₀⟩
    · exact ⟨record₀, by rw [List.getElem?_set_ne hfg, hrecord₀], hkey₀⟩
  calling j r g hj hg := by
    obtain ⟨record₀, hrecord₀, hdone₀⟩ := h.calling j r g hj hg
    by_cases hfg : f = g
    · subst hfg
      rw [hf] at hrecord₀
      cases hrecord₀
      exact ⟨record', getElem?_set_old hf, hdone hdone₀⟩
    · exact ⟨record₀, by rw [List.getElem?_set_ne hfg, hrecord₀], hdone₀⟩
  waiting g record₀ hg j hj := by
    obtain ⟨rfl, rfl⟩ | ⟨-, hg⟩ := getElem?_set_cases hg
    · obtain hold | hnew := hwaiting j hj
      · exact h.waiting f record hf j hold
      · exact hnew
    · exact h.waiting g record₀ hg j hj
  sound g record₀ hg := by
    obtain ⟨-, rfl⟩ | ⟨-, hg⟩ := getElem?_set_cases hg
    · exact hsound
    · exact h.sound g record₀ hg

/-- A requester comes. -/
theorem enter (h : Linked requesters flights)
    (hflight : ∀ f, flightOf r.phase = some f →
      ∃ record, flights[f]? = some record ∧ record.key = r.key)
    (hcalling : ∀ f, r.phase ≠ .calling f) : Linked (requesters ++ [r]) flights where
  flight j r' f hj hf := by
    obtain hj | ⟨-, rfl⟩ := getElem?_concat_cases hj
    · exact h.flight j r' f hj hf
    · exact hflight f hf
  calling j r' f hj hf := by
    obtain hj | ⟨-, rfl⟩ := getElem?_concat_cases hj
    · exact h.calling j r' f hj hf
    · exact absurd hf (hcalling f)
  waiting f record hf j hj := by
    obtain ⟨r', hr', hphase⟩ := h.waiting f record hf j hj
    exact ⟨r', getElem?_concat_old hr', hphase⟩
  sound := h.sound

/-- A flight is made. -/
theorem opens (h : Linked requesters flights) (hsound : Sound record)
    (hwaiting : Proof.waiting record = []) : Linked requesters (flights ++ [record]) where
  flight j r f hj hf := by
    obtain ⟨record₀, hrecord₀, hkey⟩ := h.flight j r f hj hf
    exact ⟨record₀, getElem?_concat_old hrecord₀, hkey⟩
  calling j r f hj hf := by
    obtain ⟨record₀, hrecord₀, hdone⟩ := h.calling j r f hj hf
    exact ⟨record₀, getElem?_concat_old hrecord₀, hdone⟩
  waiting f record₀ hf j hj := by
    obtain hf | ⟨-, rfl⟩ := getElem?_concat_cases hf
    · exact h.waiting f record₀ hf j hj
    · rw [hwaiting] at hj
      cases hj
  sound f record₀ hf := by
    obtain hf | ⟨-, rfl⟩ := getElem?_concat_cases hf
    · exact h.sound f record₀ hf
    · exact hsound

end Linked

/-! ## Which flights the table holds -/

/-- The flight has not begun to leave the table. -/
def stays (service : Service) (record : FlightRecord κ α) : Bool :=
  match service with
  | .shaderCompiler =>
    match record.work with
    | .unlaunched | .queued | .leaving _ => true
    | .resolving _ | .finishing | .delivering _ | .finished => false
  | .pipelineService => record.flight.future.isNone

/-- Up to the beginning of its completion a flight stays. -/
theorem stays_early (s : World κ α) {work : Work α} (hfuture : record.flight.future = none)
    (hwork : work = .unlaunched ∨ work = .queued ∨ ∃ outcome, work = s.begins outcome) :
    stays s.service { record with work } = true := by
  unfold stays
  cases hservice : s.service with
  | shaderCompiler =>
    obtain rfl | rfl | ⟨outcome, rfl⟩ := hwork
    · rfl
    · rfl
    · unfold World.begins
      rw [hservice]
  | pipelineService =>
    dsimp only
    rw [hfuture]
    rfl

theorem launched_cases (s : World κ α) (submission : Submission) (outcome : Outcome α)
    {work : Work α}
    (hwork : work = if launchServiceTask submission then .queued else s.begins outcome) :
    work = .unlaunched ∨ work = .queued ∨ ∃ outcome, work = s.begins outcome := by
  subst hwork
  split
  · exact .inr (.inl rfl)
  · exact .inr (.inr ⟨outcome, rfl⟩)

/-- A pipeline's completion does not go to the table. -/
theorem never_early (s : World κ α) {work : Work α}
    (hwork : work = .unlaunched ∨ work = .queued ∨ ∃ outcome, work = s.begins outcome)
    (outcome : Outcome α) (hservice : s.service = .pipelineService) : work ≠ .leaving outcome := by
  obtain rfl | rfl | ⟨outcome, rfl⟩ := hwork
  · exact nofun
  · exact nofun
  · unfold World.begins
    rw [hservice]
    exact nofun

section
variable [DecidableEq κ] {service : Service} {table : Table κ Nat}

/-- The table holds every flight that has not begun to leave it, under the flight's key; the shader
compiler's holds no others. -/
structure Tabled (service : Service) (table : Table κ Nat) (flights : List (FlightRecord κ α)) :
    Prop where
  entry (key : κ) (f : Nat) : table.find? key = some f → ∃ record, flights[f]? = some record
    ∧ record.key = key ∧ (service = .shaderCompiler → Proof.stays service record = true)
  stays (f : Nat) (record : FlightRecord κ α) : flights[f]? = some record →
    Proof.stays service record = true → table.find? record.key = some f
  never (f : Nat) (record : FlightRecord κ α) (outcome : Outcome α) :
    service = .pipelineService → flights[f]? = some record → record.work ≠ .leaving outcome

namespace Tabled

/-- A flight changes. -/
theorem change (h : Tabled service table flights) (hf : flights[f]? = some record)
    (hkey : record'.key = record.key)
    (hstays : Proof.stays service record' = true → Proof.stays service record = true)
    (hleft : service = .shaderCompiler →
      Proof.stays service record = true → Proof.stays service record' = true)
    (hnever : ∀ outcome, service = .pipelineService → record'.work ≠ .leaving outcome) :
    Tabled service table (flights.set f record') where
  entry key g hg := by
    obtain ⟨record₀, hrecord₀, hkey₀, hstays₀⟩ := h.entry key g hg
    by_cases hfg : f = g
    · subst hfg
      rw [hf] at hrecord₀
      cases hrecord₀
      exact ⟨record', getElem?_set_old hf, hkey.trans hkey₀, fun hs => hleft hs (hstays₀ hs)⟩
    · exact ⟨record₀, by rw [List.getElem?_set_ne hfg, hrecord₀], hkey₀, hstays₀⟩
  stays g record₀ hg hs := by
    obtain ⟨rfl, rfl⟩ | ⟨-, hg⟩ := getElem?_set_cases hg
    · rw [hkey]
      exact h.stays f record hf (hstays hs)
    · exact h.stays g record₀ hg hs
  never g record₀ outcome hs hg := by
    obtain ⟨-, rfl⟩ | ⟨-, hg⟩ := getElem?_set_cases hg
    · exact hnever outcome hs
    · exact h.never g record₀ outcome hs hg

theorem opens (h : Tabled service table flights) {key : κ} (hnone : table.find? key = none)
    (owner : Nat) : Tabled service (table.insert key flights.length)
      (flights ++ [{ key, owner := owner }]) where
  entry key f hf := by
    rw [Table.find?_insert] at hf
    split at hf
    next hkey =>
      cases hf
      refine ⟨_, List.getElem?_concat_length, hkey.symm, fun hs => ?_⟩
      rw [hs]
      rfl
    next =>
      obtain ⟨record₀, hrecord₀, hrest⟩ := h.entry key f hf
      exact ⟨record₀, getElem?_concat_old hrecord₀, hrest⟩
  stays f record₀ hf hs := by
    rw [Table.find?_insert]
    obtain hf | ⟨rfl, rfl⟩ := getElem?_concat_cases hf
    · have hfind := h.stays f record₀ hf hs
      rw [if_neg fun hkey => ?_, hfind]
      rw [hkey, hnone] at hfind
      cases hfind
    · exact if_pos rfl
  never f record₀ outcome hs hf := by
    obtain hf | ⟨-, rfl⟩ := getElem?_concat_cases hf
    · exact h.never f record₀ outcome hs hf
    · intro hno
      cases hno

/-- `FinishFlight` takes its flight out. -/
theorem leave (h : Tabled service table flights) (hf : flights[f]? = some record)
    {outcome : Outcome α} (hwork : record.work = .leaving outcome) :
    Tabled service (if table.find? record.key = some f then table.erase record.key else table)
      (flights.set f { record with work := .resolving outcome }) := by
  cases hservice : service with
  | pipelineService => exact absurd hwork (h.never f record outcome hservice hf)
  | shaderCompiler =>
    subst hservice
    have hfind : table.find? record.key = some f := by
      refine h.stays f record hf ?_
      unfold Proof.stays
      rw [hwork]
    rw [if_pos hfind]
    refine ⟨fun key g hg => ?_, fun g record₀ hg hs => ?_, fun _ _ _ hs => by cases hs⟩
    · rw [Table.find?_erase] at hg
      split at hg
      · cases hg
      obtain ⟨record₀, hrecord₀, hkey₀, hstays₀⟩ := h.entry key g hg
      refine ⟨record₀, ?_, hkey₀, hstays₀⟩
      rw [List.getElem?_set_ne, hrecord₀]
      intro hfg
      subst hfg
      rw [hf] at hrecord₀
      cases hrecord₀
      exact absurd hkey₀.symm ‹_›
    · obtain ⟨-, rfl⟩ | ⟨hfg, hg⟩ := getElem?_set_cases hg
      · cases hs
      have hfind₀ := h.stays g record₀ hg hs
      rw [Table.find?_erase, if_neg fun hkey => ?_, hfind₀]
      rw [hkey, hfind] at hfind₀
      exact hfg (Option.some.inj hfind₀)

end Tabled

theorem tabled_step (howned : Owned s.requesters s.flights)
    (hlinked : Linked s.requesters s.flights) (h : Tabled s.service s.table s.flights)
    (hdoes : Does s s') : Tabled s'.service s'.table s'.flights := by
  -- The task is submitted or ends: the promise is not set, and the completion begins at the table.
  have hearly {f : Nat} {record : FlightRecord κ α} (hf : s.flights[f]? = some record)
      (hold : record.work = .unlaunched ∨ record.work = .queued) {work : Work α}
      (hnew : work = .unlaunched ∨ work = .queued ∨ ∃ outcome, work = s.begins outcome) :
      Tabled s.service s.table (s.flights.set f { record with work }) := by
    have hbefore : isBefore record.work = true := by
      obtain hwork | hwork := hold <;> rw [hwork] <;> rfl
    have hfuture := ((sound_before hbefore).mp (hlinked.sound f record hf)).1
    have hstays : stays s.service record = true :=
      stays_early s hfuture (hold.imp_right fun hwork => .inl hwork)
    exact h.change hf rfl (fun _ => hstays) (fun _ _ => stays_early s hfuture hnew)
      (never_early s hnew)
  cases hdoes with
  | hit | join | clear => exact h
  | opens hnone => exact h.opens hnone _
  | @publish table cached hservice hkept hgone =>
    refine ⟨fun key f hf => h.entry key f (hkept key f hf), fun f record hf hs => ?_, h.never⟩
    have hfind := h.stays f record hf hs
    cases htable : table.find? record.key with
    | none =>
      obtain ⟨record', hf', hready⟩ := hgone record.key f hfind htable
      rw [hf] at hf'
      cases hf'
      unfold stays at hs
      rw [hservice] at hs
      dsimp only at hs
      rw [Option.isNone_iff_eq_none] at hs
      rw [hs] at hready
      cases hready
    | some g =>
      have hg := hkept record.key g htable
      rw [hfind] at hg
      exact hg.symm
  | goes hgoes =>
    cases hgoes with
    | hand | drop | pass | late | call | depart => exact h
    | @attach i f r record hr hphase hcallback hf =>
      exact h.change hf rfl id (fun _ => id) fun outcome hs => h.never f record outcome hs hf
    | launch submission hr hphase hf howner =>
      refine hearly hf (.inl ?_) (launched_cases s submission _ rfl)
      exact howned.unlaunched hf (howner ▸ hr) (by rw [hphase]; rfl)
    | run outcome cached hf hwork => exact hearly hf (.inr hwork) (.inr (.inr ⟨outcome, rfl⟩))
    | leave hf hwork => exact h.leave hf hwork
    | @resolve f record outcome hf hwork =>
      have hsound := hlinked.sound f record hf
      unfold Sound at hsound
      rw [hwork] at hsound
      refine h.change hf rfl (fun hs => ?_) (fun hservice hs => ?_) fun _ _ => nofun
      · unfold stays at hs ⊢
        cases hservice : s.service with
        | shaderCompiler =>
          rw [hservice] at hs
          cases hs
        | pipelineService =>
          dsimp only
          rw [hsound.1]
          rfl
      · unfold stays at hs
        rw [hservice, hwork] at hs
        cases hs
    | @finish f record hf hwork | @finished f record hf hwork =>
      refine h.change hf rfl (fun hs => ?_) (fun hservice hs => ?_) fun _ _ => nofun
      · unfold stays at hs ⊢
        rw [hwork]
        exact hs
      · unfold stays at hs ⊢
        rw [hwork] at hs
        exact hs
    | @deliver f i callbacks record hf hwork =>
      refine h.change hf rfl (fun hs => ?_) (fun hservice hs => ?_) fun _ _ => nofun
      · unfold stays at hs ⊢
        rw [hwork]
        exact hs
      · unfold stays at hs ⊢
        rw [hwork] at hs
        exact hs

end

/-! ## Both over a step -/

section
variable [DecidableEq κ]

theorem owned_step (h : Owned s.requesters s.flights) (hdoes : Does s s') :
    Owned s'.requesters s'.flights := by
  cases hdoes with
  | hit | join => exact h.enter _
  | opens => exact h.opens rfl rfl rfl
  | clear | publish => exact h
  | goes hgoes =>
    cases hgoes with
    | hand hr hphase | drop hr hphase =>
      exact h.move hr (by rw [hphase]; rfl) fun f record hf hno => by
        rw [hphase] at hno
        cases hno
    | pass hr hphase | late hr hphase | call hr hphase =>
      exact h.move hr (by rw [hphase]; rfl) fun f record hf hsame howner => by rw [hphase]; rfl
    | attach hr hphase hcallback hf =>
      refine Owned.move ?_ hr (by rw [hphase]; rfl) fun f record hf hsame howner => ?_
      · exact h.change hf rfl Iff.rfl
      · rw [hphase]
        rfl
    | depart hr hphase hf howner =>
      refine h.move hr (by rw [hphase]; rfl) fun g record hg hsame hi => ?_
      rw [hphase] at hsame
      cases hsame
      rw [hf] at hg
      cases hg
      exact absurd hi howner
    | launch submission hr hphase hf howner =>
      exact h.launch hr hphase hf howner rfl (launched_ne_unlaunched s submission _)
    | run outcome cached hf hwork =>
      refine h.change hf rfl ⟨fun hno => absurd hno (begins_ne_unlaunched s outcome), fun hno => ?_⟩
      rw [hwork] at hno
      cases hno
    | leave hf hwork | resolve hf hwork | finish hf hwork | deliver hf hwork | finished hf hwork =>
      refine h.change hf rfl ⟨fun hno => (by cases hno), fun hno => ?_⟩
      rw [hwork] at hno
      cases hno

theorem linked_step (howned : Owned s.requesters s.flights)
    (hentry : ∀ key f, s.table.find? key = some f →
      ∃ record, s.flights[f]? = some record ∧ record.key = key)
    (h : Linked s.requesters s.flights) (hdoes : Does s s') :
    Linked s'.requesters s'.flights := by
  cases hdoes with
  | hit => exact h.enter (fun f hf => by cases hf) fun f hf => by cases hf
  | join hfind =>
    exact h.enter (fun f hf => by cases hf; exact hentry _ _ hfind) fun f hf => by cases hf
  | opens =>
    refine Linked.enter ?_ (fun f hf => ?_) fun f hf => by cases hf
    · exact h.opens ⟨rfl, rfl, rfl⟩ rfl
    · cases hf
      exact ⟨_, List.getElem?_concat_length, rfl⟩
  | clear | publish => exact h
  | goes hgoes =>
    cases hgoes with
    | hand hr hphase | drop hr hphase | pass hr hphase | depart hr hphase | call hr hphase =>
      exact h.move hr (by rw [hphase]; rfl) fun f hf => by cases hf
    | late hr hphase hcallback hf hdone =>
      exact h.move hr (by rw [hphase]; rfl) fun f hf => by cases hf; exact ⟨_, ‹_›, hdone⟩
    | @attach i f r record hr hphase hcallback hf hdone =>
      refine Linked.move ?_ hr (by rw [hphase]; rfl) fun f hf => by cases hf
      refine h.change hf rfl ?_ id fun j hj => ?_
      · exact sound_attach (h.sound f record hf) hdone _
      · rw [waiting, List.append_assoc, List.mem_append, List.mem_append, List.mem_singleton] at hj
        rcases hj with hj | rfl | hj
        · exact .inl (List.mem_append_left _ hj)
        · exact .inr ⟨r, hr, by rw [hphase]; rfl⟩
        · exact .inl (List.mem_append_right _ hj)
    | @launch i f r record submission hr hphase hf howner =>
      have hbefore : isBefore record.work = true := by
        rw [howned.unlaunched hf (howner ▸ hr) (by rw [hphase]; rfl)]
        rfl
      have hlaunched := before_launched s submission (.complete (s.refused record.key))
      refine Linked.change ?_ hf rfl ?_ id fun j hj => ?_
      · exact h.move hr (by rw [hphase]; rfl) fun f hf => by cases hf
      · exact (sound_before hlaunched).mpr ((sound_before hbefore).mp (h.sound f record hf))
      · rw [waiting_before hlaunched] at hj
        exact .inl (List.mem_append_left _ hj)
    | @run f record outcome cached hf hwork =>
      have hbefore : isBefore record.work = true := by
        rw [hwork]
        rfl
      have hbegins := before_begins s outcome
      refine h.change hf rfl ?_ id fun j hj => ?_
      · exact (sound_before hbegins).mpr ((sound_before hbefore).mp (h.sound f record hf))
      · rw [waiting_before hbegins] at hj
        exact .inl (List.mem_append_left _ hj)
    | @leave f record outcome hf hwork =>
      have hsound := h.sound f record hf
      unfold Sound at hsound
      rw [hwork] at hsound
      refine h.change hf rfl hsound id fun j hj => ?_
      rw [waiting_before rfl] at hj
      exact .inl (List.mem_append_left _ hj)
    | @resolve f record outcome hf hwork =>
      have hsound := h.sound f record hf
      unfold Sound at hsound
      rw [hwork] at hsound
      refine h.change hf rfl ⟨future_resolve _ _, result_resolve _ hsound outcome, ?_⟩ ?_ fun j hj => ?_
      · rw [done_resolve]
        exact hsound.2.2
      · exact fun hdone => (done_resolve record.flight outcome).trans hdone
      · have hcallbacks : j ∈ (record.flight.resolve outcome).callbacks := by
          rw [waiting, List.append_nil] at hj
          exact hj
        cases outcome <;> exact .inl (List.mem_append_left _ hcallbacks)
    | @finish f record hf hwork =>
      have hsound := h.sound f record hf
      unfold Sound at hsound
      rw [hwork] at hsound
      exact h.change hf rfl ⟨hsound.1, hsound.2.1, rfl, rfl⟩ (fun _ => rfl) fun j hj =>
        .inl (List.mem_append_left _ hj)
    | @deliver f i callbacks record hf hwork =>
      have hsound := h.sound f record hf
      unfold Sound at hsound
      rw [hwork] at hsound
      refine h.change hf rfl hsound id fun j hj => .inl ?_
      unfold waiting at hj ⊢
      rw [hwork]
      rw [List.mem_append] at hj ⊢
      exact hj.imp_right fun hj => List.mem_cons_of_mem i hj
    | @finished f record hf hwork =>
      have hsound := h.sound f record hf
      unfold Sound at hsound
      rw [hwork] at hsound
      refine h.change hf rfl hsound id fun j hj => .inl ?_
      rw [waiting, List.append_nil] at hj
      exact List.mem_append_left _ hj

end

end ModuleServices.Flights.Proof
