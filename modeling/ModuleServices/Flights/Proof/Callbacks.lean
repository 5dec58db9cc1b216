import ModuleServices.Flights.Proof.Flight
import ModuleServices.Lib.Shares

/-!
# Every completion callback runs once

A callback is in one place at a time: with its requester, which has not attached it yet, in its
flight's lists, or called (`Accounted`). A flight's work goes one way, every step that is not a new
request brings the world nearer to one where nothing is left to do (`effort`), and there all
callbacks are called.
-/

namespace ModuleServices.Flights.Proof

variable {κ α : Type} {s s' : World κ α} {i f : Nat} {r : Requester κ α}
  {record record' : FlightRecord κ α} {requesters : List (Requester κ α)}
  {flights : List (FlightRecord κ α)} {ran : List (Nat × Option α)}

/-! ## Where a callback is -/

/-- The callbacks a requester came with. -/
def owes (r : Requester κ α) : Nat := if r.callback then 1 else 0

/-- Those still in its own hands. -/
def pending (r : Requester κ α) : Nat :=
  match r.phase with
  | .hit _ | .attaching _ => owes r
  | .calling _ => 1
  | .attached _ | .returned _ => 0

/-- A requester's share, none for one that is not there. -/
def shareAt (share : Requester κ α → Nat) (requesters : List (Requester κ α)) (i : Nat) : Nat :=
  (requesters[i]?.map share).getD 0

def queuedAt (flights : List (FlightRecord κ α)) (i : Nat) : Nat :=
  (flights.map fun record => (waiting record).count i).sum

/-- How often a requester's callback was called. -/
def ranAt (ran : List (Nat × Option α)) (i : Nat) : Nat := (ran.map Prod.fst).count i

def Accounted (requesters : List (Requester κ α)) (flights : List (FlightRecord κ α))
    (ran : List (Nat × Option α)) : Prop :=
  ∀ i, shareAt pending requesters i + queuedAt flights i + ranAt ran i = shareAt owes requesters i

theorem shareAt_of (share : Requester κ α → Nat) (hr : requesters[i]? = some r) :
    shareAt share requesters i = share r := by
  unfold shareAt
  rw [hr]
  rfl

theorem shareAt_set_self (share : Requester κ α → Nat) (hr : requesters[i]? = some r)
    (r' : Requester κ α) : shareAt share (requesters.set i r') i = share r' :=
  shareAt_of share (getElem?_set_old hr)

theorem shareAt_set_ne (share : Requester κ α → Nat) {j : Nat} (hij : i ≠ j)
    (r' : Requester κ α) : shareAt share (requesters.set i r') j = shareAt share requesters j := by
  unfold shareAt
  rw [List.getElem?_set_ne hij]

theorem shareAt_concat (share : Requester κ α → Nat) (r : Requester κ α) (j : Nat) :
    shareAt share (requesters ++ [r]) j
      = if j = requesters.length then share r else shareAt share requesters j := by
  unfold shareAt
  split
  next hj =>
    rw [hj, List.getElem?_concat_length]
    rfl
  next hj =>
    by_cases hlt : j < requesters.length
    · rw [List.getElem?_append_left hlt]
    · have hlength : (requesters ++ [r]).length ≤ j := by
        rw [List.length_append, List.length_singleton]
        omega
      rw [List.getElem?_eq_none hlength, List.getElem?_eq_none (Nat.le_of_not_lt hlt)]

theorem ranAt_call (ran : List (Nat × Option α)) (i : Nat) (argument : Option α) (j : Nat) :
    ranAt (ran ++ [(i, argument)]) j = ranAt ran j + if i = j then 1 else 0 := by
  unfold ranAt
  rw [List.map_append, List.count_append, List.map_singleton, List.count_singleton]
  simp only [beq_iff_eq]

theorem queuedAt_set (hf : flights[f]? = some record) (record' : FlightRecord κ α) (j : Nat) :
    queuedAt (flights.set f record') j + (waiting record).count j
      = queuedAt flights j + (waiting record').count j :=
  Shares.sum_set (fun record => (waiting record).count j) record' hf

namespace Accounted

/-- A requester comes. -/
theorem enter (h : Accounted requesters flights ran) (hpending : pending r = owes r) :
    Accounted (requesters ++ [r]) flights ran := by
  intro j
  have hj := h j
  rw [shareAt_concat, shareAt_concat]
  split
  next heq =>
    have hnone (share : Requester κ α → Nat) : shareAt share requesters j = 0 := by
      unfold shareAt
      rw [List.getElem?_eq_none (by omega)]
      rfl
    rw [hnone, hnone] at hj
    omega
  next => exact hj

/-- A requester moves on with its callback where it was. -/
theorem move (h : Accounted requesters flights ran) (hr : requesters[i]? = some r)
    {phase : Phase α} (hpending : pending { r with phase } = pending r) :
    Accounted (requesters.set i { r with phase }) flights ran := by
  intro j
  by_cases hij : i = j
  · subst hij
    have hi := h i
    rw [shareAt_of _ hr, shareAt_of _ hr] at hi
    rw [shareAt_set_self _ hr, shareAt_set_self _ hr, hpending]
    exact hi
  · rw [shareAt_set_ne _ hij, shareAt_set_ne _ hij]
    exact h j

/-- A requester calls its callback. -/
theorem call (h : Accounted requesters flights ran) (hr : requesters[i]? = some r)
    {phase : Phase α} (hold : pending r = 1) (hnew : pending { r with phase } = 0)
    (argument : Option α) :
    Accounted (requesters.set i { r with phase }) flights (ran ++ [(i, argument)]) := by
  intro j
  rw [ranAt_call]
  by_cases hij : i = j
  · subst hij
    have hi := h i
    rw [shareAt_of _ hr, shareAt_of _ hr, hold] at hi
    rw [shareAt_set_self _ hr, shareAt_set_self _ hr, hnew, if_pos rfl]
    change _ = owes r
    omega
  · rw [shareAt_set_ne _ hij, shareAt_set_ne _ hij, if_neg hij]
    exact h j

/-- A flight changes, waiting for the same callbacks. -/
theorem change (h : Accounted requesters flights ran) (hf : flights[f]? = some record)
    (hsame : ∀ j, (waiting record').count j = (waiting record).count j) :
    Accounted requesters (flights.set f record') ran := by
  intro j
  have hj := h j
  have hset := queuedAt_set hf record' j
  have heq := hsame j
  omega

/-- A flight is made. -/
theorem opens (h : Accounted requesters flights ran) (hnone : waiting record = []) :
    Accounted requesters (flights ++ [record]) ran := by
  intro j
  have hqueued : queuedAt (flights ++ [record]) j = queuedAt flights j := by
    unfold queuedAt
    rw [List.map_append, List.sum_append, List.map_singleton, hnone]
    rfl
  rw [hqueued]
  exact h j

/-- A requester puts its callback on its flight's list. -/
theorem attach (h : Accounted requesters flights ran) (hr : requesters[i]? = some r)
    {phase : Phase α} (hold : pending r = 1) (hnew : pending { r with phase } = 0)
    (hf : flights[f]? = some record)
    (hmore : ∀ j, (waiting record').count j = (waiting record).count j + if i = j then 1 else 0) :
    Accounted (requesters.set i { r with phase }) (flights.set f record') ran := by
  intro j
  have hset := queuedAt_set hf record' j
  rw [hmore] at hset
  by_cases hij : i = j
  · subst hij
    have hi := h i
    rw [shareAt_of _ hr, shareAt_of _ hr, hold] at hi
    rw [shareAt_set_self _ hr, shareAt_set_self _ hr, hnew]
    rw [if_pos rfl] at hset
    change _ = owes r
    omega
  · have hj := h j
    rw [shareAt_set_ne _ hij, shareAt_set_ne _ hij]
    rw [if_neg hij] at hset
    omega

/-- A completion calls the next callback. -/
theorem deliver (h : Accounted requesters flights ran) (hf : flights[f]? = some record)
    (hless : ∀ j, (waiting record).count j = (waiting record').count j + if i = j then 1 else 0)
    (argument : Option α) :
    Accounted requesters (flights.set f record') (ran ++ [(i, argument)]) := by
  intro j
  have hj := h j
  have hset := queuedAt_set hf record' j
  have hcount := hless j
  rw [ranAt_call]
  omega

end Accounted

theorem owes_of (hcallback : r.callback = true) : owes r = 1 := by
  unfold owes
  rw [hcallback]
  rfl

theorem owes_none (hcallback : r.callback = false) : owes r = 0 := by
  unfold owes
  rw [hcallback]
  rfl

section
variable [DecidableEq κ]

theorem accounted_goes (howned : Owned s.requesters s.flights)
    (h : Accounted s.requesters s.flights s.ran) (hgoes : Goes s s') :
    Accounted s'.requesters s'.flights s'.ran := by
  cases hgoes with
  | @hand i r artifact hr hphase hcallback =>
    refine h.call hr ?_ rfl _
    unfold pending
    rw [hphase]
    exact owes_of hcallback
  | @drop i r artifact hr hphase hcallback =>
    refine h.move hr ?_
    unfold pending
    rw [hphase]
    exact (owes_none hcallback).symm
  | @pass i f r hr hphase hcallback =>
    refine h.move hr ?_
    unfold pending
    rw [hphase]
    exact (owes_none hcallback).symm
  | @attach i f r record hr hphase hcallback hf hdone =>
    refine h.attach hr ?_ rfl hf fun j => ?_
    · unfold pending
      rw [hphase]
      exact owes_of hcallback
    · unfold waiting
      rw [List.count_append, List.count_append, List.count_append, List.count_singleton]
      simp only [beq_iff_eq]
      omega
  | @late i f r record hr hphase hcallback hf hdone =>
    refine h.move hr ?_
    unfold pending
    rw [hphase]
    exact (owes_of hcallback).symm
  | @call i f r record hr hphase hf =>
    refine h.call hr ?_ rfl _
    unfold pending
    rw [hphase]
  | @depart i f r record hr hphase hf howner =>
    refine h.move hr ?_
    unfold pending
    rw [hphase]
  | @launch i f r record submission hr hphase hf howner =>
    refine Accounted.change ?_ hf fun j => ?_
    · refine h.move hr ?_
      unfold pending
      rw [hphase]
    · rw [waiting_before (before_launched s submission _), waiting_before]
      rw [howned.unlaunched hf (howner ▸ hr) (by rw [hphase]; rfl)]
      rfl
  | @run f record outcome cached hf hwork =>
    refine h.change hf fun j => ?_
    rw [waiting_before (before_begins s outcome), waiting_before]
    rw [hwork]
    rfl
  | @leave f record outcome hf hwork =>
    refine h.change hf fun j => ?_
    rw [waiting_before rfl, waiting_before]
    rw [hwork]
    rfl
  | @resolve f record outcome hf hwork =>
    refine h.change hf fun j => ?_
    unfold waiting
    rw [hwork]
    cases outcome <;> rfl
  | @finish f record hf hwork =>
    refine h.change hf fun j => ?_
    unfold waiting
    rw [hwork, List.append_nil, List.nil_append]
  | @deliver f i callbacks record hf hwork =>
    refine h.deliver hf (fun j => ?_) _
    unfold waiting
    rw [hwork]
    rw [List.count_append, List.count_append, List.count_cons]
    simp only [beq_iff_eq]
    omega
  | @finished f record hf hwork =>
    refine h.change hf fun j => ?_
    unfold waiting
    rw [hwork]

theorem accounted_step (howned : Owned s.requesters s.flights)
    (h : Accounted s.requesters s.flights s.ran) (hdoes : Does s s') :
    Accounted s'.requesters s'.flights s'.ran := by
  cases hdoes with
  | hit | join => exact h.enter rfl
  | opens => exact Accounted.enter (h.opens rfl) rfl
  | clear | publish => exact h
  | goes hgoes => exact accounted_goes howned h hgoes

end

/-! ## What a callback is called with -/

/-- Requesters stay, each with its key, its callback and its flight. -/
def RequestersKept (old new : List (Requester κ α)) : Prop :=
  ∀ (i : Nat) (r : Requester κ α), old[i]? = some r → ∃ r', new[i]? = some r'
    ∧ r'.key = r.key ∧ r'.callback = r.callback ∧ flightOf r'.phase = flightOf r.phase

/-- Flights stay, and a ready future keeps what it holds. -/
def FlightsKept (old new : List (FlightRecord κ α)) : Prop :=
  ∀ (f : Nat) (record : FlightRecord κ α), old[f]? = some record → ∃ record', new[f]? = some record'
    ∧ record'.key = record.key ∧ (record.flight.future.isSome = true →
      record'.flight.future = record.flight.future
        ∧ record'.flight.failure = record.flight.failure)

theorem RequestersKept.refl (requesters : List (Requester κ α)) :
    RequestersKept requesters requesters := fun _ r hr => ⟨r, hr, rfl, rfl, rfl⟩

theorem RequestersKept.move (hr : requesters[i]? = some r) {phase : Phase α}
    (hflight : flightOf phase = flightOf r.phase) :
    RequestersKept requesters (requesters.set i { r with phase }) := by
  intro j r' hr'
  by_cases hij : i = j
  · subst hij
    rw [hr] at hr'
    cases hr'
    exact ⟨_, getElem?_set_old hr, rfl, rfl, hflight⟩
  · exact ⟨r', by rw [List.getElem?_set_ne hij, hr'], rfl, rfl, rfl⟩

theorem RequestersKept.enter (requesters : List (Requester κ α)) (r : Requester κ α) :
    RequestersKept requesters (requesters ++ [r]) :=
  fun _ r hr => ⟨r, getElem?_concat_old hr, rfl, rfl, rfl⟩

theorem FlightsKept.refl (flights : List (FlightRecord κ α)) : FlightsKept flights flights :=
  fun _ record hf => ⟨record, hf, rfl, fun _ => ⟨rfl, rfl⟩⟩

theorem FlightsKept.change (hf : flights[f]? = some record) (hkey : record'.key = record.key)
    (hfuture : record.flight.future.isSome = true →
      record'.flight.future = record.flight.future
        ∧ record'.flight.failure = record.flight.failure) :
    FlightsKept flights (flights.set f record') := by
  intro g record₀ hg
  by_cases hfg : f = g
  · subst hfg
    rw [hf] at hg
    cases hg
    exact ⟨record', getElem?_set_old hf, hkey, hfuture⟩
  · exact ⟨record₀, by rw [List.getElem?_set_ne hfg, hg], rfl, fun _ => ⟨rfl, rfl⟩⟩

theorem FlightsKept.opens (flights : List (FlightRecord κ α)) (record : FlightRecord κ α) :
    FlightsKept flights (flights ++ [record]) :=
  fun _ record hf => ⟨record, getElem?_concat_old hf, rfl, fun _ => ⟨rfl, rfl⟩⟩

/-- What a callback was called with is what its requester's future holds, and that was ready. -/
def Received (requesters : List (Requester κ α)) (flights : List (FlightRecord κ α))
    (call : Nat × Option α) : Prop :=
  call.2.isSome = true ∧ ∃ r, requesters[call.1]? = some r ∧ ∀ f, flightOf r.phase = some f →
    ∃ record, flights[f]? = some record ∧ record.flight.future.isSome = true
      ∧ call.2 = record.flight.result

theorem Received.kept {requesters' : List (Requester κ α)} {flights' : List (FlightRecord κ α)}
    {call : Nat × Option α} (h : Received requesters flights call)
    (hrequesters : RequestersKept requesters requesters') (hflights : FlightsKept flights flights') :
    Received requesters' flights' call := by
  obtain ⟨hsome, r, hr, hflight⟩ := h
  obtain ⟨r', hr', -, -, hphase⟩ := hrequesters call.1 r hr
  refine ⟨hsome, r', hr', fun f hf => ?_⟩
  rw [hphase] at hf
  obtain ⟨record, hrecord, hready, hresult⟩ := hflight f hf
  obtain ⟨record', hrecord', -, hsame⟩ := hflights f record hrecord
  obtain ⟨hfuture, hfailure⟩ := hsame hready
  refine ⟨record', hrecord', hfuture ▸ hready, hresult.trans ?_⟩
  unfold CompletionFlight.result
  rw [hfuture, hfailure]

/-- Once the flight is done its future is ready. -/
theorem sound_done (h : Sound record) (hdone : record.flight.done = true) :
    record.flight.future.isSome = true ∧ record.flight.result.isSome = true := by
  unfold Sound at h
  cases hwork : record.work with
  | unlaunched | queued | leaving | resolving =>
    rw [hwork] at h
    rw [h.2.2] at hdone
    cases hdone
  | finishing =>
    rw [hwork] at h
    exact ⟨h.1, h.2.1⟩
  | delivering | finished =>
    rw [hwork] at h
    exact ⟨h.1, h.2.1⟩

section
variable [DecidableEq κ]

theorem requesters_goes (hgoes : Goes s s') : RequestersKept s.requesters s'.requesters := by
  cases hgoes with
  | hand hr hphase | drop hr hphase | pass hr hphase | attach hr hphase | late hr hphase
  | call hr hphase | depart hr hphase | launch _ hr hphase =>
    exact .move hr (by rw [hphase]; rfl)
  | run | leave | resolve | finish | deliver | finished => exact .refl _

theorem flights_goes (hlinked : Linked s.requesters s.flights) (hgoes : Goes s s') :
    FlightsKept s.flights s'.flights := by
  cases hgoes with
  | hand | drop | pass | late | call | depart => exact .refl _
  | attach _ _ _ hf | launch _ _ _ hf | run _ _ hf | leave hf | finish hf | deliver hf
  | finished hf => exact .change hf rfl fun _ => ⟨rfl, rfl⟩
  | @resolve f record outcome hf hwork =>
    have hsound := hlinked.sound f record hf
    unfold Sound at hsound
    rw [hwork] at hsound
    refine .change hf rfl fun hsome => ?_
    rw [hsound.1] at hsome
    cases hsome

theorem requesters_step (hdoes : Does s s') : RequestersKept s.requesters s'.requesters := by
  cases hdoes with
  | hit | join | opens => exact .enter _ _
  | clear | publish => exact .refl _
  | goes hgoes => exact requesters_goes hgoes

theorem flights_step (hlinked : Linked s.requesters s.flights) (hdoes : Does s s') :
    FlightsKept s.flights s'.flights := by
  cases hdoes with
  | hit | join | clear | publish => exact .refl _
  | opens => exact .opens _ _
  | goes hgoes => exact flights_goes hlinked hgoes

/-- A callback called now is called with a result, its requester's future being ready. -/
theorem called_goes (hlinked : Linked s.requesters s.flights) (hgoes : Goes s s') :
    ∀ call ∈ s'.ran, call ∈ s.ran ∨ Received s.requesters s.flights call := by
  cases hgoes with
  | @hand i r artifact hr hphase hcallback =>
    intro call hcall
    obtain hold | hnew := List.mem_append.mp hcall
    · exact .inl hold
    · cases List.mem_singleton.mp hnew
      refine .inr ⟨rfl, r, hr, fun f hf => ?_⟩
      rw [hphase] at hf
      cases hf
  | @call i f r record hr hphase hf =>
    intro call hcall
    obtain hold | hnew := List.mem_append.mp hcall
    · exact .inl hold
    · cases List.mem_singleton.mp hnew
      obtain ⟨record', hf', hdone⟩ := hlinked.calling i r f hr hphase
      rw [hf] at hf'
      cases hf'
      obtain ⟨hready, hresult⟩ := sound_done (hlinked.sound f record hf) hdone
      refine .inr ⟨hresult, r, hr, fun g hg => ?_⟩
      rw [hphase] at hg
      cases hg
      exact ⟨record, hf, hready, rfl⟩
  | @deliver f i callbacks record hf hwork =>
    intro call hcall
    obtain hold | hnew := List.mem_append.mp hcall
    · exact .inl hold
    · cases List.mem_singleton.mp hnew
      have hsound := hlinked.sound f record hf
      unfold Sound at hsound
      rw [hwork] at hsound
      have hmem : i ∈ waiting record := by
        unfold waiting
        rw [hwork]
        exact List.mem_append_right _ List.mem_cons_self
      obtain ⟨r, hr, hphase⟩ := hlinked.waiting f record hf i hmem
      refine .inr ⟨hsound.2.1, r, hr, fun g hg => ?_⟩
      rw [hphase] at hg
      cases hg
      exact ⟨record, hf, hsound.1, rfl⟩
  | _ => exact fun call hcall => .inl hcall

theorem received_step (hlinked : Linked s.requesters s.flights)
    (h : ∀ call ∈ s.ran, Received s.requesters s.flights call) (hdoes : Does s s') :
    ∀ call ∈ s'.ran, Received s'.requesters s'.flights call := by
  intro call hcall
  refine Received.kept ?_ (requesters_step hdoes) (flights_step hlinked hdoes)
  cases hdoes with
  | goes hgoes => exact (called_goes hlinked hgoes call hcall).elim (h call) id
  | _ => exact h call hcall

end

/-! ## One task for each flight -/

/-- A flight's task is submitted once, by its owner. -/
def Launched (launched : List Nat) (flights : List (FlightRecord κ α)) : Prop :=
  launched.Nodup ∧ ∀ f, f ∈ launched ↔ ∃ record, flights[f]? = some record
    ∧ record.work ≠ .unlaunched

namespace Launched

variable {launched : List Nat}

theorem change (h : Launched launched flights) (hf : flights[f]? = some record)
    (hwork : record'.work = .unlaunched ↔ record.work = .unlaunched) :
    Launched launched (flights.set f record') := by
  refine ⟨h.1, fun g => (h.2 g).trans ?_⟩
  by_cases hfg : f = g
  · subst hfg
    rw [getElem?_set_old hf, hf]
    refine ⟨fun ⟨_, hrecord, hne⟩ => ⟨record', rfl, fun hno => hne ?_⟩,
      fun ⟨_, hrecord, hne⟩ => ⟨record, rfl, fun hno => hne ?_⟩⟩
    · cases hrecord
      exact hwork.mp hno
    · cases hrecord
      exact hwork.mpr hno
  · rw [List.getElem?_set_ne hfg]

theorem opens (h : Launched launched flights) (hwork : record.work = .unlaunched) :
    Launched launched (flights ++ [record]) := by
  refine ⟨h.1, fun f => (h.2 f).trans ⟨fun ⟨_, hf, hne⟩ => ⟨_, getElem?_concat_old hf, hne⟩, ?_⟩⟩
  rintro ⟨_, hf, hne⟩
  obtain hf | ⟨-, rfl⟩ := getElem?_concat_cases hf
  · exact ⟨_, hf, hne⟩
  · exact absurd hwork hne

theorem launch (h : Launched launched flights) (hf : flights[f]? = some record)
    (hold : record.work = .unlaunched) (hnew : record'.work ≠ .unlaunched) :
    Launched (launched ++ [f]) (flights.set f record') := by
  have hnot : f ∉ launched := by
    intro hmem
    obtain ⟨record₀, hf₀, hne⟩ := (h.2 f).mp hmem
    rw [hf] at hf₀
    cases hf₀
    exact hne hold
  refine ⟨List.nodup_append.mpr ⟨h.1, List.nodup_singleton f, fun g hg k hk => ?_⟩, fun g => ?_⟩
  · cases List.mem_singleton.mp hk
    intro heq
    exact hnot (heq ▸ hg)
  · rw [List.mem_append, List.mem_singleton]
    by_cases hfg : f = g
    · subst hfg
      rw [getElem?_set_old hf]
      exact ⟨fun _ => ⟨record', rfl, hnew⟩, fun _ => .inr rfl⟩
    · rw [List.getElem?_set_ne hfg, ← h.2 g]
      exact ⟨fun hg => hg.resolve_right (Ne.symm hfg), .inl⟩

end Launched

/-! ## Nearer to rest -/

def phaseRank : Phase α → Nat
  | .attaching _ => 3
  | .calling _ => 2
  | .hit _ | .attached _ => 1
  | .returned _ => 0

def workRank : Work α → Nat
  | .unlaunched => 6
  | .queued => 5
  | .leaving _ => 4
  | .resolving _ => 3
  | .finishing => 2
  | .delivering callbacks => 1 + callbacks.length
  | .finished => 0

def load (record : FlightRecord κ α) : Nat :=
  workRank record.work + record.flight.callbacks.length

/-- The steps left, if nobody comes. -/
def effort (requesters : List (Requester κ α)) (flights : List (FlightRecord κ α)) : Nat :=
  (requesters.map fun r => phaseRank r.phase).sum + (flights.map load).sum

theorem effort_move (hr : requesters[i]? = some r) {phase : Phase α}
    (hlt : phaseRank phase < phaseRank r.phase) :
    effort (requesters.set i { r with phase }) flights < effort requesters flights := by
  have hset := Shares.sum_set (fun r => phaseRank r.phase) { r with phase } hr
  unfold effort
  dsimp only at hset
  omega

theorem effort_change (hf : flights[f]? = some record) (hlt : load record' < load record) :
    effort requesters (flights.set f record') < effort requesters flights := by
  have hset := Shares.sum_set load record' hf
  unfold effort
  omega

/-- A list grows by one while its requester comes two further. -/
theorem effort_attach (hr : requesters[i]? = some r) {phase : Phase α}
    (hphase : phaseRank phase + 2 ≤ phaseRank r.phase) (hf : flights[f]? = some record)
    (hload : load record' = load record + 1) :
    effort (requesters.set i { r with phase }) (flights.set f record')
      < effort requesters flights := by
  have hmove := Shares.sum_set (fun r => phaseRank r.phase) { r with phase } hr
  have hset := Shares.sum_set load record' hf
  unfold effort
  dsimp only at hmove
  omega

theorem workRank_begins (s : World κ α) (outcome : Outcome α) :
    workRank (s.begins outcome) ≤ 4 := by
  unfold World.begins
  cases s.service with
  | shaderCompiler => exact Nat.le_refl 4
  | pipelineService => exact Nat.le_succ 3

theorem workRank_launched (s : World κ α) (submission : Submission) (outcome : Outcome α) :
    workRank (if launchServiceTask submission then .queued else s.begins outcome) ≤ 5 := by
  split
  · exact Nat.le_refl 5
  · exact Nat.le_succ_of_le (workRank_begins s outcome)

section
variable [DecidableEq κ]

theorem effort_goes (howned : Owned s.requesters s.flights) (hgoes : Goes s s') :
    effort s'.requesters s'.flights < effort s.requesters s.flights := by
  cases hgoes with
  | hand hr hphase | drop hr hphase | pass hr hphase | late hr hphase | call hr hphase
  | depart hr hphase => exact effort_move hr (by rw [hphase]; simp [phaseRank])
  | @attach i f r record hr hphase hcallback hf hdone =>
    refine effort_attach hr (by rw [hphase]; simp [phaseRank]) hf ?_
    unfold load
    dsimp only
    rw [List.length_append, List.length_singleton]
    omega
  | @launch i f r record submission hr hphase hf howner =>
    have hwork := howned.unlaunched hf (howner ▸ hr) (by rw [hphase]; rfl)
    have hrank := workRank_launched s submission (.complete (s.refused record.key))
    refine Nat.lt_trans (effort_change hf ?_) (effort_move hr (by rw [hphase]; simp [phaseRank]))
    simp only [load, hwork, workRank] at hrank ⊢
    omega
  | @run f record outcome cached hf hwork =>
    have hrank := workRank_begins s outcome
    refine effort_change hf ?_
    unfold load
    rw [hwork]
    change workRank (s.begins outcome) + record.flight.callbacks.length
      < 5 + record.flight.callbacks.length
    omega
  | @resolve f record outcome hf hwork =>
    refine effort_change hf ?_
    cases outcome <;> simp [load, hwork, workRank, CompletionFlight.resolve]
  | leave hf hwork | finish hf hwork | deliver hf hwork | finished hf hwork =>
    refine effort_change hf ?_
    simp only [load, hwork, workRank, List.length_cons, List.length_nil]
    omega

theorem launched_step (howned : Owned s.requesters s.flights)
    (h : Launched s.launched s.flights) (hdoes : Does s s') :
    Launched s'.launched s'.flights := by
  cases hdoes with
  | hit | join | clear | publish => exact h
  | opens => exact h.opens rfl
  | goes hgoes =>
    cases hgoes with
    | hand | drop | pass | late | call | depart => exact h
    | attach _ _ _ hf => exact h.change hf Iff.rfl
    | launch submission hr hphase hf howner =>
      refine h.launch hf ?_ (launched_ne_unlaunched s submission _)
      exact howned.unlaunched hf (howner ▸ hr) (by rw [hphase]; rfl)
    | run outcome cached hf hwork =>
      refine h.change hf ⟨fun hno => absurd hno (begins_ne_unlaunched s outcome), fun hno => ?_⟩
      rw [hwork] at hno
      cases hno
    | leave hf hwork | resolve hf hwork | finish hf hwork | deliver hf hwork
    | finished hf hwork =>
      refine h.change hf ⟨fun hno => (by cases hno), fun hno => ?_⟩
      rw [hwork] at hno
      cases hno

/-! ## Over a run -/

/-- What holds throughout. -/
structure Inv (s : World κ α) : Prop where
  owned : Owned s.requesters s.flights
  linked : Linked s.requesters s.flights
  tabled : Tabled s.service s.table s.flights
  accounted : Accounted s.requesters s.flights s.ran
  received : ∀ call ∈ s.ran, Received s.requesters s.flights call
  launched : Launched s.launched s.flights

/-- A service before its first request. -/
def begun (service : Service) (reuse : α → α) (refused : κ → α) (usable : α → Bool) : World κ α :=
  { service, reuse, refused, usable }

theorem begun_inv (service : Service) (reuse : α → α) (refused : κ → α) (usable : α → Bool) :
    Inv (begun service reuse refused usable) where
  owned f record hf := by cases hf
  linked := ⟨fun i r f hi => (by cases hi), fun i r f hi => (by cases hi),
    fun f record hf => (by cases hf), fun f record hf => (by cases hf)⟩
  tabled := by
    refine ⟨fun key f hf => ?_, fun f record hf => (by cases hf),
      fun f record outcome hs hf => (by cases hf)⟩
    change (∅ : Table κ Nat).find? key = some f at hf
    rw [Table.find?_empty] at hf
    cases hf
  accounted i := rfl
  received call hcall := by cases hcall
  launched := ⟨List.nodup_nil, fun f => ⟨fun hf => (by cases hf), fun ⟨_, hf, _⟩ => (by cases hf)⟩⟩

theorem inv_step (h : Inv s) {a : Action κ α} (hstep : step s a = some s') : Inv s' := by
  have hdoes := step_does hstep
  have hentry (key : κ) (f : Nat) (hfind : s.table.find? key = some f) :
      ∃ record, s.flights[f]? = some record ∧ record.key = key := by
    obtain ⟨record, hf, hkey, -⟩ := h.tabled.entry key f hfind
    exact ⟨record, hf, hkey⟩
  exact ⟨owned_step h.owned hdoes, linked_step h.owned hentry h.linked hdoes,
    tabled_step h.owned h.linked h.tabled hdoes, accounted_step h.owned h.accounted hdoes,
    received_step h.linked h.received hdoes, launched_step h.owned h.launched hdoes⟩

theorem reachable_inv {service : Service} {reuse : α → α} {refused : κ → α} {usable : α → Bool}
    (h : Run.Reachable step (begun service reuse refused usable) s) : Inv s :=
  h.invariant (begun_inv service reuse refused usable) fun _ hinv _ hstep => inv_step hinv hstep

/-! ## At rest -/

/-- The actions of those who are there already. -/
def internal : Action κ α → Bool
  | .advance _ _ | .runTask _ _ _ | .finish _ => true
  | .request _ _ | .clearMemoryCache | .publishReady _ => false

theorem step_goes {a : Action κ α} (ha : internal a = true) (hstep : step s a = some s') :
    Goes s s' := by
  cases a with
  | advance i submission => exact advance_goes hstep
  | runTask f outcome stored => exact runTask_goes hstep
  | finish f => exact finish_goes hstep
  | request | clearMemoryCache | publishReady => cases ha

/-- Nobody who is there has anything left to do. -/
def Quiet (s : World κ α) : Prop := ∀ a : Action κ α, internal a = true → step s a = none

theorem Quiet.returned (hquiet : Quiet s) (h : Linked s.requesters s.flights)
    (hr : s.requesters[i]? = some r) : isReturned r.phase = true := by
  have hnone : s.advance i .runs = none := hquiet (.advance i .runs) rfl
  unfold World.advance at hnone
  rw [hr] at hnone
  dsimp only [Option.bind_some] at hnone
  cases hphase : r.phase with
  | hit artifact =>
    rw [hphase] at hnone
    cases hnone
  | attaching f =>
    obtain ⟨record, hf, -⟩ := h.flight i r f hr (by rw [hphase]; rfl)
    rw [hphase] at hnone
    dsimp only at hnone
    rw [hf] at hnone
    split at hnone <;> cases hnone
  | calling f | attached f =>
    obtain ⟨record, hf, -⟩ := h.flight i r f hr (by rw [hphase]; rfl)
    rw [hphase] at hnone
    dsimp only at hnone
    rw [hf] at hnone
    cases hnone
  | returned f => rfl

theorem Quiet.finished (hquiet : Quiet s) (h : Inv s) (hf : s.flights[f]? = some record) :
    record.work = .finished := by
  have hfinish : s.finish f = none := hquiet (.finish f) rfl
  have hrun : s.runTask f (.complete (s.refused record.key)) false = none :=
    hquiet (.runTask f _ false) rfl
  unfold World.finish at hfinish
  unfold World.runTask at hrun
  rw [hf] at hfinish hrun
  dsimp only [Option.bind_some] at hfinish hrun
  cases hwork : record.work with
  | unlaunched =>
    obtain ⟨r, hr, -, hiff⟩ := h.owned f record hf
    have hreturned := hquiet.returned h.linked hr
    rw [hiff.mp hwork] at hreturned
    cases hreturned
  | queued =>
    rw [hwork] at hrun
    cases hrun
  | leaving | resolving | finishing =>
    rw [hwork] at hfinish
    cases hfinish
  | delivering callbacks =>
    rw [hwork] at hfinish
    cases callbacks <;> cases hfinish
  | finished => rfl

/-- At rest every callback was called. -/
theorem Quiet.called (hquiet : Quiet s) (h : Inv s) (i : Nat) :
    ranAt s.ran i = shareAt owes s.requesters i := by
  have hpending : shareAt pending s.requesters i = 0 := by
    unfold shareAt
    cases hr : s.requesters[i]? with
    | none => rfl
    | some r =>
      have hreturned := hquiet.returned h.linked hr
      change pending r = 0
      unfold pending
      cases hphase : r.phase with
      | attached | returned => rfl
      | hit | attaching | calling =>
        rw [hphase] at hreturned
        cases hreturned
  have hqueued : queuedAt s.flights i = 0 := by
    unfold queuedAt
    rw [List.sum_eq_zero_iff]
    intro n hn
    obtain ⟨record, hmem, rfl⟩ := List.mem_map.mp hn
    obtain ⟨f, hf⟩ := List.getElem?_of_mem hmem
    have hwork := hquiet.finished h hf
    have hsound := h.linked.sound f record hf
    unfold Sound at hsound
    rw [hwork] at hsound
    unfold waiting
    rw [hwork, hsound.2.2.2]
    rfl
  have haccounted := h.accounted i
  omega

/-- If nobody comes, the world comes to rest. -/
theorem Inv.rests (h : Inv s) :
    ∃ t, Run.Within step (fun _ a => internal a = true) s t ∧ Quiet t := by
  induction hn : effort s.requesters s.flights using Nat.strong_induction_on generalizing s with
  | _ n ih =>
    by_cases hquiet : Quiet s
    · exact ⟨s, .start, hquiet⟩
    · unfold Quiet at hquiet
      push Not at hquiet
      obtain ⟨a, ha, hne⟩ := hquiet
      obtain ⟨s', hstep⟩ := Option.ne_none_iff_exists'.mp hne
      have hlt := effort_goes h.owned (step_goes ha hstep)
      obtain ⟨t, hrun, hrest⟩ := ih _ (hn ▸ hlt) (inv_step h hstep) rfl
      exact ⟨t, Run.Within.trans (.next .start ha hstep) hrun, hrest⟩


end

/-! ## A refused submission -/

/-- The flight's future holds the artifact, or will. -/
def Promises (artifact : α) (record : FlightRecord κ α) : Prop :=
  record.flight.future = some (.ok artifact)
    ∨ record.work = .leaving (.complete artifact) ∨ record.work = .resolving (.complete artifact)

def PromisesAt (flights : List (FlightRecord κ α)) (f : Nat) (artifact : α) : Prop :=
  ∃ record, flights[f]? = some record ∧ Promises artifact record

theorem PromisesAt.change {g : Nat} {artifact : α} (h : PromisesAt flights f artifact)
    (hg : flights[g]? = some record) (hkeeps : Promises artifact record → Promises artifact record') :
    PromisesAt (flights.set g record') f artifact := by
  obtain ⟨record₀, hf, hpromises⟩ := h
  by_cases hgf : g = f
  · subst hgf
    rw [hg] at hf
    cases hf
    exact ⟨record', getElem?_set_old hg, hkeeps hpromises⟩
  · exact ⟨record₀, by rw [List.getElem?_set_ne hgf, hf], hpromises⟩

/-- The work goes on, not from a completion with the artifact; the future stays. -/
theorem Promises.goOn {artifact : α} {work : Work α} (h : Promises artifact record)
    (hleaving : record.work ≠ .leaving (.complete artifact))
    (hresolving : record.work ≠ .resolving (.complete artifact))
    (flight : CompletionFlight α) (hfuture : flight.future = record.flight.future) :
    Promises artifact { record with flight, work } := by
  obtain hfuture' | hwork | hwork := h
  · exact .inl (hfuture.trans hfuture')
  · exact absurd hwork hleaving
  · exact absurd hwork hresolving

/-- The owner's task is refused: the flight will hold the refusal. -/
theorem promises_refused {submission : Submission} (hr : s.requesters[i]? = some r)
    (hphase : r.phase = .attached f) (hf : s.flights[f]? = some record) (howner : record.owner = i)
    (hrefused : launchServiceTask submission = false) (hstep : s.advance i submission = some s') :
    PromisesAt s'.flights f (s.refused record.key) := by
  unfold World.advance at hstep
  rw [hr] at hstep
  dsimp only [Option.bind_some] at hstep
  rw [hphase] at hstep
  dsimp only at hstep
  rw [hf, Option.map_some, if_pos howner, hrefused, Option.some.injEq] at hstep
  subst hstep
  refine ⟨_, getElem?_set_old hf, .inr ?_⟩
  change s.begins _ = _ ∨ s.begins _ = _
  unfold World.begins
  cases s.service with
  | shaderCompiler => exact .inl rfl
  | pipelineService => exact .inr rfl

section
variable [DecidableEq κ]

theorem promises_goes {artifact : α} (hinv : Inv s) (h : PromisesAt s.flights f artifact)
    (hgoes : Goes s s') : PromisesAt s'.flights f artifact := by
  cases hgoes with
  | hand | drop | pass | late | call | depart => exact h
  | attach _ _ _ hf => exact h.change hf id
  | @launch i g r record submission hr hphase hf howner =>
    have hwork := hinv.owned.unlaunched hf (howner ▸ hr) (by rw [hphase]; rfl)
    exact h.change hf fun hold => hold.goOn (by rw [hwork]; exact nofun) (by rw [hwork]; exact nofun)
      record.flight rfl
  | @run g record outcome cached hf hwork =>
    exact h.change hf fun hold => hold.goOn (by rw [hwork]; exact nofun) (by rw [hwork]; exact nofun)
      record.flight rfl
  | @leave g record outcome hf hwork =>
    refine h.change hf fun hold => ?_
    obtain hfuture | hleaving | hresolving := hold
    · exact .inl hfuture
    · rw [hwork] at hleaving
      cases hleaving
      exact .inr (.inr rfl)
    · rw [hwork] at hresolving
      cases hresolving
  | @resolve g record outcome hf hwork =>
    refine h.change hf fun hold => ?_
    have hsound := hinv.linked.sound g record hf
    unfold Sound at hsound
    rw [hwork] at hsound
    obtain hfuture | hleaving | hresolving := hold
    · rw [hsound.1] at hfuture
      cases hfuture
    · rw [hwork] at hleaving
      cases hleaving
    · rw [hwork] at hresolving
      cases hresolving
      exact .inl rfl
  | @finish g record hf hwork | @finished g record hf hwork =>
    exact h.change hf fun hold => hold.goOn (by rw [hwork]; exact nofun) (by rw [hwork]; exact nofun)
      _ rfl
  | @deliver g i callbacks record hf hwork =>
    exact h.change hf fun hold => hold.goOn (by rw [hwork]; exact nofun) (by rw [hwork]; exact nofun)
      record.flight rfl

theorem promises_step {artifact : α} (hinv : Inv s) (h : PromisesAt s.flights f artifact)
    (hdoes : Does s s') : PromisesAt s'.flights f artifact := by
  cases hdoes with
  | hit | join | clear | publish => exact h
  | opens =>
    obtain ⟨record, hf, hpromises⟩ := h
    exact ⟨record, getElem?_concat_old hf, hpromises⟩
  | goes hgoes => exact promises_goes hinv h hgoes

theorem promises_reachable {artifact : α} (hinv : Inv s) (h : PromisesAt s.flights f artifact)
    (hrun : Run.Reachable step s s') : PromisesAt s'.flights f artifact :=
  (hrun.invariant (I := fun s => Inv s ∧ PromisesAt s.flights f artifact) ⟨hinv, h⟩
    fun _ hold _ hstep =>
      ⟨inv_step hold.1 hstep, promises_step hold.1 hold.2 (step_does hstep)⟩).2

theorem PromisesAt.kept {artifact : α} (h : PromisesAt s.flights f artifact) (hinv : Inv s)
    (hquiet : Quiet s) :
    ∃ record, s.flights[f]? = some record ∧ record.flight.future = some (.ok artifact) := by
  obtain ⟨record, hf, hfuture | hwork | hwork⟩ := h
  · exact ⟨record, hf, hfuture⟩
  · rw [hquiet.finished hinv hf] at hwork
    cases hwork
  · rw [hquiet.finished hinv hf] at hwork
    cases hwork


/-! ## What requesters can rely on -/

/-- What `CompletionFlight` and the services around it are for. -/
structure Settles (s : World κ α) : Prop where
  once (i : Nat) : ranAt s.ran i ≤ shareAt owes s.requesters i
  received : ∀ call ∈ s.ran, Received s.requesters s.flights call
  /-- Nothing that has begun goes on for ever. -/
  nearer (a : Action κ α) (s' : World κ α) : internal a = true → step s a = some s' →
    effort s'.requesters s'.flights < effort s.requesters s.flights
  rests : ∃ t, Run.Within step (fun _ a => internal a = true) s t ∧ Quiet t
  called : Quiet s → ∀ i, ranAt s.ran i = shareAt owes s.requesters i
  ready : Quiet s → ∀ record ∈ s.flights, record.flight.future.isSome = true
  /-- Who comes while a flight of the key stays in the table, and nothing is cached, joins it. -/
  joins (f : Nat) (record : FlightRecord κ α) (callback : Bool) : s.flights[f]? = some record →
    stays s.service record = true → s.cached.find? record.key = none →
    s.request record.key callback = s.enter record.key callback (.attaching f)
  /-- Of one key no two flights stay in the table. -/
  shared (i j f g : Nat) (r r' : Requester κ α) (record record' : FlightRecord κ α) :
    s.requesters[i]? = some r → s.requesters[j]? = some r' → r.key = r'.key →
    flightOf r.phase = some f → flightOf r'.phase = some g →
    s.flights[f]? = some record → s.flights[g]? = some record' →
    stays s.service record = true → stays s.service record' = true → f = g
  task : Launched s.launched s.flights
  /-- A refused submission completes the flight. -/
  refusal (i f : Nat) (submission : Submission) (r : Requester κ α) (record : FlightRecord κ α)
    (s' t : World κ α) : s.requesters[i]? = some r → r.phase = .attached f →
    s.flights[f]? = some record → record.owner = i → launchServiceTask submission = false →
    s.advance i submission = some s' → Run.Reachable step s' t → Quiet t →
    ∃ record', t.flights[f]? = some record'
      ∧ record'.flight.future = some (.ok (s.refused record.key))
  /-- The shader compiler's table holds no completed flight. -/
  left (f : Nat) (record : FlightRecord κ α) : s.service = .shaderCompiler →
    s.flights[f]? = some record → record.flight.future.isSome = true →
    ∀ key, s.table.find? key ≠ some f
  /-- What comes later finds the memory cache, or a flight that is not completed. -/
  later (key : κ) (callback : Bool) : s.service = .shaderCompiler →
    ∃ phase, (s.request key callback).requesters = s.requesters ++ [⟨key, callback, phase⟩]
      ∧ ((∃ artifact, s.cached.find? key = some artifact ∧ phase = .hit (s.reuse artifact))
        ∨ ∃ f record, phase = .attaching f ∧ (s.request key callback).flights[f]? = some record
          ∧ record.key = key ∧ record.flight.future = none)

/-- The shader compiler's table holds only flights whose future is not ready. -/
theorem table_unready (h : Inv s) (hservice : s.service = .shaderCompiler) {key : κ}
    (hfind : s.table.find? key = some f) :
    ∃ record, s.flights[f]? = some record ∧ record.key = key ∧ record.flight.future = none := by
  obtain ⟨record, hf, hkey, hstays⟩ := h.tabled.entry key f hfind
  have hstays := hstays hservice
  have hsound := h.linked.sound f record hf
  have hbefore : isBefore record.work = true := by
    unfold stays at hstays
    rw [hservice] at hstays
    cases hwork : record.work with
    | unlaunched | queued | leaving => rfl
    | resolving | finishing | delivering | finished =>
      rw [hwork] at hstays
      cases hstays
  exact ⟨record, hf, hkey, ((sound_before hbefore).mp hsound).1⟩

theorem request_later (h : Inv s) (hservice : s.service = .shaderCompiler) (key : κ)
    (callback : Bool) :
    ∃ phase, (s.request key callback).requesters = s.requesters ++ [⟨key, callback, phase⟩]
      ∧ ((∃ artifact, s.cached.find? key = some artifact ∧ phase = .hit (s.reuse artifact))
        ∨ ∃ f record, phase = .attaching f ∧ (s.request key callback).flights[f]? = some record
          ∧ record.key = key ∧ record.flight.future = none) := by
  unfold World.request
  cases hcached : s.cached.find? key with
  | some artifact => exact ⟨_, rfl, .inl ⟨artifact, rfl, rfl⟩⟩
  | none =>
    cases hfind : s.table.find? key with
    | some f =>
      obtain ⟨record, hf, hkey, hfuture⟩ := table_unready h hservice hfind
      exact ⟨_, rfl, .inr ⟨f, record, rfl, hf, hkey, hfuture⟩⟩
    | none => exact ⟨_, rfl, .inr ⟨_, _, rfl, List.getElem?_concat_length, rfl, rfl⟩⟩

/-- **Callbacks run once.** A callback that was called is not in a flight's list or its requester's
hands any more; what is there is called before the world rests, and the world rests because every
step of those who are there spends effort. -/
theorem callbacks_run_once {service : Service} {reuse : α → α} {refused : κ → α}
    {usable : α → Bool} (h : Run.Reachable step (begun service reuse refused usable) s) :
    Settles s where
  once i := by
    have haccounted := (reachable_inv h).accounted i
    omega
  received := (reachable_inv h).received
  nearer a s' ha hstep := effort_goes (reachable_inv h).owned (step_goes ha hstep)
  rests := (reachable_inv h).rests
  called hquiet := hquiet.called (reachable_inv h)
  ready hquiet record hmem := by
    obtain ⟨f, hf⟩ := List.getElem?_of_mem hmem
    have hsound := (reachable_inv h).linked.sound f record hf
    unfold Sound at hsound
    rw [hquiet.finished (reachable_inv h) hf] at hsound
    exact hsound.1
  joins f record callback hf hstays hcached := by
    have hfind := (reachable_inv h).tabled.stays f record hf hstays
    unfold World.request
    rw [hcached, hfind]
  shared i j f g r r' record record' hr hr' hkey hphase hphase' hf hg hstays hstays' := by
    have hinv := reachable_inv h
    obtain ⟨_, hf', hkeyf⟩ := hinv.linked.flight i r f hr hphase
    obtain ⟨_, hg', hkeyg⟩ := hinv.linked.flight j r' g hr' hphase'
    rw [hf] at hf'
    cases hf'
    rw [hg] at hg'
    cases hg'
    have hfind := hinv.tabled.stays f record hf hstays
    rw [hkeyf, hkey, ← hkeyg, hinv.tabled.stays g record' hg hstays'] at hfind
    exact (Option.some.inj hfind).symm
  task := (reachable_inv h).launched
  refusal i f submission r record s' t hr hphase hf howner hrefused hstep hrun hquiet := by
    have hinv' : Inv s' := inv_step (reachable_inv h) (a := .advance i submission) hstep
    have hinvt : Inv t := hrun.invariant hinv' fun _ hold _ hnext => inv_step hold hnext
    have hpromises := promises_refused hr hphase hf howner hrefused hstep
    exact (promises_reachable hinv' hpromises hrun).kept hinvt hquiet
  left f record hservice hf hready key hfind := by
    obtain ⟨record', hf', -, hnone⟩ := table_unready (reachable_inv h) hservice hfind
    rw [hf] at hf'
    cases hf'
    rw [hnone] at hready
    cases hready
  later key callback hservice := request_later (reachable_inv h) hservice key callback


end

/-- A compiler whose refused requests get 0. -/
def compiler : World Nat Nat := begun .shaderCompiler id (fun _ => 0) (fun _ => true)

/-- Two requesters of one key, and its compile. -/
def together : List (Action Nat Nat) :=
  [.request 7 true, .request 7 true, .advance 0 .runs, .advance 1 .runs, .advance 0 .runs,
    .advance 1 .runs, .runTask 0 (.complete 5) true, .finish 0, .finish 0, .finish 0, .finish 0,
    .finish 0, .finish 0]

theorem together_run_once : ∃ s, Run.Reachable step compiler s ∧ Settles s
    ∧ s.ran = [(0, some 5), (1, some 5)] := by
  have h : (Run.exec step compiler together).any
      (fun s => decide (s.ran = [(0, some 5), (1, some 5)])) = true := by
    decide +kernel
  obtain ⟨s, hrun, hs⟩ := (Option.any_eq_true _ _).mp h
  have hreachable := Run.exec_reachable hrun
  exact ⟨s, hreachable, callbacks_run_once hreachable, of_decide_eq_true hs⟩

/-- A compile fails and its flight leaves the table; another request comes before its promise is
set. -/
def parted : List (Action Nat Nat) :=
  [.request 7 true, .advance 0 .runs, .advance 0 .runs, .runTask 0 (.fail "failed" 1) false,
    .finish 0, .request 7 true, .advance 1 .runs, .advance 1 .runs]

/-- Two requesters of one key, no flight completed before either came, have a flight and a task
each; and one that comes after the first completed neither finds the cache nor starts a flight. -/
theorem parted_flights :
    (∃ s : World Nat Nat, Run.Reachable step compiler s ∧ s.requesters.map (·.key) = [7, 7]
      ∧ s.requesters.map (fun r => flightOf r.phase) = [some 0, some 1]
      ∧ s.launched = [0, 1] ∧ s.ran = []
      ∧ ∀ record ∈ s.flights, record.flight.future = none)
    ∧ ∃ s : World Nat Nat, Run.Reachable step compiler s
      ∧ s.flights.map (fun record => (record.key, record.flight.future.isSome))
        = [(7, true), (7, false)]
      ∧ s.cached.find? 7 = none ∧ s.request 7 true = s.enter 7 true (.attaching 1) := by
  have h : (Run.exec step compiler parted).any (fun s =>
      decide (s.requesters.map (·.key) = [7, 7])
      && decide (s.requesters.map (fun r => flightOf r.phase) = [some 0, some 1])
      && decide (s.launched = [0, 1]) && decide (s.ran = [])
      && s.flights.all fun record => record.flight.future.isNone) = true := by
    decide +kernel
  have h' : (Run.exec step compiler (parted ++ [.finish 0])).any (fun s =>
      decide (s.flights.map (fun record => (record.key, record.flight.future.isSome))
        = [(7, true), (7, false)])
      && decide (s.cached.find? 7 = none) && decide (s.table.find? 7 = some 1)) = true := by
    decide +kernel
  obtain ⟨s, hrun, hs⟩ := (Option.any_eq_true _ _).mp h
  obtain ⟨s', hrun', hs'⟩ := (Option.any_eq_true _ _).mp h'
  simp only [Bool.and_eq_true, decide_eq_true_eq, List.all_eq_true] at hs hs'
  obtain ⟨⟨⟨⟨hkeys, hflights⟩, hlaunched⟩, hran⟩, hnone⟩ := hs
  obtain ⟨⟨hready, hcached⟩, hfind⟩ := hs'
  refine ⟨⟨s, Run.exec_reachable hrun, hkeys, hflights, hlaunched, hran, fun record hmem => ?_⟩,
    ⟨s', Run.exec_reachable hrun', hready, hcached, ?_⟩⟩
  · exact Option.isNone_iff_eq_none.mp (hnone record hmem)
  · unfold World.request
    rw [hcached, hfind]

end ModuleServices.Flights.Proof
