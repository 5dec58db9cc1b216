import ModuleServices.Async.Delayed
import Mathlib.Data.List.Nodup

/-!
# Delayed notifications

A generation is in one place: in the call that is submitting it, on an accepted timer, or in
the call that fires or withdraws it. While a deadline is armed, the current generation is
in one of these places, and every `NotifyAfter` that counts on a `Notify` has had one, has
one under way, or has the armed deadline no later than its own.

The step that can break this is the withdrawal of a refused timer: it disarms what others
have come to count on.
-/

namespace ModuleServices.Delayed.Proof

open ModuleServices.Delayed

variable {submitDelayed answer : Bool} {w w' : World} {id id' g : Nat} {p : Promise}

/-! ## Where a generation is -/

/-- The generation a call is about to submit, fire or withdraw. -/
def generation : Phase → Option Nat
  | .submit g _ => some g
  | .refused g => some g
  | .fire g => some g
  | _ => none

/-- The generations the calls hold. -/
def held (w : World) : Nat → Option Nat := fun id => (w.call id).bind generation

/-- A generation is on one timer or with one call. -/
structure Places (timers : List Timer) (held : Nat → Option Nat) (current : Nat) : Prop where
  accepted : ∀ t ∈ timers, t.generation ≤ current
  bounded : ∀ i g, held i = some g → g ≤ current
  once : (timers.map Timer.generation).Nodup
  free : ∀ i g, held i = some g → ∀ t ∈ timers, t.generation ≠ g
  apart : ∀ i j g, held i = some g → held j = some g → i = j

section Places

variable {timers : List Timer} {held : Nat → Option Nat} {current : Nat}

theorem Places.same (h : Places timers held current) {held' : Nat → Option Nat}
    (hsame : ∀ i g, held' i = some g → held i = some g) : Places timers held' current where
  accepted := h.accepted
  bounded i g hi := h.bounded i g (hsame i g hi)
  once := h.once
  free i g hi := h.free i g (hsame i g hi)
  apart i j g hi hj := h.apart i j g (hsame i g hi) (hsame j g hj)

/-- A call takes the next generation. -/
theorem Places.fresh (h : Places timers held current) (id : Nat) :
    Places timers (Function.update held id (some (current + 1))) (current + 1) where
  accepted t ht := Nat.le_succ_of_le (h.accepted t ht)
  bounded i g hi := by
    rw [Function.update_apply] at hi
    split at hi
    · cases hi
      exact Nat.le_refl _
    · exact Nat.le_succ_of_le (h.bounded i g hi)
  once := h.once
  free i g hi t ht := by
    rw [Function.update_apply] at hi
    split at hi
    · cases hi
      have := h.accepted t ht
      omega
    · exact h.free i g hi t ht
  apart i j g hi hj := by
    rw [Function.update_apply] at hi hj
    split at hi <;> split at hj
    · simp_all
    · cases hi
      have := h.bounded j _ hj
      omega
    · cases hj
      have := h.bounded i _ hi
      omega
    · exact h.apart i j g hi hj

/-- A call puts its generation on a timer. -/
theorem Places.accept (h : Places timers held current) {id g : Nat} (hid : held id = some g)
    (due : Int) : Places (timers ++ [⟨g, due⟩]) (Function.update held id none) current where
  accepted t ht := by
    rcases List.mem_append.mp ht with ht | ht
    · exact h.accepted t ht
    · rw [List.mem_singleton.mp ht]
      exact h.bounded id g hid
  bounded i g' hi := by
    rw [Function.update_apply] at hi
    split at hi
    · cases hi
    · exact h.bounded i g' hi
  once := by
    rw [List.map_append]
    refine List.nodup_append.mpr ⟨h.once, List.nodup_singleton _, ?_⟩
    intro a ha b hb
    obtain ⟨t, ht, rfl⟩ := List.mem_map.mp ha
    rw [List.mem_singleton.mp hb]
    exact h.free id g hid t ht
  free i g' hi t ht := by
    rw [Function.update_apply] at hi
    split at hi
    · cases hi
    · rename_i hne
      rcases List.mem_append.mp ht with ht | ht
      · exact h.free i g' hi t ht
      · rw [List.mem_singleton.mp ht]
        rintro rfl
        exact hne (h.apart i id _ hi hid)
  apart i j g' hi hj := by
    rw [Function.update_apply] at hi hj
    split at hi
    · cases hi
    · split at hj
      · cases hj
      · exact h.apart i j g' hi hj

/-- A call takes its generation from a timer. -/
theorem Places.take (h : Places timers held current) {id place : Nat} {timer : Timer}
    (hid : held id = none) (htimer : timers[place]? = some timer) :
    Places (timers.eraseIdx place) (Function.update held id (some timer.generation)) current := by
  have hmem : timer ∈ timers := List.mem_of_getElem? htimer
  have hrest : ∀ t ∈ timers.eraseIdx place, t ∈ timers := fun t ht => List.mem_of_mem_eraseIdx ht
  -- the generations are all different, so none of the others is the one taken
  have hother : ∀ t ∈ timers.eraseIdx place, t.generation ≠ timer.generation := by
    obtain ⟨hlt, hget⟩ := List.getElem?_eq_some_iff.mp htimer
    have hnodup := h.once
    intro t ht heq
    obtain ⟨k, hk, hne, hkt⟩ := List.mem_eraseIdx_iff_getElem.mp ht
    have hk : k < (timers.map Timer.generation).length := by rwa [List.length_map]
    have hplace : place < (timers.map Timer.generation).length := by rwa [List.length_map]
    have hsame : (timers.map Timer.generation)[k] = (timers.map Timer.generation)[place] := by
      rw [List.getElem_map, List.getElem_map, hkt, hget, heq]
    exact hne (hnodup.getElem_inj_iff.mp hsame)
  refine ⟨fun t ht => h.accepted t (hrest t ht), fun i g hi => ?_,
    (h.once.sublist ((List.eraseIdx_sublist timers place).map _)), fun i g hi t ht => ?_,
    fun i j g hi hj => ?_⟩
  · rw [Function.update_apply] at hi
    split at hi
    · cases hi
      exact h.accepted timer hmem
    · exact h.bounded i g hi
  · rw [Function.update_apply] at hi
    split at hi
    · cases hi
      exact hother t ht
    · exact h.free i g hi t (hrest t ht)
  · rw [Function.update_apply] at hi hj
    split at hi <;> split at hj
    · simp_all
    · cases hi
      exact absurd rfl (h.free j _ hj timer hmem)
    · cases hj
      exact absurd rfl (h.free i _ hi timer hmem)
    · exact h.apart i j g hi hj

end Places

/-! ## The invariant -/

/-- A `NotifyAfter` that has returned true, or may still. -/
def Claims (w : World) (p : Promise) : Prop :=
  p ∈ w.promised ∨ ∃ id, w.call id = some (.accepted p) ∨ ∃ g, w.call id = some (.submit g p)

/-- It has had its `Notify`, or a timer that has fired is about to call it. -/
def Met (w : World) (p : Promise) : Prop :=
  p.notified < w.notified ∨ ∃ id, w.call id = some .notify

/-- The current generation is somewhere. -/
def Armed (w : World) (due : Int) : Prop :=
  ⟨w.delayedGeneration, due⟩ ∈ w.timers
  ∨ ∃ id, (∃ p, w.call id = some (.submit w.delayedGeneration p) ∧ p.due = due)
    ∨ w.call id = some (.fire w.delayedGeneration)
    ∨ w.call id = some (.refused w.delayedGeneration)

structure Inv (w : World) : Prop where
  running : w.stopped = false
  places : Places w.timers (held w) w.delayedGeneration
  armed : ∀ due, w.delayedDue = some due → Armed w due
  fresh : ∀ id p, w.call id = some (.submit w.delayedGeneration p) → w.delayedDue = some p.due
  past : ∀ p, Claims w p → p.notified ≤ w.notified
  kept : ∀ p, Claims w p → Met w p ∨ ∃ due, w.delayedDue = some due ∧ due ≤ p.due

theorem inv_start : Inv {} where
  running := rfl
  places :=
    { accepted := fun t ht => absurd ht List.not_mem_nil
      bounded := fun i g h => by cases h
      once := List.nodup_nil
      free := fun i g h => by cases h
      apart := fun i j g h => by cases h }
  armed due h := by cases h
  fresh id p h := by cases h
  past p h := by
    rcases h with h | ⟨id, h | ⟨g, h⟩⟩ <;> cases h
  kept p h := by
    rcases h with h | ⟨id, h | ⟨g, h⟩⟩ <;> cases h

/-! ## One call moves -/

variable {u : World} {x : Option Phase}

theorem held_of (hcall : u.call = Function.update w.call id x) :
    held u = Function.update (held w) id (x.bind generation) := by
  funext i
  unfold held
  rw [hcall, Function.update_apply, Function.update_apply]
  split <;> rfl

theorem call_other (hcall : u.call = Function.update w.call id x) {i : Nat} (hne : i ≠ id) :
    u.call i = w.call i := by
  rw [hcall, Function.update_of_ne hne]

theorem call_self (hcall : u.call = Function.update w.call id x) : u.call id = x := by
  rw [hcall, Function.update_self]

/-- A claim is the one the move makes, or there was one before. -/
theorem claims_of (hcall : u.call = Function.update w.call id x) {more : List Promise}
    (hpromised : u.promised = w.promised ++ more) (h : Claims u p) :
    (p ∈ more ∨ x = some (.accepted p) ∨ ∃ g, x = some (.submit g p)) ∨ Claims w p := by
  rcases h with h | ⟨i, h⟩
  · rw [hpromised] at h
    rcases List.mem_append.mp h with h | h
    · exact .inr (.inl h)
    · exact .inl (.inl h)
  · by_cases hi : i = id
    · rw [hi, call_self hcall] at h
      exact .inl (.inr h)
    · rw [call_other hcall hi] at h
      exact .inr (.inr ⟨i, h⟩)

theorem met_of (hcall : u.call = Function.update w.call id x) (hnotified : w.notified ≤ u.notified)
    (hne : w.call id ≠ some .notify) (h : Met w p) : Met u p := by
  rcases h with h | ⟨i, h⟩
  · exact .inl (Nat.lt_of_lt_of_le h hnotified)
  · refine .inr ⟨i, ?_⟩
    rw [call_other hcall fun hi => hne (hi ▸ h)]
    exact h

/-- What the armed deadline rests on is elsewhere. -/
theorem armed_of (hcall : u.call = Function.update w.call id x)
    (htimers : ∀ t ∈ w.timers, t ∈ u.timers) (hcurrent : u.delayedGeneration = w.delayedGeneration)
    (hne : held w id ≠ some w.delayedGeneration) {due : Int} (h : Armed w due) : Armed u due := by
  unfold Armed
  rw [hcurrent]
  rcases h with h | ⟨i, h⟩
  · exact .inl (htimers _ h)
  · refine .inr ⟨i, ?_⟩
    have hi : i ≠ id := by
      rintro rfl
      unfold held at hne
      rcases h with ⟨p, h, -⟩ | h | h <;> rw [h] at hne <;> exact hne rfl
    rw [call_other hcall hi]
    exact h

/-- The move of a call the armed deadline does not rest on, to where it has no generation and promises
nothing. -/
theorem Inv.aside (h : Inv w) (hcall : u.call = Function.update w.call id x)
    (hbefore : w.delayedDue = none ∨ held w id ≠ some w.delayedGeneration)
    (hnotify : w.call id ≠ some .notify)
    (hafter : x.bind generation = none ∧ ∀ p, x ≠ some (.accepted p))
    (hrest : u = { w with
      call := u.call, rejected := u.rejected, staleDelayed := u.staleDelayed }) : Inv u := by
  have hsame : u.stopped = w.stopped ∧ u.timers = w.timers ∧ u.delayedDue = w.delayedDue
      ∧ u.delayedGeneration = w.delayedGeneration ∧ u.promised = w.promised
      ∧ u.notified = w.notified := by
    rw [hrest]
    exact ⟨rfl, rfl, rfl, rfl, rfl, rfl⟩
  obtain ⟨hstopped, htimers, hdue, hcurrent, hpromised, hnotified⟩ := hsame
  have hclaims : ∀ p, Claims u p → Claims w p := by
    intro p hp
    rcases claims_of hcall (hpromised.trans (List.append_nil _).symm) hp with
      (hp | hp | ⟨g, hp⟩) | hp
    · exact absurd hp List.not_mem_nil
    · exact absurd hp (hafter.2 p)
    · rw [hp] at hafter
      cases hafter.1
    · exact hp
  refine ⟨hstopped.trans h.running, ?_, fun due hd => ?_, fun i p hi => ?_, fun p hp => ?_,
    fun p hp => ?_⟩
  · rw [held_of hcall, htimers, hcurrent]
    refine h.places.same fun i g hi => ?_
    rw [Function.update_apply] at hi
    split at hi
    · rw [hafter.1] at hi
      cases hi
    · exact hi
  · rw [hdue] at hd
    refine armed_of hcall (fun t ht => htimers ▸ ht) hcurrent (hbefore.resolve_left ?_)
      (h.armed due hd)
    rw [hd]
    exact Option.some_ne_none due
  · rw [hdue]
    by_cases hne : i = id
    · rw [hne, call_self hcall] at hi
      rw [hi] at hafter
      cases hafter.1
    · rw [call_other hcall hne, hcurrent] at hi
      exact h.fresh i p hi
  · exact hnotified ▸ h.past p (hclaims p hp)
  · rw [hdue]
    exact (h.kept p (hclaims p hp)).imp_left (met_of hcall (Nat.le_of_eq hnotified.symm) hnotify)

/-! ## The steps -/

/-- A call returns true, counting on what is there. -/
theorem Inv.promise (h : Inv w) (hbefore : held w id = none ∧ w.call id ≠ some .notify)
    (hpast : p.notified ≤ w.notified)
    (hkept : Met w p ∨ ∃ due, w.delayedDue = some due ∧ due ≤ p.due) :
    Inv { w.done id with promised := w.promised ++ [p] } := by
  have hcall : ({ w.done id with promised := w.promised ++ [p] } : World).call
      = Function.update w.call id none := rfl
  have hmet : ∀ q, Met w q → Met { w.done id with promised := w.promised ++ [p] } q :=
    fun q => met_of hcall (Nat.le_refl _) hbefore.2
  have hclaims : ∀ q, Claims { w.done id with promised := w.promised ++ [p] } q →
      q = p ∨ Claims w q := by
    intro q hq
    rcases claims_of hcall rfl hq with (hq | hq | ⟨g, hq⟩) | hq
    · exact .inl (List.mem_singleton.mp hq)
    · cases hq
    · cases hq
    · exact .inr hq
  refine ⟨h.running, ?_, fun due hd => ?_, fun i q hi => ?_, fun q hq => ?_, fun q hq => ?_⟩
  · rw [held_of hcall]
    refine h.places.same fun i g hi => ?_
    rw [Function.update_apply] at hi
    split at hi
    · cases hi
    · exact hi
  · exact armed_of hcall (fun t ht => ht) rfl (by rw [hbefore.1]; exact Option.some_ne_none _ ∘ Eq.symm)
      (h.armed due hd)
  · by_cases hne : i = id
    · rw [hne, call_self hcall] at hi
      cases hi
    · rw [call_other hcall hne] at hi
      exact h.fresh i q hi
  · rcases hclaims q hq with rfl | hq
    · exact hpast
    · exact h.past q hq
  · rcases hclaims q hq with rfl | hq
    · exact hkept.imp_left (hmet q)
    · exact (h.kept q hq).imp_left (hmet q)

/-- A call arms an earlier deadline than the one there, under the next generation. -/
theorem inv_armed (h : Inv w) {due : Int} (hid : w.call id = some (.arm due))
    (hearlier : ∀ d, w.delayedDue = some d → due < d) :
    Inv ({ w with
      delayedGeneration := w.delayedGeneration + 1, delayedDue := some due }.goto id
        (.submit (w.delayedGeneration + 1) { due, notified := w.notified })) := by
  generalize hu : World.goto _ id _ = u
  have hcall : u.call = Function.update w.call id
      (some (.submit (w.delayedGeneration + 1) { due, notified := w.notified })) := by
    rw [← hu]
    rfl
  have hdue : u.delayedDue = some due := by rw [← hu]; rfl
  have hcurrent : u.delayedGeneration = w.delayedGeneration + 1 := by rw [← hu]; rfl
  have hpromised : u.promised = w.promised ++ [] := by rw [← hu, List.append_nil]; rfl
  have hnotified : u.notified = w.notified := by rw [← hu]; rfl
  have hclaims : ∀ q, Claims u q → q = { due, notified := w.notified } ∨ Claims w q := by
    intro q hq
    rcases claims_of hcall hpromised hq with (hq | hq | ⟨g, hq⟩) | hq
    · exact absurd hq List.not_mem_nil
    · cases hq
    · cases hq
      exact .inl rfl
    · exact .inr hq
  refine ⟨by rw [← hu]; exact h.running, ?_, fun d hd => ?_, fun i q hi => ?_, fun q hq => ?_,
    fun q hq => ?_⟩
  · rw [held_of hcall, hcurrent, show u.timers = w.timers by rw [← hu]; rfl]
    exact h.places.fresh id
  · rw [hdue] at hd
    cases hd
    refine .inr ⟨id, .inl ⟨{ due, notified := w.notified }, ?_, rfl⟩⟩
    rw [call_self hcall, hcurrent]
  · rw [hcurrent] at hi
    by_cases hne : i = id
    · rw [hne, call_self hcall] at hi
      cases hi
      exact hdue
    · rw [call_other hcall hne] at hi
      have := h.places.bounded i (w.delayedGeneration + 1) (by unfold held; rw [hi]; rfl)
      omega
  · rw [hnotified]
    rcases hclaims q hq with rfl | hq
    · exact Nat.le_refl _
    · exact h.past q hq
  · rcases hclaims q hq with rfl | hq
    · exact .inr ⟨due, hdue, Int.le_refl _⟩
    · rcases h.kept q hq with hmet | ⟨d, hd, hle⟩
      · exact .inl (met_of hcall (Nat.le_of_eq hnotified.symm) (by rw [hid]; simp) hmet)
      · exact .inr ⟨due, hdue, Int.le_trans (Int.le_of_lt (hearlier d hd)) hle⟩

/-- The submitter accepts: the generation is on a timer. -/
theorem inv_accept (h : Inv w) (hid : w.call id = some (.submit g p)) :
    Inv ({ w with timers := w.timers ++ [Timer.mk g p.due] }.goto id (.accepted p)) := by
  generalize hu : World.goto _ id _ = u
  have hcall : u.call = Function.update w.call id (some (.accepted p)) := by rw [← hu]; rfl
  have hheld : held w id = some g := by unfold held; rw [hid]; rfl
  have hdue : u.delayedDue = w.delayedDue := by rw [← hu]; rfl
  have hcurrent : u.delayedGeneration = w.delayedGeneration := by rw [← hu]; rfl
  have htimers : u.timers = w.timers ++ [Timer.mk g p.due] := by rw [← hu]; rfl
  have hpromised : u.promised = w.promised ++ [] := by rw [← hu, List.append_nil]; rfl
  have hnotified : u.notified = w.notified := by rw [← hu]; rfl
  have hclaims : ∀ q, Claims u q → Claims w q := by
    intro q hq
    rcases claims_of hcall hpromised hq with (hq | hq | ⟨g', hq⟩) | hq
    · exact absurd hq List.not_mem_nil
    · cases hq
      exact .inr ⟨id, .inr ⟨g, hid⟩⟩
    · cases hq
    · exact hq
  refine ⟨by rw [← hu]; exact h.running, ?_, fun d hd => ?_, fun i q hi => ?_, fun q hq => ?_,
    fun q hq => ?_⟩
  · rw [held_of hcall, hcurrent, htimers]
    exact h.places.accept hheld p.due
  · rw [hdue] at hd
    by_cases hg : g = w.delayedGeneration
    · -- the deadline armed is this call's own
      have hown := h.fresh id p (hg ▸ hid)
      rw [hd, Option.some.injEq] at hown
      refine .inl ?_
      rw [htimers, hcurrent, ← hg, hown]
      exact List.mem_append_right _ (List.mem_singleton_self _)
    · refine armed_of hcall (fun t ht => ?_) hcurrent ?_ (h.armed d hd)
      · rw [htimers]
        exact List.mem_append_left _ ht
      · rw [hheld]
        exact fun heq => hg (Option.some.inj heq)
  · rw [hdue]
    by_cases hne : i = id
    · rw [hne, call_self hcall] at hi
      cases hi
    · rw [call_other hcall hne, hcurrent] at hi
      exact h.fresh i q hi
  · exact hnotified ▸ h.past q (hclaims q hq)
  · rw [hdue]
    exact (h.kept q (hclaims q hq)).imp_left
      (met_of hcall (Nat.le_of_eq hnotified.symm) (by rw [hid]; simp))

/-- The submitter refuses, and the call goes on to withdraw. -/
theorem inv_refuse (h : Inv w) (hid : w.call id = some (.submit g p)) :
    Inv (w.goto id (.refused g)) := by
  have hcall : (w.goto id (.refused g)).call = Function.update w.call id (some (.refused g)) := rfl
  have hheld : held w id = some g := by unfold held; rw [hid]; rfl
  have hclaims : ∀ q, Claims (w.goto id (.refused g)) q → Claims w q := by
    intro q hq
    rcases claims_of hcall (List.append_nil _).symm hq with (hq | hq | ⟨g', hq⟩) | hq
    · exact absurd hq List.not_mem_nil
    · cases hq
    · cases hq
    · exact hq
  refine ⟨h.running, ?_, fun d hd => ?_, fun i q hi => ?_, fun q hq => h.past q (hclaims q hq),
    fun q hq => (h.kept q (hclaims q hq)).imp_left
      (met_of hcall (Nat.le_refl _) (by rw [hid]; simp))⟩
  · rw [held_of hcall]
    refine h.places.same fun i g' hi => ?_
    rw [Function.update_apply] at hi
    split at hi
    · rename_i hne
      rw [hne, hheld]
      exact hi
    · exact hi
  · by_cases hg : g = w.delayedGeneration
    · refine .inr ⟨id, .inr (.inr ?_)⟩
      rw [call_self hcall, hg]
      rfl
    · refine armed_of hcall (fun t ht => ht) rfl ?_ (h.armed d hd)
      rw [hheld]
      exact fun heq => hg (Option.some.inj heq)
  · by_cases hne : i = id
    · rw [hne, call_self hcall] at hi
      cases hi
    · rw [call_other hcall hne] at hi
      exact h.fresh i q hi

/-- A deadline is disarmed by the call that holds its generation. Whoever counted on it has had a
`Notify`, or has one under way. -/
theorem Inv.disarm (h : Inv w) {phase : Phase} (hheld : held w id = some w.delayedGeneration)
    (hbefore : w.call id ≠ some .notify)
    (hafter : generation phase = none ∧ ∀ q, phase ≠ .accepted q)
    (hmet : ∀ q, Claims w q → Met ({ w with delayedDue := none }.goto id phase) q) :
    Inv ({ w with delayedDue := none }.goto id phase) := by
  generalize hu : World.goto _ id phase = u at hmet ⊢
  have hcall : u.call = Function.update w.call id (some phase) := by rw [← hu]; rfl
  have hdue : u.delayedDue = none := by rw [← hu]; rfl
  have hcurrent : u.delayedGeneration = w.delayedGeneration := by rw [← hu]; rfl
  have htimers : u.timers = w.timers := by rw [← hu]; rfl
  have hpromised : u.promised = w.promised ++ [] := by rw [← hu, List.append_nil]; rfl
  have hnotified : u.notified = w.notified := by rw [← hu]; rfl
  have hclaims : ∀ q, Claims u q → Claims w q := by
    intro q hq
    rcases claims_of hcall hpromised hq with (hq | hq | ⟨g', hq⟩) | hq
    · exact absurd hq List.not_mem_nil
    · exact absurd (Option.some.inj hq) (hafter.2 q)
    · rw [Option.some.inj hq] at hafter
      cases hafter.1
    · exact hq
  refine ⟨by rw [← hu]; exact h.running, ?_, fun d hd => ?_, fun i q hi => ?_, fun q hq => ?_,
    fun q hq => .inl (hmet q (hclaims q hq))⟩
  · rw [held_of hcall, hcurrent, htimers]
    refine h.places.same fun i g hi => ?_
    rw [Function.update_apply] at hi
    split at hi
    · rw [Option.bind_some, hafter.1] at hi
      cases hi
    · exact hi
  · rw [hdue] at hd
    cases hd
  · rw [hcurrent] at hi
    by_cases hne : i = id
    · rw [hne, call_self hcall] at hi
      rw [Option.some.inj hi] at hafter
      cases hafter.1
    · -- no other call can be submitting the generation this one holds
      rw [call_other hcall hne] at hi
      exact absurd (h.places.apart i id _ (by unfold held; rw [hi]; rfl) hheld) hne
  · exact hnotified ▸ h.past q (hclaims q hq)

/-- The submitter runs a timer. -/
theorem inv_take (h : Inv w) {place : Nat} {timer : Timer} (hid : w.call id = none)
    (htimer : w.timers[place]? = some timer) :
    Inv ({ w with timers := w.timers.eraseIdx place }.goto id (.fire timer.generation)) := by
  generalize hu : World.goto _ id _ = u
  have hcall : u.call = Function.update w.call id (some (.fire timer.generation)) := by
    rw [← hu]
    rfl
  have hheld : held w id = none := by unfold held; rw [hid]; rfl
  have hdue : u.delayedDue = w.delayedDue := by rw [← hu]; rfl
  have hcurrent : u.delayedGeneration = w.delayedGeneration := by rw [← hu]; rfl
  have htimers : u.timers = w.timers.eraseIdx place := by rw [← hu]; rfl
  have hpromised : u.promised = w.promised ++ [] := by rw [← hu, List.append_nil]; rfl
  have hnotified : u.notified = w.notified := by rw [← hu]; rfl
  have hclaims : ∀ q, Claims u q → Claims w q := by
    intro q hq
    rcases claims_of hcall hpromised hq with (hq | hq | ⟨g', hq⟩) | hq
    · exact absurd hq List.not_mem_nil
    · cases hq
    · cases hq
    · exact hq
  refine ⟨by rw [← hu]; exact h.running, ?_, fun d hd => ?_, fun i q hi => ?_, fun q hq => ?_,
    fun q hq => ?_⟩
  · rw [held_of hcall, hcurrent, htimers]
    exact h.places.take hheld htimer
  · rw [hdue] at hd
    unfold Armed
    rw [hcurrent, htimers]
    rcases h.armed d hd with hmem | ⟨i, hi⟩
    · -- the timer that runs may be the one the deadline rests on
      by_cases heq : timer = ⟨w.delayedGeneration, d⟩
      · refine .inr ⟨id, .inr (.inl ?_)⟩
        rw [call_self hcall, heq]
      · refine .inl ?_
        obtain ⟨k, hk, hget⟩ := List.mem_iff_getElem.mp hmem
        refine List.mem_eraseIdx_iff_getElem.mpr ⟨k, hk, ?_, hget⟩
        rintro rfl
        rw [List.getElem?_eq_getElem hk, hget] at htimer
        exact heq (Option.some.inj htimer).symm
    · refine .inr ⟨i, ?_⟩
      have hne : i ≠ id := by
        rintro rfl
        rw [hid] at hi
        rcases hi with ⟨q, hi, -⟩ | hi | hi <;> cases hi
      rw [call_other hcall hne]
      exact hi
  · rw [hdue]
    by_cases hne : i = id
    · rw [hne, call_self hcall] at hi
      cases hi
    · rw [call_other hcall hne, hcurrent] at hi
      exact h.fresh i q hi
  · exact hnotified ▸ h.past q (hclaims q hq)
  · rw [hdue]
    exact (h.kept q (hclaims q hq)).imp_left
      (met_of hcall (Nat.le_of_eq hnotified.symm) (by rw [hid]; simp))

/-- Every claim is met once there is one more `Notify`. -/
theorem Inv.notified (h : Inv w) (hcall : u.call = Function.update w.call id x)
    (hbefore : held w id = none) (hafter : x = none ∨ x = w.call id)
    (hrest : u = { w with call := u.call, notified := w.notified + 1 }) : Inv u := by
  have hsame : u.stopped = w.stopped ∧ u.timers = w.timers ∧ u.delayedDue = w.delayedDue
      ∧ u.delayedGeneration = w.delayedGeneration ∧ u.promised = w.promised ++ []
      ∧ u.notified = w.notified + 1 := by
    rw [hrest]
    exact ⟨rfl, rfl, rfl, rfl, (List.append_nil _).symm, rfl⟩
  obtain ⟨hstopped, htimers, hdue, hcurrent, hpromised, hnotified⟩ := hsame
  have hnone : x.bind generation = none := by
    rcases hafter with rfl | rfl
    · rfl
    · exact hbefore
  have hclaims : ∀ p, Claims u p → Claims w p := by
    intro p hp
    rcases claims_of hcall hpromised hp with (hp | hp | ⟨g, hp⟩) | hp
    · exact absurd hp List.not_mem_nil
    · rcases hafter with rfl | rfl
      · cases hp
      · exact .inr ⟨id, .inl hp⟩
    · rw [hp] at hnone
      cases hnone
    · exact hp
  refine ⟨hstopped.trans h.running, ?_, fun due hd => ?_, fun i p hi => ?_, fun p hp => ?_,
    fun p hp => .inl (.inl ?_)⟩
  · rw [held_of hcall, htimers, hcurrent]
    refine h.places.same fun i g hi => ?_
    rw [Function.update_apply] at hi
    split at hi
    · rw [hnone] at hi
      cases hi
    · exact hi
  · refine armed_of hcall (fun t ht => htimers ▸ ht) hcurrent ?_ (h.armed due (hdue ▸ hd))
    rw [hbefore]
    exact Option.some_ne_none _ ∘ Eq.symm
  · rw [hdue]
    by_cases hne : i = id
    · rw [hne, call_self hcall] at hi
      rw [hi] at hnone
      cases hnone
    · rw [call_other hcall hne, hcurrent] at hi
      exact h.fresh i p hi
  · exact hnotified ▸ Nat.le_succ_of_le (h.past p (hclaims p hp))
  · exact hnotified ▸ Nat.lt_succ_of_le (h.past p (hclaims p hp))

theorem inv_arm (h : Inv w) {due : Int} (hid : w.call id = some (.arm due)) :
    Inv (w.arm submitDelayed id due) := by
  have hheld : held w id = none := by unfold held; rw [hid]; rfl
  have hnotify : w.call id ≠ some .notify := by rw [hid]; simp
  unfold World.arm
  split
  · exact h.aside rfl (.inr (by rw [hheld]; simp)) hnotify ⟨rfl, fun p => by simp⟩ rfl
  · split
    · rename_i hcoalesced
      obtain ⟨armed, harmed, hle⟩ := (Option.any_eq_true _ _).mp hcoalesced
      exact h.promise ⟨hheld, hnotify⟩ (Nat.le_refl _) (.inr ⟨armed, harmed, of_decide_eq_true hle⟩)
    · rename_i hnot
      refine inv_armed h hid fun d hd => ?_
      rw [hd] at hnot
      simpa using hnot

theorem inv_fire (h : Inv w) (hid : w.call id = some (.fire g)) : Inv (w.fire id g) := by
  have hheld : held w id = some g := by unfold held; rw [hid]; rfl
  have hnotify : w.call id ≠ some .notify := by rw [hid]; simp
  unfold World.fire
  rw [if_neg (by rw [h.running]; decide)]
  split
  · rename_i hstale
    refine h.aside rfl (hstale.imp_right fun hne => ?_) hnotify ⟨rfl, fun p => by simp⟩ rfl
    rw [hheld]
    exact fun heq => hne (Option.some.inj heq)
  · rename_i hlive
    have hcurrent : g = w.delayedGeneration := by
      by_contra hne
      exact hlive (.inr hne)
    refine h.disarm (hheld.trans (congrArg some hcurrent)) hnotify ⟨rfl, fun q => by simp⟩
      fun q _ => .inr ⟨id, ?_⟩
    exact Function.update_self _ _ _

/-- A refused call withdraws its deadline, while that is the one armed, only when every other
`NotifyAfter` that has returned true or may still return it has had its `Notify` or has one under
way. -/
def Honoured (w : World) : Action → Prop
  | .step id _ => w.call id = some (.refused w.delayedGeneration) → ∀ p, Claims w p → Met w p
  | .stop => False
  | .disarm => False
  | _ => True

theorem inv_refused (h : Inv w) (hid : w.call id = some (.refused g))
    (hc : w.call id = some (.refused w.delayedGeneration) → ∀ p, Claims w p → Met w p) :
    Inv (w.advance submitDelayed id answer (.refused g)) := by
  have hheld : held w id = some g := by unfold held; rw [hid]; rfl
  have hnotify : w.call id ≠ some .notify := by rw [hid]; simp
  simp only [World.advance]
  split
  · rename_i hcurrent
    refine h.disarm (hheld.trans (congrArg some hcurrent.symm)) hnotify ⟨rfl, fun q => by simp⟩
      fun q hq => ?_
    have hcall : ({ w with delayedDue := none }.goto id .reject).call
        = Function.update w.call id (some .reject) := rfl
    exact met_of hcall (Nat.le_refl _) hnotify (hc (hcurrent ▸ hid) q hq)
  · rename_i hstale
    refine h.aside (x := some .reject) rfl (.inr ?_) hnotify ⟨rfl, fun p => by simp⟩ rfl
    rw [hheld]
    exact fun heq => hstale (Option.some.inj heq).symm

theorem inv_advance (h : Inv w) {phase : Phase} (hid : w.call id = some phase)
    (hc : w.call id = some (.refused w.delayedGeneration) → ∀ p, Claims w p → Met w p) :
    Inv (w.advance submitDelayed id answer phase) := by
  cases phase with
  | arm due => exact inv_arm h hid
  | submit g p =>
    simp only [World.advance]
    split
    · exact inv_accept h hid
    · exact inv_refuse h hid
  | accepted p =>
    have hp : Claims w p := .inr ⟨id, .inl hid⟩
    exact h.promise ⟨by unfold held; rw [hid]; rfl, by rw [hid]; simp⟩ (h.past p hp) (h.kept p hp)
  | refused g => exact inv_refused h hid hc
  | reject =>
    have hcall : (w.advance submitDelayed id answer .reject).call = Function.update w.call id none :=
      rfl
    exact h.aside hcall (.inr (by unfold held; rw [hid]; simp [generation])) (by rw [hid]; simp)
      ⟨rfl, fun p => by simp⟩ rfl
  | fire g => exact inv_fire h hid
  | notify =>
    have hcall : (w.advance submitDelayed id answer .notify).call = Function.update w.call id none :=
      rfl
    exact h.notified hcall (by unfold held; rw [hid]; rfl) (.inl rfl) rfl

/-- **Step lemma.** -/
theorem inv_step {a : Action} (h : Inv w) (hc : Honoured w a) (hs : step submitDelayed w a = some w') :
    Inv w' := by
  cases a with
  | notifyAfter id due =>
    simp only [step] at hs
    split at hs
    · rename_i hid
      cases hs
      have hcall : (w.goto id (.arm due)).call = Function.update w.call id (some (.arm due)) := rfl
      exact h.aside hcall (.inr (by unfold held; rw [hid]; simp)) (by rw [hid]; simp)
        ⟨rfl, fun p => by simp⟩ rfl
    · cases hs
  | timer id place =>
    simp only [step] at hs
    split at hs
    · cases hs
      exact inv_take h ‹_› ‹_›
    · cases hs
  | step id answer =>
    simp only [step, Option.map_eq_some_iff] at hs
    obtain ⟨phase, hid, rfl⟩ := hs
    exact inv_advance h hid hc
  | notify =>
    cases hs
    exact ⟨h.running, h.places, h.armed, h.fresh, fun p hp => Nat.le_succ_of_le (h.past p hp),
      fun p hp => .inl (.inl (Nat.lt_succ_of_le (h.past p hp)))⟩
  | stop => exact hc.elim
  | disarm => exact hc.elim

theorem inv_within (h : Run.Within (step submitDelayed) Honoured {} w) : Inv w :=
  h.invariant inv_start fun _ hi hc hs => inv_step hi hc hs

/-! ## Calls an action leaves alone -/

/-- The call an action is of. -/
def on : Action → Option Nat
  | .notifyAfter id _ => some id
  | .timer id _ => some id
  | .step id _ => some id
  | _ => none

theorem advance_other {i : Nat} (phase : Phase) (hne : i ≠ id) :
    (w.advance submitDelayed id answer phase).call i = w.call i := by
  cases phase with
  | arm due =>
    simp only [World.advance, World.arm]
    split
    · exact Function.update_of_ne hne _ _
    · split <;> exact Function.update_of_ne hne _ _
  | submit g p =>
    simp only [World.advance]
    split <;> exact Function.update_of_ne hne _ _
  | refused g =>
    simp only [World.advance]
    split <;> exact Function.update_of_ne hne _ _
  | fire g =>
    simp only [World.advance, World.fire]
    split
    · exact Function.update_of_ne hne _ _
    · split <;> exact Function.update_of_ne hne _ _
  | accepted p => exact Function.update_of_ne hne _ _
  | reject => exact Function.update_of_ne hne _ _
  | notify => exact Function.update_of_ne hne _ _

theorem step_other {a : Action} {i : Nat} (hs : step submitDelayed w a = some w')
    (hi : on a ≠ some i) : w'.call i = w.call i := by
  have hne : ∀ id, on a = some id → i ≠ id := fun id hon heq => hi (heq ▸ hon)
  cases a with
  | notifyAfter id due =>
    simp only [step] at hs
    split at hs <;> cases hs
    exact Function.update_of_ne (hne id rfl) _ _
  | timer id place =>
    simp only [step] at hs
    split at hs <;> cases hs
    exact Function.update_of_ne (hne id rfl) _ _
  | step id answer =>
    simp only [step, Option.map_eq_some_iff] at hs
    obtain ⟨phase, -, rfl⟩ := hs
    exact advance_other phase (hne id rfl)
  | notify => cases hs; rfl
  | stop => cases hs; rfl
  | disarm =>
    simp only [step] at hs
    split at hs <;> cases hs
    rfl

theorem exec_other {as : List Action} {i : Nat} (hs : Run.exec (step submitDelayed) w as = some w')
    (hi : ∀ a ∈ as, on a ≠ some i) : w'.call i = w.call i := by
  induction as generalizing w with
  | nil =>
    cases hs
    rfl
  | cons a as ih =>
    obtain ⟨v, hv, hs⟩ := Option.bind_eq_some_iff.mp hs
    rw [ih hs fun b hb => hi b (List.mem_cons_of_mem _ hb),
      step_other hv (hi a List.mem_cons_self)]

end ModuleServices.Delayed.Proof

namespace ModuleServices.Delayed

open Proof

/-- The firing of a timer will call `Notify`: it is not stale. -/
def Live (w : World) (t : Timer) : Prop := ∀ id, (w.fire id t.generation).call id = some .notify

/-- Without a stop, and as long as no refused call withdraws a deadline others wait for: when no call
is in progress, each `NotifyAfter` that has returned true has had a `Notify` since, or an accepted
timer due no later than its deadline will call one. -/
theorem delayed_not_lost {submitDelayed : Bool} {w : World}
    (h : Run.Within (step submitDelayed) Honoured {} w) (hquiet : ∀ id, w.call id = none) :
    ∀ p ∈ w.promised, p.notified < w.notified ∨ ∃ t ∈ w.timers, t.due ≤ p.due ∧ Live w t := by
  have hinv := inv_within h
  intro p hp
  rcases hinv.kept p (.inl hp) with (hmet | ⟨id, hid⟩) | ⟨due, hdue, hle⟩
  · exact .inl hmet
  · rw [hquiet] at hid
    cases hid
  · refine .inr ?_
    rcases hinv.armed due hdue with hmem | ⟨id, hid⟩
    · refine ⟨_, hmem, hle, fun id => ?_⟩
      unfold World.fire
      rw [if_neg (by rw [hinv.running]; decide), if_neg (by rw [hdue]; simp)]
      exact Function.update_self _ _ _
    · rw [hquiet] at hid
      rcases hid with ⟨q, hid, -⟩ | hid | hid <;> cases hid

/-- Two deadlines, the second earlier, both timers accepted. -/
def earlierTrace : List Action :=
  [.notifyAfter 0 10, .step 0 true, .step 0 true, .step 0 true,
    .notifyAfter 1 5, .step 1 true, .step 1 true, .step 1 true]

def honouredCheck (w : World) : Action → Bool
  | .step id _ => w.call id ≠ some (.refused w.delayedGeneration)
  | .stop => false
  | .disarm => false
  | _ => true

theorem honoured_of_check {w : World} {a : Action} (h : honouredCheck w a = true) :
    Honoured w a := by
  cases a with
  | step id answer =>
    intro hid
    exact absurd hid (of_decide_eq_true (p := w.call id ≠ some (.refused w.delayedGeneration)) h)
  | stop => cases h
  | disarm => cases h
  | _ => trivial

theorem exec_of_checked {as : List Action} {w w' : World} {check : World → Action → Bool}
    {submitDelayed : Bool}
    (h : Run.exec (Run.checked (step submitDelayed) check) w as = some w') :
    Run.exec (step submitDelayed) w as = some w' := by
  induction as generalizing w with
  | nil => exact h
  | cons a as ih =>
    obtain ⟨v, hv, h⟩ := Option.bind_eq_some_iff.mp h
    unfold Run.checked at hv
    split at hv
    · exact Option.bind_eq_some_iff.mpr ⟨v, hv, ih h⟩
    · cases hv

theorem delayed_not_lost_earlier : ∃ w, Run.Within (step true) Honoured {} w
    ∧ w.promised.map (·.due) = [10, 5] ∧ w.notified = 0
    ∧ ∀ p ∈ w.promised, p.notified < w.notified ∨ ∃ t ∈ w.timers, t.due ≤ p.due ∧ Live w t := by
  have htrace : (Run.exec (Run.checked (step true) honouredCheck) {} earlierTrace).any (fun w =>
      w.promised.map (·.due) = [10, 5] ∧ w.notified = 0 ∧ w.call 0 = none ∧ w.call 1 = none)
      = true := by
    decide +kernel
  obtain ⟨w, hw, hshown⟩ := (Option.any_eq_true _ _).mp htrace
  obtain ⟨hpromised, hnotified, hzero, hone⟩ := of_decide_eq_true hshown
  have hwithin := Run.exec_checked_within (fun _ _ => honoured_of_check) hw
  refine ⟨w, hwithin, hpromised, hnotified, delayed_not_lost hwithin fun id => ?_⟩
  by_cases hid : id = 0 ∨ id = 1
  · rcases hid with rfl | rfl
    · exact hzero
    · exact hone
  · rw [exec_other (exec_of_checked hw) fun a ha => ?_]
    simp only [earlierTrace, List.mem_cons, List.not_mem_nil, or_false] at ha
    rcases ha with rfl | rfl | rfl | rfl | rfl | rfl | rfl | rfl <;> simp [on] <;> omega

/-- A deadline is promised; an earlier one replaces it and its timer is refused; the timer of the first
fires. -/
def refusedTrace : List Action :=
  [.notifyAfter 0 10, .step 0 true, .step 0 true, .step 0 true,
    .notifyAfter 1 5, .step 1 true, .step 1 false, .step 1 true, .step 1 true,
    .timer 0 0, .step 0 true]

/-- The first call returned true and is never notified. -/
theorem delayed_lost : ¬∀ w, Run.Reachable (step true) {} w → (∀ id, w.call id = none) →
    ∀ p ∈ w.promised, p.notified < w.notified ∨ ∃ t ∈ w.timers, t.due ≤ p.due ∧ Live w t := by
  intro h
  have htrace : (Run.exec (step true) {} refusedTrace).any (fun w =>
      w.promised = [⟨10, 0⟩] ∧ w.notified = 0 ∧ w.timers = [] ∧ w.call 0 = none ∧ w.call 1 = none)
      = true := by
    decide +kernel
  obtain ⟨w, hw, hshown⟩ := (Option.any_eq_true _ _).mp htrace
  obtain ⟨hpromised, hnotified, htimers, hzero, hone⟩ := of_decide_eq_true hshown
  have hquiet : ∀ id, w.call id = none := by
    intro id
    by_cases hid : id = 0 ∨ id = 1
    · rcases hid with rfl | rfl
      · exact hzero
      · exact hone
    · rw [exec_other hw fun a ha => ?_]
      simp only [refusedTrace, List.mem_cons, List.not_mem_nil, or_false] at ha
      rcases ha with rfl | rfl | rfl | rfl | rfl | rfl | rfl | rfl | rfl | rfl | rfl <;>
        simp [on] <;> omega
  have hlost := h w (Run.exec_reachable hw) hquiet ⟨10, 0⟩ (by rw [hpromised]; simp)
  rw [hnotified, htimers] at hlost
  rcases hlost with hlt | ⟨t, ht, -⟩
  · exact absurd hlt (by decide)
  · exact absurd ht List.not_mem_nil

end ModuleServices.Delayed
