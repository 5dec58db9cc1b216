import ModuleServices.Async.Proof.Settling

/-!
# Sealing owes every count once

The coordinator's side of the books: `Seal` opens a revision that is owed one count by each
fragment and one by itself, and attaches to the fragments, or counts for those that are
settled already. Collecting only takes revisions from the pending ones.
-/

namespace ModuleServices.Assembly.Proof

variable {α ε : Type} {w w' u : World α ε} {id r r' f g : Nat} {t t' : Option Nat}
  {call : Call α ε} {phase : Counting} {answer : Bool} {rest : List Nat}

theorem owed_attach : Coordinator.owed (World.attach r rest : Coordinator ε) = toAttach r rest := by
  funext r' t
  cases rest with
  | nil =>
    simp only [World.attach, Coordinator.owed, toAttach, one, Counting.owes, Option.isSome_none,
      Bool.false_eq_true, if_false, Nat.zero_add, List.map_nil, List.count_singleton, beq_iff_eq]
    by_cases hr : r = r' <;> simp [hr]
  | cons f rest => rfl

theorem doing_attach {k : Counting} (hk : k = .push ∨ k = .notify) :
    Coordinator.doing k (World.attach r rest : Coordinator ε) = 0 := by
  funext r'
  cases rest <;> rcases hk with rfl | rfl <;>
    simp [World.attach, Coordinator.doing, oneOf, Counting.is]

theorem toAttach_cons : toAttach r (f :: rest) = toAttach r rest + one 1 r (some f) := by
  funext r' t
  simp only [toAttach, one, Pi.add_apply, List.map_cons, List.count_cons, beq_iff_eq]
  by_cases hr : r = r'
  · simp only [hr, if_true, true_and]
    omega
  · simp [hr]

/-- What is owed by the fragments and the calls. -/
def owedElsewhere (w : World α ε) (r : Nat) (t : Option Nat) : Nat :=
  waiting w r t + (w.calls.map fun call => Call.owed call r t).sum

def doingElsewhere (k : Counting) (w : World α ε) (r : Nat) : Nat :=
  (w.calls.map fun call => Call.doing k call r).sum

theorem owed_coordinator : owed w = owedElsewhere w + Coordinator.owed w.coordinator := rfl

theorem doing_coordinator {k : Counting} :
    doing k w = doingElsewhere k w + Coordinator.doing k w.coordinator := rfl

theorem attach_ne_counting {c : Coordinator ε} (hc : c = World.attach r rest)
    (h : c = .counting r' t phase rest') : r' = r ∧ t = none ∧ phase = .countDown := by
  subst c
  cases rest with
  | nil =>
    cases h
    exact ⟨rfl, rfl, rfl⟩
  | cons f rest => cases h

/-- The coordinator does something on its own. -/
theorem Settling.alone (h : Settling w) (hfragment : u.fragment = w.fragment)
    (hrevision : u.revision = w.revision) (hcalls : u.calls = w.calls)
    (hlatest : u.latestSequence = w.latestSequence) (hcompletions : u.completions = w.completions)
    (hnotifications : u.notifications = w.notifications)
    (hrequirements : u.requirements = w.requirements)
    (hpending : ∀ r ∈ u.pending, r ∈ w.pending) (hapart : u.pending.Nodup)
    (howed : Coordinator.owed u.coordinator = Coordinator.owed w.coordinator)
    (hdoing : ∀ k, k = .push ∨ k = .notify →
      Coordinator.doing k u.coordinator = Coordinator.doing k w.coordinator)
    (hcounting : ∀ r t phase rest, u.coordinator = .counting r t phase rest →
      ReliesCount w r t phase) :
    Settling u := by
  have hwaiting : owedElsewhere u = owedElsewhere w := by
    funext r t
    unfold owedElsewhere waiting
    rw [hfragment, hcalls]
  have hmoving : ∀ k, doingElsewhere k u = doingElsewhere k w := by
    intro k
    funext r
    unfold doingElsewhere
    rw [hcalls]
  refine ⟨?_, ?_, ?_, ?_, ?_, ?_, ?_, ?_, hapart, ?_⟩
  · rw [owed_coordinator, doing_coordinator, doing_coordinator, hwaiting, hmoving, hmoving, howed,
      hdoing _ (.inl rfl), hdoing _ (.inr rfl)]
    exact h.books.mono hrevision hlatest hcompletions hnotifications hpending
      fun f _ => by rw [hfragment]
  · intro id call hid
    rw [hcalls] at hid
    have hrelies := h.relies id call hid
    exact hrelies.kept (.of_fragment hfragment (fun _ h => by rwa [hrevision])
      fun _ _ h => by rwa [hrevision]) (m := none) (by simp)
  · intro r t phase rest hc
    exact (hcounting r t phase rest hc).kept (m := none) (.of_fragment hfragment
      (fun _ h => by rwa [hrevision]) fun _ _ h => by rwa [hrevision])
  · rw [hfragment]
    exact h.claimed
  · rw [hfragment, hcalls]
    exact h.settlers
  · rw [hfragment]
    exact h.unsettled
  · rw [hfragment]
    exact h.opened
  · intro r hr
    have hsealed := h.pending r (hpending r hr)
    exact ⟨hsealed.1, hlatest ▸ hsealed.2⟩
  · unfold World.requirementsOf
    rw [hrevision, hrequirements]
    exact h.closure

/-! ## Attaching -/

theorem relies_own : ReliesCount w r none .countDown := by
  refine ⟨fun f hf => ?_, fun f hf => ?_⟩ <;> cases hf

/-- What the coordinator has still to attach to names its fragments. -/
theorem Settling.named (h : Settling w) (hc : 1 ≤ Coordinator.owed w.coordinator r (some f)) :
    some f ∈ (w.revision r).slots := by
  have hcovered := h.books.covered r (some f)
  simp only [owed_coordinator, Pi.add_apply] at hcovered
  exact h.books.named r f (List.count_pos_iff.mp (by omega))

/-- The fragment is settled already: the coordinator counts for it. -/
theorem settling_attachClosed (h : Settling w)
    (hc : w.coordinator = .attachLoad r f rest ∨ w.coordinator = .attachExchange r f rest)
    (hclosed : (w.fragment f).waiters = none) :
    Settling { w with coordinator := .counting r (some f) .readState rest } := by
  have howed : Coordinator.owed w.coordinator = toAttach r (f :: rest) := by
    rcases hc with hc | hc <;> rw [hc] <;> rfl
  have hmem : some f ∈ (w.revision r).slots := by
    refine h.named ?_
    rw [howed]
    simp [toAttach]
  refine h.alone rfl rfl rfl rfl rfl rfl rfl (fun _ hr => hr) h.apart ?_ ?_ ?_
  · rw [howed, toAttach_cons]
    rfl
  · rintro k (rfl | rfl) <;> funext r' <;> rcases hc with hc | hc <;>
      simp [hc, Coordinator.doing, oneOf, Counting.is]
  · intro r' t' phase rest' heq
    cases heq
    refine ⟨fun g hg => ?_, rfl⟩
    cases hg
    exact ⟨hmem, fun hpending => h.opened f hpending hclosed⟩

theorem settling_attachOpen (h : Settling w) (hc : w.coordinator = .attachLoad r f rest) :
    Settling { w with coordinator := .attachExchange r f rest } := by
  refine h.alone rfl rfl rfl rfl rfl rfl rfl (fun _ hr => hr) h.apart ?_ ?_ ?_
  · rw [hc]
    rfl
  · rintro k -
    rw [hc]
    rfl
  · intro r' t' phase rest' heq
    cases heq

/-- The revision joins the waiters of a fragment. -/
theorem settling_attach (h : Settling w) {waiters : List Nat}
    (hc : w.coordinator = .attachExchange r f rest)
    (hopen : (w.fragment f).waiters = some waiters) :
    Settling { w.setFragment f { w.fragment f with waiters := some (r :: waiters) } with
      coordinator := World.attach r rest } := by
  have hsame : ∀ g, ((w.setFragment f { w.fragment f with waiters := some (r :: waiters) }).fragment
        g).state = (w.fragment g).state
      ∧ ((w.setFragment f { w.fragment f with waiters := some (r :: waiters) }).fragment g).settler
        = (w.fragment g).settler
      ∧ ((w.setFragment f { w.fragment f with waiters := some (r :: waiters) }).fragment g).claimed
        = (w.fragment g).claimed := by
    intro g
    rw [fragment_setFragment]
    split <;> simp_all
  have hwaiters : ∀ g, (w.fragment g).waiters = none →
      ((w.setFragment f { w.fragment f with waiters := some (r :: waiters) }).fragment g).waiters
        = none := by
    intro g hg
    rw [fragment_setFragment]
    split
    · subst g
      rw [hopen] at hg
      cases hg
    · exact hg
  have hkept : Kept none w
      { w.setFragment f { w.fragment f with waiters := some (r :: waiters) } with
        coordinator := World.attach r rest } :=
    ⟨fun g j hj => by rw [← hj]; exact (hsame g).2.1, fun g _ => (hsame g).1,
      fun g _ _ _ => (hsame g).1, hwaiters, fun _ h => h, fun _ _ h => h⟩
  have howed : owed { w.setFragment f { w.fragment f with waiters := some (r :: waiters) } with
      coordinator := World.attach r rest } = owed w := by
    have hold : Coordinator.owed w.coordinator = toAttach r rest + one 1 r (some f) := by
      rw [hc, ← toAttach_cons]
      rfl
    rw [owed_coordinator, owed_coordinator, hold, owed_attach]
    funext r' t'
    simp only [Pi.add_apply, owedElsewhere, one]
    have hwaiting : waiting { w.setFragment f { w.fragment f with waiters := some (r :: waiters) } with
          coordinator := World.attach r rest } r' t'
        = waiting w r' t' + if r = r' ∧ some f = t' then 1 else 0 := by
      cases t' with
      | none => simp [waiting]
      | some g =>
        simp only [waiting, fragment_setFragment]
        by_cases hg : g = f
        · subst g
          simp only [if_true, hopen, Option.getD_some, List.count_cons, beq_iff_eq, and_true]
        · simp only [hg, if_false, Option.some.injEq, Ne.symm hg, and_false, Nat.add_zero]
    rw [hwaiting]
    simp only [World.setFragment]
    omega
  have hdoing : ∀ k, k = .push ∨ k = .notify →
      doing k { w.setFragment f { w.fragment f with waiters := some (r :: waiters) } with
        coordinator := World.attach r rest } = doing k w := by
    intro k hk
    rw [doing_coordinator, doing_coordinator, doing_attach hk, hc]
    rfl
  refine ⟨?_, ?_, ?_, ?_, ?_, ?_, ?_, h.pending, h.apart, h.closure⟩
  · rw [howed, hdoing _ (.inl rfl), hdoing _ (.inr rfl)]
    exact h.books.mono rfl rfl rfl rfl (fun _ hr => hr) fun g _ => (hsame g).1
  · exact fun id call hid => (h.relies id call hid).kept hkept (by simp)
  · intro r' t' phase rest' heq
    obtain ⟨-, rfl, rfl⟩ := attach_ne_counting rfl heq
    exact relies_own
  · intro g
    rw [(hsame g).2.1, (hsame g).2.2]
    exact h.claimed g
  · intro g j hj
    rw [(hsame g).2.1] at hj
    exact h.settlers g j hj
  · intro g hg
    rw [(hsame g).2.1] at hg
    rw [(hsame g).1, h.unsettled g hg]
  · intro g hg
    rw [(hsame g).1] at hg
    rw [fragment_setFragment]
    split
    · simp
    · exact h.opened g hg

/-- The coordinator's own waiter goes on. -/
theorem settling_coordinatorCounting (h : Settling w)
    (hc : w.coordinator = .counting r t phase rest) {c : Coordinator ε}
    (hnext : c = match (w.settleWaiter answer r t phase).2 with
      | some phase => .counting r t phase rest
      | none => if t.isSome then World.attach r rest else .idle) :
    Settling { (w.settleWaiter answer r t phase).1 with coordinator := c } := by
  have hrelies := h.counting r t phase rest hc
  have hkept : Kept none w (w.settleWaiter answer r t phase).1 := kept_settleWaiter none
  have hfragment : (w.settleWaiter answer r t phase).1.fragment = w.fragment := by
    rw [settleWaiter_eq]
  have hframe : (w.settleWaiter answer r t phase).1.calls = w.calls
      ∧ (w.settleWaiter answer r t phase).1.pending = w.pending
      ∧ (w.settleWaiter answer r t phase).1.latestSequence = w.latestSequence
      ∧ (w.settleWaiter answer r t phase).1.requirements = w.requirements := by
    rw [settleWaiter_eq]
    exact ⟨rfl, rfl, rfl, rfl⟩
  obtain ⟨hcalls, hpending, hlatest, hrequirements⟩ := hframe
  let after : Nat → Option Nat → Nat := if t.isSome then toAttach r rest else 0
  have hold : Coordinator.owed w.coordinator = after + one (Counting.owes phase) r t := by
    rw [hc]
    funext r' t'
    simp only [Coordinator.owed, Pi.add_apply, after]
    split <;> rfl
  have hdoing : ∀ k, Coordinator.doing k w.coordinator = oneOf (Counting.is k phase) r := by
    intro k
    rw [hc]
    rfl
  have hnew : Coordinator.owed c
      = after + one (next Counting.owes (w.settleWaiter answer r t phase).2) r t
      ∧ ∀ k, k = .push ∨ k = .notify → Coordinator.doing k c
        = oneOf (next (Counting.is k) (w.settleWaiter answer r t phase).2) r := by
    rw [hnext]
    cases hphase : (w.settleWaiter answer r t phase).2 with
    | some phase' =>
      refine ⟨?_, fun k _ => rfl⟩
      funext r' t'
      simp only [Coordinator.owed, Pi.add_apply, after, next, Option.map_some, Option.getD_some]
      split <;> rfl
    | none =>
      simp only [next, Option.map_none, Option.getD_none, one_zero, oneOf_zero, add_zero, after]
      split
      · exact ⟨owed_attach, fun k => doing_attach⟩
      · exact ⟨rfl, fun k _ => rfl⟩
  have hbooks := h.books
  rw [owed_coordinator, doing_coordinator, doing_coordinator, hold, hdoing, hdoing, ← add_assoc]
    at hbooks
  have hsettled := books_settleWaiter answer hbooks hrelies
  refine ⟨?_, ?_, ?_, ?_, ?_, ?_, ?_, ?_, ?_, ?_⟩
  · have howed : owed { (w.settleWaiter answer r t phase).1 with coordinator := c }
        = owedElsewhere w + Coordinator.owed c := by
      funext r' t'
      simp only [owed, owedElsewhere, waiting, hfragment, hcalls, Pi.add_apply]
    have hdo : ∀ k, doing k { (w.settleWaiter answer r t phase).1 with coordinator := c }
        = doingElsewhere k w + Coordinator.doing k c := by
      intro k
      funext r'
      simp only [doing, doingElsewhere, hcalls, Pi.add_apply]
    rw [howed, hdo, hdo, hnew.1, hnew.2 _ (.inl rfl), hnew.2 _ (.inr rfl), ← add_assoc]
    exact hsettled.mono rfl rfl rfl rfl (fun _ hr => hr) fun _ _ => rfl
  · intro id call hid
    have hcall : Relies (w.settleWaiter answer r t phase).1 id call :=
      (h.relies id call (by rwa [← hcalls])).kept hkept (by simp)
    exact hcall
  · intro r' t' phase' rest' heq
    have heq' : c = .counting r' t' phase' rest' := heq
    rw [hnext] at heq'
    cases hphase : (w.settleWaiter answer r t phase).2 with
    | some next =>
      rw [hphase] at heq'
      cases heq'
      exact relies_settleWaiter hrelies hphase
    | none =>
      rw [hphase] at heq'
      simp only at heq'
      split at heq'
      · obtain ⟨-, rfl, rfl⟩ := attach_ne_counting rfl heq'
        exact relies_own
      · cases heq'
  · rw [hfragment]
    exact h.claimed
  · rw [hfragment, hcalls]
    exact h.settlers
  · rw [hfragment]
    exact h.unsettled
  · rw [hfragment]
    exact h.opened
  · rw [hpending]
    intro r' hr'
    have hsealed := h.pending r' hr'
    exact ⟨hsealed.1, hlatest ▸ hsealed.2⟩
  · rw [hpending]
    exact h.apart
  · intro r' f hf
    have hslots : ((w.settleWaiter answer r t phase).1.revision r').slots = (w.revision r').slots :=
      slots_settleWaiter
    simp only [World.requirementsOf, hslots, hrequirements] at hf ⊢
    exact h.closure r' f hf

/-! ## Sealing -/

theorem nodup_eraseDups {β : Type} [BEq β] [LawfulBEq β] (l : List β) : l.eraseDups.Nodup := by
  induction hlength : l.length using Nat.strong_induction_on generalizing l with
  | _ n ih =>
    cases l with
    | nil => simp
    | cons b l =>
      rw [List.eraseDups_cons, List.nodup_cons]
      refine ⟨?_, ih _ ?_ _ rfl⟩
      · rw [List.mem_eraseDups]
        simp
      · have := List.length_filter_le (fun c => !c == b) l
        simp only [List.length_cons] at hlength
        omega

/-- The books of a revision that has just been sealed. -/
theorem books_sealDraft (h : Settling w) (hc : w.coordinator = .idle) {rev : Revision ε}
    {distinct : List Nat} (hr : r = w.latestSequence + 1)
    (howing : rev.owing = none :: distinct.map some) (hremaining : rev.remaining = distinct.length + 1)
    (hdistinct : distinct.Nodup) (hnamed : ∀ f, f ∈ distinct ↔ some f ∈ rev.slots)
    (hfailed : rev.failed = false) (hrevision : u.revision = Function.update w.revision r rev)
    (hfragment : u.fragment = w.fragment) (hcalls : u.calls = w.calls)
    (hlatest : u.latestSequence = r) (hpending : u.pending = w.pending ++ [r])
    (hcompletions : u.completions = w.completions)
    (hnotifications : u.notifications = w.notifications)
    (hcoordinator : u.coordinator = World.attach r distinct) :
    Books u (owed u) (doing .push u) (doing .notify u) := by
  have hnew : ¬ Sealed w r := fun hs => by have := hs.2; omega
  have hrev : ∀ r', u.revision r' = if r' = r then rev else w.revision r' := by
    intro r'
    rw [hrevision, Function.update_apply]
  have hfresh : ∀ t, owed w r t = 0 := by
    intro t
    have hcovered := h.books.covered r t
    rw [h.books.unsealed r hnew] at hcovered
    simpa using hcovered
  have howed : ∀ r' t, owed u r' t = owed w r' t + toAttach r distinct r' t := by
    intro r' t
    simp only [owed, waiting, hfragment, hcalls, hcoordinator, owed_attach, hc]
    rfl
  have hdoing : ∀ k, k = .push ∨ k = .notify → doing k u = doing k w := by
    intro k hk
    funext r'
    simp only [doing, hcalls, hcoordinator, doing_attach hk, hc]
    rfl
  have hsealed : ∀ r', r' ≠ r → (Sealed u r' ↔ Sealed w r') := by
    intro r' hne
    unfold Sealed
    omega
  rw [hdoing _ (.inl rfl), hdoing _ (.inr rfl)]
  refine ⟨?_, ?_, ?_, ?_, ?_, ?_, ?_, ?_, ?_, ?_, ?_⟩
  · intro r' t
    rw [howed, hrev]
    split
    · subst r'
      rw [hfresh, howing]
      simp [toAttach]
    · rename_i hne
      simpa [toAttach, Ne.symm hne] using h.books.covered r' t
  · intro r' hr' t
    rw [howed, hrev]
    split
    · subst r'
      rw [hfresh, howing]
      simp [toAttach]
    · rename_i hne
      have hold : r' ∈ w.pending := by
        rw [hpending] at hr'
        simpa [hne] using hr'
      simpa [toAttach, Ne.symm hne] using h.books.coming r' hold t
  · intro r'
    rw [hrev]
    split
    · rw [hremaining, howing]
      simp
    · exact h.books.remaining r'
  · intro r'
    rw [hrev]
    split
    · rw [howing, List.nodup_cons]
      exact ⟨by simp, hdistinct.map (Option.some_injective _)⟩
    · exact h.books.once r'
  · intro r' f hf
    rw [hrev] at hf ⊢
    split at hf
    · rename_i heq
      rw [if_pos heq]
      rw [howing] at hf
      exact (hnamed f).mp (by simpa using hf)
    · rename_i hne
      rw [if_neg hne]
      exact h.books.named r' f hf
  · intro r' f hf hcounted
    rw [hrev] at hf hcounted ⊢
    split at hcounted
    · rename_i heq
      rw [if_pos heq] at hf
      rw [howing] at hcounted
      exact absurd ((hnamed f).mpr hf) (by simpa using hcounted)
    · rename_i hne
      rw [if_neg hne] at hf ⊢
      rw [hfragment]
      exact h.books.counted r' f hf hcounted
  · intro r' hr'
    rw [hrev] at hr' ⊢
    rw [hfragment]
    split at hr'
    · rw [hfailed] at hr'
      cases hr'
    · rename_i hne
      rw [if_neg hne]
      exact h.books.blamed r' hr'
  · intro r' hs hnil
    rw [hrev] at hnil
    split at hnil
    · rw [howing] at hnil
      cases hnil
    · rename_i hne
      rw [hcompletions]
      exact h.books.pushed r' ((hsealed r' hne).mp hs) hnil
  · intro r' hboth
    rw [hcompletions]
    refine h.books.unpushed r' fun hb => ?_
    by_cases hne : r' = r
    · subst r'
      exact hnew hb.1
    · refine hboth ⟨(hsealed r' hne).mpr hb.1, ?_⟩
      rw [hrev, if_neg hne]
      exact hb.2
  · rw [hcompletions, hnotifications]
    exact h.books.notified
  · intro r' hs
    have hne : r' ≠ r := by
      rintro rfl
      exact hs ⟨by omega, by omega⟩
    rw [hrev, if_neg hne]
    exact h.books.unsealed r' fun hb => hs ((hsealed r' hne).mpr hb)

/-- A draft that is neither stale nor open becomes a revision that is owed all its counts. -/
theorem settling_sealDraft (h : Settling w) (hc : w.coordinator = .idle) {draft : Draft}
    (hconstructed : ∀ f, some f ∈ draft.slots → f < w.requirements.length) :
    Settling (w.sealDraft draft) := by
  unfold World.sealDraft
  split
  · exact h
  rename_i hdraft
  simp only [not_or, Bool.not_eq_false] at hdraft
  have hnew : ¬ Sealed w (w.latestSequence + 1) := fun hs => by have := hs.2; omega
  have hrevision : ∀ (rev : Revision ε) r',
      (Function.update w.revision (w.latestSequence + 1) rev) r'
        = if r' = w.latestSequence + 1 then rev else w.revision r' :=
    fun rev r' => Function.update_apply ..
  have hkept : ∀ rev : Revision ε, (∀ r f, some f ∈ (w.revision r).slots → some f ∈
      ((Function.update w.revision (w.latestSequence + 1) rev) r).slots)
      ∧ ∀ r, (w.revision r).failed = true →
        ((Function.update w.revision (w.latestSequence + 1) rev) r).failed = true := by
    intro rev
    constructor
    · intro r f hf
      have hne : r ≠ w.latestSequence + 1 := by
        rintro rfl
        rw [h.books.unsealed _ hnew] at hf
        cases hf
      rwa [hrevision, if_neg hne]
    · intro r hf
      have hne : r ≠ w.latestSequence + 1 := by
        rintro rfl
        rw [h.books.unsealed _ hnew] at hf
        cases hf
      rwa [hrevision, if_neg hne]
  refine ⟨?_, ?_, ?_, h.claimed, h.settlers, h.unsettled, h.opened, ?_, ?_, ?_⟩
  · refine books_sealDraft h hc rfl rfl rfl (nodup_eraseDups _) (fun f => ?_) rfl rfl rfl rfl rfl rfl
      rfl rfl rfl
    rw [List.mem_eraseDups, List.reduceOption_mem_iff]
  · intro id call hid
    exact (h.relies id call hid).kept (m := none)
      (.of_fragment rfl (hkept _).2 (hkept _).1) (by simp)
  · intro r t phase rest heq
    obtain ⟨-, rfl, rfl⟩ := attach_ne_counting rfl heq
    exact relies_own
  · intro r hr
    simp only [List.mem_append, List.mem_singleton] at hr
    rcases hr with hr | rfl
    · have hs := h.pending r hr
      exact ⟨hs.1, by have := hs.2; simp only; omega⟩
    · exact ⟨by omega, le_rfl⟩
  · simp only [List.nodup_append, h.apart, List.nodup_cons, List.not_mem_nil, not_false_eq_true,
      List.nodup_nil, and_self, true_and]
    intro r hr r' hr'
    rw [List.mem_singleton] at hr'
    rintro rfl
    exact hnew (hr' ▸ h.pending r hr)
  · intro r f hf
    have hslots : ∀ (rev : Revision ε), some f ∈
        ((Function.update w.revision (w.latestSequence + 1) rev) r).slots →
        r = w.latestSequence + 1 ∧ some f ∈ rev.slots ∨
          r ≠ w.latestSequence + 1 ∧ some f ∈ (w.revision r).slots := by
      intro rev hmem
      rw [hrevision] at hmem
      split at hmem
      · exact .inl ⟨‹_›, hmem⟩
      · exact .inr ⟨‹_›, hmem⟩
    rcases hslots _ hf with ⟨rfl, hmem⟩ | ⟨hne, hmem⟩
    · refine ⟨hconstructed f hmem, fun q hq => ?_⟩
      have hclosed := hdraft.2
      simp only [World.closed, List.all_eq_true] at hclosed
      have hreq := hclosed (some f) hmem
      simp only [List.all_eq_true, decide_eq_true_eq] at hreq
      simp only [World.setRevision, Function.update_self]
      exact hreq q hq
    · have hclosure := h.closure r f hmem
      simp only [World.setRevision, Function.update_of_ne hne]
      exact hclosure

/-! ## The other steps -/

/-- A fragment is constructed. -/
theorem settling_create (h : Settling w) (requirements : List Requirement) :
    Settling { w with requirements := w.requirements ++ [requirements] } := by
  refine ⟨h.books.mono rfl rfl rfl rfl (fun _ hr => hr) fun _ _ => rfl, h.relies, h.counting,
    h.claimed, h.settlers, h.unsettled, h.opened, h.pending, h.apart, ?_⟩
  intro r f hf
  obtain ⟨hlt, hclosure⟩ := h.closure r f hf
  refine ⟨by simp only [List.length_append]; omega, fun q hq => hclosure q ?_⟩
  unfold World.requirementsOf at hq ⊢
  rwa [List.getD_append _ _ _ _ hlt] at hq

/-- `Resolve` or `Fail` begins. -/
theorem settling_call (h : Settling w) (f : Nat) (outcome : Except ε α) :
    Settling { w with calls := w.calls ++ [{ fragment := f, outcome }] } := by
  have hnone : Call.owed ({ fragment := f, outcome } : Call α ε) = 0
      ∧ ∀ k, Call.doing k ({ fragment := f, outcome } : Call α ε) = 0 := ⟨rfl, fun _ => rfl⟩
  have howed : owed { w with calls := w.calls ++ [{ fragment := f, outcome }] } = owed w := by
    funext r t
    simp only [owed, List.map_append, List.map_cons, List.map_nil, List.sum_append,
      List.sum_singleton, hnone.1, Pi.zero_apply, Nat.add_zero]
    rfl
  have hdoing : ∀ k, doing k { w with calls := w.calls ++ [{ fragment := f, outcome }] }
      = doing k w := by
    intro k
    funext r
    simp only [doing, List.map_append, List.map_cons, List.map_nil, List.sum_append,
      List.sum_singleton, hnone.2, Pi.zero_apply, Nat.add_zero]
  refine ⟨?_, ?_, h.counting, h.claimed, ?_, h.unsettled, h.opened, h.pending, h.apart, h.closure⟩
  · rw [howed, hdoing, hdoing]
    exact h.books.mono rfl rfl rfl rfl (fun _ hr => hr) fun _ _ => rfl
  · intro id call hid
    simp only [List.getElem?_append] at hid
    split at hid
    · exact h.relies id call hid
    · have hcall := List.mem_of_getElem? hid
      rw [List.mem_singleton] at hcall
      subst call
      trivial
  · intro g j hj
    have := h.settlers g j hj
    simp only [List.length_append]
    omega

theorem settling_exchangeStep {a : Exchange.Action Assembled} (h : Settling w)
    (hs : w.exchangeStep a = some u) : Settling u := by
  simp only [World.exchangeStep, Option.map_eq_some_iff] at hs
  obtain ⟨e, -, rfl⟩ := hs
  exact h.alone rfl rfl rfl rfl rfl rfl rfl (fun _ hr => hr) h.apart rfl (fun _ _ => rfl) h.counting

/-- `Collect` goes on: the coordinator owes no count, and only takes from the pending revisions. -/
theorem Settling.collect (h : Settling w) {c : Coordinator ε}
    (hold : Coordinator.owed w.coordinator = 0 ∧ ∀ k, Coordinator.doing k w.coordinator = 0)
    (hnew : Coordinator.owed c = 0 ∧ ∀ k, Coordinator.doing k c = 0)
    (hnone : ∀ r t phase rest, c ≠ .counting r t phase rest) {pending : List Nat}
    (hpending : pending.Sublist w.pending)
    (hu : u = { w with
      exchange := u.exchange, publishedSequence := u.publishedSequence, pending, held := u.held
      stats := u.stats, completed := u.completed, coordinator := c, abandoned := u.abandoned
      collects := u.collects }) :
    Settling u := by
  rw [hu]
  refine h.alone rfl rfl rfl rfl rfl rfl rfl (fun _ hr => hpending.subset hr)
    (h.apart.sublist hpending) ?_ ?_ ?_
  · rw [hold.1]
    exact hnew.1
  · intro k _
    rw [hold.2 k]
    exact hnew.2 k
  · intro r t phase rest heq
    exact absurd heq (hnone r t phase rest)

/-- The phases in which the coordinator owes nobody a count. -/
def Coordinator.Free (c : Coordinator ε) : Prop :=
  match c with
  | .idle | .reclaiming _ | .walk .. | .replacing .. => True
  | _ => False

theorem Coordinator.Free.owed {c : Coordinator ε} (h : Coordinator.Free c) :
    (Coordinator.owed c = 0 ∧ ∀ k, Coordinator.doing k c = 0)
      ∧ ∀ r t phase rest, c ≠ .counting r t phase rest := by
  cases c with
  | idle | reclaiming | walk | replacing =>
    exact ⟨⟨rfl, fun _ => rfl⟩, fun _ _ _ _ heq => by cases heq⟩
  | attachLoad | attachExchange | counting => exact h.elim

theorem settling_collectOne (h : Settling w) {due taken : List Nat} {newest : Option Nat}
    {failures : List (Failure ε)} (hc : Coordinator.Free w.coordinator) :
    Settling (w.collectOne due r taken newest failures) := by
  have hfree : ∀ taken newest failures, Coordinator.Free
      (Coordinator.walk due taken newest failures : Coordinator ε) := fun _ _ _ => trivial
  unfold World.collectOne
  simp only
  split
  · exact h.collect hc.owed.1 (hfree _ _ _).owed.1 (hfree _ _ _).owed.2 (.refl _) rfl
  split
  · exact h.collect hc.owed.1 (hfree _ _ _).owed.1 (hfree _ _ _).owed.2 List.filter_sublist rfl
  split
  · exact h.collect hc.owed.1 (hfree _ _ _).owed.1 (hfree _ _ _).owed.2 List.filter_sublist rfl
  · exact h.collect hc.owed.1 (hfree _ _ _).owed.1 (hfree _ _ _).owed.2 List.filter_sublist rfl

theorem settling_assemble (h : Settling w) (newest : Option Nat)
    (hc : Coordinator.Free w.coordinator) :
    Settling (w.assemble newest) ∧ Coordinator.Free (w.assemble newest).coordinator := by
  cases newest with
  | none => exact ⟨h, hc⟩
  | some r => exact ⟨h.collect hc.owed.1 hc.owed.1 hc.owed.2 List.filter_sublist rfl, hc⟩

theorem settling_finish (h : Settling w) {due : List Nat} {published : Nat}
    {failures : List (Failure ε)} (hc : Coordinator.Free w.coordinator) :
    Settling (w.finish due published failures) := by
  have hidle : Coordinator.Free (Coordinator.idle : Coordinator ε) := trivial
  exact h.collect hc.owed.1 hidle.owed.1 hidle.owed.2 (.refl _) rfl

theorem settling_offer (h : Settling w) {due : List Nat} {failures : List (Failure ε)}
    (hc : Coordinator.Free w.coordinator) (hs : w.offer due failures = some u) : Settling u := by
  unfold World.offer at hs
  split at hs
  · cases hs
    exact settling_finish h hc
  · rename_i held _
    refine settling_exchangeStep ?_ hs
    have hfree : Coordinator.Free
        (Coordinator.replacing due held.sequence failures : Coordinator ε) := trivial
    exact h.collect hc.owed.1 hfree.owed.1 hfree.owed.2 (.refl _) rfl

theorem settling_coordinate (h : Settling w)
    (hs : w.coordinate answer w.coordinator = some u) : Settling u := by
  cases hc : w.coordinator with
  | idle =>
    rw [hc] at hs
    cases hs
  | attachLoad r f rest =>
    rw [hc] at hs
    simp only [World.coordinate] at hs
    split at hs <;> cases hs
    · exact settling_attachClosed h (.inl hc) ‹_›
    · exact settling_attachOpen h hc
  | attachExchange r f rest =>
    rw [hc] at hs
    simp only [World.coordinate] at hs
    split at hs
    · cases hs
      exact settling_attachClosed h (.inr hc) ‹_›
    · split at hs <;> cases hs
      · exact settling_attach h hc ‹_›
      · exact h
  | counting r t phase rest =>
    rw [hc] at hs
    simp only [World.coordinate] at hs
    split at hs <;> cases hs
    · refine settling_coordinatorCounting h hc ?_
      simp only [*]
    · refine settling_coordinatorCounting h hc ?_
      simp only [*]
  | reclaiming due =>
    rw [hc] at hs
    simp only [World.coordinate] at hs
    split at hs
    · exact settling_exchangeStep h hs
    · cases hs
      have hold : Coordinator.Free w.coordinator := by
        rw [hc]
        trivial
      have hfree : Coordinator.Free
          (Coordinator.walk due w.completed none [] : Coordinator ε) := trivial
      exact h.collect hold.owed.1 hfree.owed.1 hfree.owed.2 (.refl _) rfl
  | walk due taken newest failures =>
    have hfree : Coordinator.Free w.coordinator := by
      rw [hc]
      trivial
    rw [hc] at hs
    cases taken with
    | nil =>
      obtain ⟨hassemble, hc'⟩ := settling_assemble h newest hfree
      exact settling_offer hassemble hc' hs
    | cons r taken =>
      cases hs
      exact settling_collectOne h hfree
  | replacing due sequence failures =>
    have hfree : Coordinator.Free w.coordinator := by
      rw [hc]
      trivial
    rw [hc] at hs
    simp only [World.coordinate] at hs
    split at hs
    · exact settling_exchangeStep h hs
    split at hs <;> cases hs
    · have hidle : Coordinator.Free (Coordinator.idle : Coordinator ε) := trivial
      exact h.collect hfree.owed.1 hidle.owed.1 hidle.owed.2 (.refl _) rfl
    · exact settling_finish h hfree

theorem settling_step {a : Action α ε} (h : Settling w) (hs : step w a = some u) : Settling u := by
  cases a with
  | create requirements =>
    cases hs
    exact settling_create h requirements
  | settle f outcome =>
    simp only [step] at hs
    split at hs <;> cases hs
    exact settling_call h f outcome
  | access id answer =>
    simp only [step, Option.map_eq_some_iff] at hs
    obtain ⟨call, hid, rfl⟩ := hs
    exact settling_settle h hid
  | sealDraft draft =>
    simp only [step] at hs
    split at hs
    · rename_i hc
      split at hs <;> cases hs
      rename_i hconstructed
      refine settling_sealDraft h hc fun f hf => ?_
      simpa using List.all_eq_true.mp hconstructed f (List.reduceOption_mem_iff.mpr hf)
    · cases hs
  | collect =>
    simp only [step] at hs
    split at hs
    · rename_i hc
      refine settling_exchangeStep ?_ hs
      have hidle : Coordinator.Free w.coordinator := by
        rw [hc]
        trivial
      have hfree : Coordinator.Free (Coordinator.reclaiming w.due : Coordinator ε) := trivial
      exact h.collect hidle.owed.1 hfree.owed.1 hfree.owed.2 (.refl _) rfl
    · cases hs
  | coordinator answer => exact settling_coordinate h hs
  | trySelect | acquireActive => exact settling_exchangeStep h hs
  | consumer accepts =>
    refine settling_exchangeStep ?_ hs
    exact h.alone rfl rfl rfl rfl rfl rfl rfl (fun _ hr => hr) h.apart rfl (fun _ _ => rfl) h.counting

end ModuleServices.Assembly.Proof
