import ModuleServices.Graph.Proof.Awaits
import ModuleServices.Graph.View

/-!
# Where an awaiter is, and what its cancellation leaves

A subscription is in one place at a time: its registration is queued, its waiter is registered or
taken for dispatch, or its callback was called (`Placed`); and only a cancellation takes it from
there (`Accounted`). A cancellation that is applied while its registration is queued or its waiter
registered ends it for good (`Dead`), and what it leaves in `cancelledAwaitSubscriptions` goes with
the registration (`Clean`). Any other cancellation is remembered for nothing: it comes after the
dispatch, and no registration follows it.
-/

namespace ModuleServices.Graph.Proof

open World

variable {s s' : World} {A A' : Awaits} {disciplined : Prop} {asks : Nat → Prop} {x : Nat}

/-! ## Each subscription in one place -/

/-- The queued registrations of a subscription. -/
def queuedIn (posted : List PostedAwait) (x : Nat) : Nat :=
  posted.countP fun operation => !operation.cancel && operation.subscription == x

/-- The places a subscription is in, counted: a registration in the queue, a waiter under whatever
identity, a dispatch of the slice, a call of its callback. -/
def places (A : Awaits) (x : Nat) : Nat :=
  queuedIn A.posted x + A.registered x + A.leaving x + A.called x

theorem queuedIn_cons (operation : PostedAwait) (rest : List PostedAwait) (x : Nat) :
    queuedIn (operation :: rest) x = queuedIn rest x
      + if operation.cancel = false ∧ operation.subscription = x then 1 else 0 := by
  unfold queuedIn
  rw [List.countP_cons]
  simp only [Bool.and_eq_true, Bool.not_eq_true', beq_iff_eq]

theorem queuedIn_append (posted : List PostedAwait) (operation : PostedAwait) (x : Nat) :
    queuedIn (posted ++ [operation]) x = queuedIn posted x
      + if operation.cancel = false ∧ operation.subscription = x then 1 else 0 := by
  unfold queuedIn
  rw [List.countP_append, List.countP_singleton]
  simp only [Bool.and_eq_true, Bool.not_eq_true', beq_iff_eq]

theorem queuedIn_pos {posted : List PostedAwait} :
    0 < queuedIn posted x ↔
      ∃ operation ∈ posted, operation.cancel = false ∧ operation.subscription = x := by
  unfold queuedIn
  rw [List.countP_pos_iff]
  simp only [Bool.and_eq_true, Bool.not_eq_true', beq_iff_eq]

structure Placed (A : Awaits) : Prop where
  once (x : Nat) : places A x ≤ 1
  /-- A subscription that was not given yet is nowhere. -/
  fresh (x : Nat) : A.next < x → places A x = 0
  nodup : A.cancelled.Nodup

theorem places_applied {operation : PostedAwait} {rest : List PostedAwait}
    (hhead : A.posted = operation :: rest) (h : Applied disciplined A operation rest A') (x : Nat) :
    places A' x ≤ places A x
      ∧ (places A' x = places A x ∨ x = operation.subscription
        ∧ (operation.cancel = true ∨ x ∈ A.cancelled)) := by
  have hqueued := queuedIn_cons operation rest x
  unfold places
  rw [hhead]
  cases h with
  | removed hcancel hless hother =>
    rw [if_neg (by simp [hcancel])] at hqueued
    dsimp only
    by_cases hx : x = operation.subscription
    · subst hx
      exact ⟨by omega, .inr ⟨rfl, .inl hcancel⟩⟩
    · rw [hother x hx]
      exact ⟨by omega, .inl (by omega)⟩
  | remembered hcancel hlater =>
    rw [if_neg (by simp [hcancel])] at hqueued
    dsimp only
    exact ⟨by omega, .inl (by omega)⟩
  | dropped hcancel hmem =>
    dsimp only
    by_cases hx : operation.subscription = x
    · subst hx
      exact ⟨by omega, .inr ⟨rfl, .inr hmem⟩⟩
    · rw [if_neg fun hno => hx hno.2] at hqueued
      exact ⟨by omega, .inl (by omega)⟩
  | settled hcancel hmem hone hother =>
    dsimp only
    by_cases hx : operation.subscription = x
    · subst hx
      rw [if_pos ⟨hcancel, rfl⟩] at hqueued
      exact ⟨by omega, .inl (by omega)⟩
    · rw [if_neg fun hno => hx hno.2] at hqueued
      rw [hother x (Ne.symm hx)]
      exact ⟨by omega, .inl (by omega)⟩
  | registered hcancel hmem hone hother =>
    dsimp only
    by_cases hx : operation.subscription = x
    · subst hx
      rw [if_pos ⟨hcancel, rfl⟩] at hqueued
      exact ⟨by omega, .inl (by omega)⟩
    · rw [if_neg fun hno => hx hno.2] at hqueued
      rw [hother x (Ne.symm hx)]
      exact ⟨by omega, .inl (by omega)⟩

/-- What a step does to one subscription: a new one comes in, a cancelled one may go. -/
theorem places_changes (h : Changes disciplined asks A A') (x : Nat) :
    (A'.next = A.next ∧ places A' x = places A x)
    ∨ (A'.next = A.next + 1 ∧ places A' x = places A x + if x = A.next + 1 then 1 else 0)
    ∨ A'.next = A.next ∧ places A' x ≤ places A x ∧ ∃ operation rest,
        A.posted = operation :: rest ∧ x = operation.subscription
        ∧ (operation.cancel = true ∨ x ∈ A.cancelled) := by
  cases h with
  | same => exact .inl ⟨rfl, rfl⟩
  | @register operation hcancel hnext =>
    refine .inr (.inl ⟨rfl, ?_⟩)
    unfold places
    dsimp only
    rw [queuedIn_append, hnext]
    by_cases hx : x = A.next + 1
    · rw [if_pos hx, if_pos ⟨hcancel, hx.symm⟩]
      omega
    · rw [if_neg hx, if_neg fun hno => hx hno.2.symm]
      omega
  | @unsubscribe operation hcancel hasks =>
    refine .inl ⟨rfl, ?_⟩
    unfold places
    dsimp only
    rw [queuedIn_append, if_neg (by simp [hcancel])]
    omega
  | @apply operation rest A' hhead happlied =>
    obtain ⟨hle, heq | ⟨hx, hwhy⟩⟩ := places_applied hhead happlied x
    · exact .inl ⟨by cases happlied <;> rfl, heq⟩
    · exact .inr (.inr ⟨by cases happlied <;> rfl, hle, operation, rest, hhead, hx, hwhy⟩)
  | taken htaken =>
    refine .inl ⟨rfl, ?_⟩
    have hx := htaken x
    unfold places
    dsimp only
    omega
  | called hcalled =>
    refine .inl ⟨rfl, ?_⟩
    have hx := hcalled x
    unfold places
    dsimp only
    omega

theorem Placed.changes (h : Placed A) (hchanges : Changes disciplined asks A A') : Placed A' := by
  have hplaces := places_changes hchanges
  refine ⟨fun x => ?_, fun x hx => ?_, ?_⟩
  · have hone := h.once x
    obtain ⟨_, heq⟩ | ⟨_, heq⟩ | ⟨_, hle, _⟩ := hplaces x
    · omega
    · rw [heq]
      split
      next hnew =>
        rw [h.fresh x (by omega)]
      next => exact hone
    · omega
  · obtain ⟨hnext, heq⟩ | ⟨hnext, heq⟩ | ⟨hnext, hle, _⟩ := hplaces x
    · rw [heq]
      exact h.fresh x (by omega)
    · rw [heq, h.fresh x (by omega), if_neg (by omega)]
    · exact Nat.le_zero.mp (hle.trans (h.fresh x (by omega)).le)
  · cases hchanges with
    | same | register | unsubscribe | taken | called => exact h.nodup
    | @apply operation rest A' hhead happlied =>
      cases happlied with
      | removed | settled | registered => exact h.nodup
      | remembered hcancel hlater =>
        dsimp only
        split
        next => exact h.nodup
        next hnot =>
          refine List.nodup_append.mpr ⟨h.nodup, List.nodup_singleton _, fun y hy z hz => ?_⟩
          cases List.mem_singleton.mp hz
          rintro rfl
          exact hnot hy
      | dropped => exact h.nodup.erase _

theorem start_placed (policies : List ArtifactKindPolicy) : Placed (awaits (start policies)) where
  once _ := Nat.zero_le 1
  fresh _ _ := rfl
  nodup := List.nodup_nil

/-! ## None is lost -/

/-- Every subscription given is somewhere, unless a cancellation of it was posted. -/
structure Accounted (asked : Nat → Prop) (A : Awaits) : Prop where
  given (x : Nat) : 0 < x → x ≤ A.next → places A x = 1 ∨ asked x
  posted : ∀ operation ∈ A.posted, operation.cancel = true → asked operation.subscription
  remembered : ∀ x ∈ A.cancelled, asked x

theorem Accounted.mono {asked asked' : Nat → Prop} (h : Accounted asked A)
    (himp : ∀ x, asked x → asked' x) : Accounted asked' A where
  given x hpos hle := (h.given x hpos hle).imp id (himp x)
  posted operation hmem hcancel := himp _ (h.posted operation hmem hcancel)
  remembered x hmem := himp x (h.remembered x hmem)

theorem Accounted.changes {asked : Nat → Prop} (h : Accounted asked A) (hplaced : Placed A)
    (hasks : ∀ x, asks x → asked x) (hchanges : Changes disciplined asks A A') :
    Accounted asked A' := by
  refine ⟨fun x hpos hle => ?_, ?_, ?_⟩
  · obtain ⟨hnext, heq⟩ | ⟨hnext, heq⟩ | ⟨hnext, -, operation, rest, hhead, hx, hwhy⟩ :=
      places_changes hchanges x
    · rw [heq]
      exact h.given x hpos (by omega)
    · rw [heq]
      by_cases hx : x = A.next + 1
      · rw [if_pos hx, hplaced.fresh x (by omega)]
        exact .inl rfl
      · rw [if_neg hx]
        exact h.given x hpos (by omega)
    · -- what goes was cancelled
      refine .inr ?_
      obtain hcancel | hmem := hwhy
      · exact hx ▸ h.posted operation (hhead ▸ List.mem_cons_self) hcancel
      · exact h.remembered x hmem
  · intro later hmem hcancel
    cases hchanges with
    | same | taken | called => exact h.posted later hmem hcancel
    | register hregister =>
      obtain hold | hnew := List.mem_append.mp hmem
      · exact h.posted later hold hcancel
      · rw [List.mem_singleton.mp hnew, hregister] at hcancel
        cases hcancel
    | unsubscribe _ hask =>
      obtain hold | hnew := List.mem_append.mp hmem
      · exact h.posted later hold hcancel
      · exact List.mem_singleton.mp hnew ▸ hasks _ hask
    | apply hhead happlied =>
      refine h.posted later ?_ hcancel
      rw [hhead]
      cases happlied <;> exact List.mem_cons_of_mem _ hmem
  · intro x hmem
    cases hchanges with
    | same | register | unsubscribe | taken | called => exact h.remembered x hmem
    | @apply operation rest A' hhead happlied =>
      cases happlied with
      | removed | settled | registered => exact h.remembered x hmem
      | dropped => exact h.remembered x (List.mem_of_mem_erase hmem)
      | remembered hcancel =>
        dsimp only at hmem
        split at hmem
        · exact h.remembered x hmem
        · obtain hold | hnew := List.mem_append.mp hmem
          · exact h.remembered x hold
          · exact List.mem_singleton.mp hnew ▸ h.posted operation (hhead ▸ List.mem_cons_self)
              hcancel

theorem start_accounted (policies : List ArtifactKindPolicy) :
    Accounted (fun _ => False) (awaits (start policies)) where
  given _ hpos hle := absurd hpos (Nat.not_lt.mpr hle)
  posted _ hmem := absurd hmem List.not_mem_nil
  remembered _ hmem := absurd hmem List.not_mem_nil

/-- Along a run, with the cancellations it has asked for. -/
theorem exec_accounted (actions : List Action) : ∀ {s s' : World} {asked : Nat → Prop},
    Placed (awaits s) → Accounted asked (awaits s) → Run.exec step s actions = some s' →
    Placed (awaits s') ∧ Accounted (fun x => asked x ∨ ∃ a ∈ actions, Unsubscribes a x)
      (awaits s') := by
  induction actions with
  | nil =>
    intro s s' asked hplaced haccounted hexec
    cases hexec
    exact ⟨hplaced, haccounted.mono fun _ => .inl⟩
  | cons a actions ih =>
    intro s s' asked hplaced haccounted hexec
    obtain ⟨t, hstep, hexec⟩ := Option.bind_eq_some_iff.mp hexec
    have hchanges : Changes False (Unsubscribes a) (awaits s) (awaits t) :=
      step_changes hstep False.elim
    have hnext := (haccounted.mono fun x => Or.inl (b := Unsubscribes a x)).changes hplaced
      (fun x => .inr) hchanges
    obtain ⟨hplaced', haccounted'⟩ := ih (hplaced.changes hchanges) hnext hexec
    refine ⟨hplaced', haccounted'.mono fun x => ?_⟩
    rintro ((hasked | hasks) | ⟨b, hmem, hasks⟩)
    · exact .inl hasked
    · exact .inr ⟨a, List.mem_cons_self, hasks⟩
    · exact .inr ⟨b, List.mem_cons_of_mem _ hmem, hasks⟩

/-- **An awaiter is never doubled and never lost.** Along every run of the graph each subscription
is in at most one place, so its callback is called once at most; and one that was given and is in
none had a cancellation asked for in the run. -/
theorem awaiter_in_one_place {policies : List ArtifactKindPolicy} {actions : List Action}
    (h : Run.exec step (start policies) actions = some s) (x : Nat) :
    places (awaits s) x ≤ 1
      ∧ (0 < x → x ≤ s.nextSubscription → places (awaits s) x = 0 →
        ∃ version, Action.unsubscribe x version ∈ actions) := by
  obtain ⟨hplaced, haccounted⟩ :=
    exec_accounted actions (start_placed policies) (start_accounted policies) h
  refine ⟨hplaced.once x, fun hpos hle hzero => ?_⟩
  obtain hone | hasked := haccounted.given x hpos hle
  · omega
  · obtain hno | ⟨a, hmem, hasks⟩ := hasked
    · exact hno.elim
    · cases a with
      | unsubscribe subscription version =>
        cases hasks
        exact ⟨version, hmem⟩
      | _ => exact hasks.elim

/-- A registered awaiter, and its cancellation. -/
def cancelledTrace : List Action :=
  [.awaitExact ⟨{}, 1, 1⟩ .gpuReady none, .drain, .item, .unsubscribe 1 ⟨{}, 1, 1⟩]

/-- Cancelled, the awaiter is nowhere. -/
theorem awaiter_in_one_place_cancelled :
    ∃ s, Run.exec step (start [{}]) (cancelledTrace ++ [.item]) = some s
      ∧ places (awaits s) 1 = 0
      ∧ ∃ version, Action.unsubscribe 1 version ∈ cancelledTrace ++ [.item] := by
  have h : (Run.exec step (start [{}]) (cancelledTrace ++ [.item])).any (fun s =>
      decide (1 ≤ s.nextSubscription) && decide (places (awaits s) 1 = 0)) = true := by
    decide +kernel
  obtain ⟨s, hrun, hs⟩ := (Option.any_eq_true _ _).mp h
  simp only [Bool.and_eq_true, decide_eq_true_eq] at hs
  exact ⟨s, hrun, hs.2, (awaiter_in_one_place hrun 1).2 (by decide) hs.1 hs.2⟩

/-! ## What a cancellation leaves -/

/-- Each remembered cancellation waits for its registration. -/
def Clean (A : Awaits) : Prop := ∀ x ∈ A.cancelled, 0 < queuedIn A.posted x

theorem Clean.changes (h : Clean A) (hplaced : Placed A) (hchanges : Changes True asks A A') :
    Clean A' := by
  intro x hmem
  cases hchanges with
  | same | taken | called => exact h x hmem
  | register | unsubscribe =>
    dsimp only
    rw [queuedIn_append]
    exact Nat.lt_of_lt_of_le (h x hmem) (Nat.le_add_right _ _)
  | @apply operation rest A' hhead happlied =>
    -- the operation taken is no registration of what is still remembered
    have hrest (hother : operation.cancel = true ∨ x ≠ operation.subscription)
        (hold : x ∈ A.cancelled) : 0 < queuedIn rest x := by
      have hpos := h x hold
      rw [hhead, queuedIn_cons, if_neg] at hpos
      · exact hpos
      · rintro ⟨hregister, rfl⟩
        obtain hcancel | hne := hother
        · exact absurd hcancel (by simp [hregister])
        · exact hne rfl
    cases happlied with
    | removed hcancel => exact hrest (.inl hcancel) hmem
    | remembered hcancel hlater =>
      dsimp only at hmem
      have hcases : x ∈ A.cancelled ∨ x = operation.subscription := by
        split at hmem
        · exact .inl hmem
        · exact (List.mem_append.mp hmem).imp id List.mem_singleton.mp
      obtain hold | rfl := hcases
      · exact hrest (.inl hcancel) hold
      · exact queuedIn_pos.mpr (hlater trivial)
    | dropped hcancel =>
      obtain ⟨hne, hold⟩ := (hplaced.nodup.mem_erase_iff).mp hmem
      exact hrest (.inr hne) hold
    | settled hcancel hnot | registered hcancel hnot =>
      exact hrest (.inr fun hx => hnot (hx ▸ hmem)) hmem

/-- Cancelled, and nothing of it is left but a registration that will be dropped. -/
structure Dead (A : Awaits) (x : Nat) : Prop where
  given : x ≤ A.next
  registered : A.registered x = 0
  leaving : A.leaving x = 0
  called : A.called x = 0
  queued : 0 < queuedIn A.posted x → x ∈ A.cancelled

theorem Dead.changes (h : Dead A x) (hplaced : Placed A) (hchanges : Changes disciplined asks A A') :
    Dead A' x := by
  cases hchanges with
  | same => exact h
  | register hcancel hnext =>
    refine ⟨Nat.le_succ_of_le h.given, h.registered, h.leaving, h.called, fun hpos => h.queued ?_⟩
    have hgiven := h.given
    rw [queuedIn_append, if_neg (by omega)] at hpos
    exact hpos
  | unsubscribe hcancel =>
    refine ⟨h.given, h.registered, h.leaving, h.called, fun hpos => h.queued ?_⟩
    rw [queuedIn_append, if_neg (by simp [hcancel])] at hpos
    exact hpos
  | @apply operation rest A' hhead happlied =>
    have hqueued := queuedIn_cons operation rest x
    rw [← hhead] at hqueued
    have hrest (hpos : 0 < queuedIn rest x) : x ∈ A.cancelled := h.queued (by omega)
    -- a registration that is not dropped is not of `x`
    have hne (hregister : operation.cancel = false) (hnot : operation.subscription ∉ A.cancelled) :
        x ≠ operation.subscription := by
      rintro rfl
      rw [if_pos ⟨hregister, rfl⟩] at hqueued
      exact hnot (h.queued (by omega))
    cases happlied with
    | removed hcancel hless hother =>
      refine ⟨h.given, ?_, h.leaving, h.called, hrest⟩
      by_cases hx : x = operation.subscription
      · subst hx
        rw [h.registered] at hless
        exact absurd hless (Nat.not_lt_zero _)
      · exact (hother x hx).trans h.registered
    | remembered hcancel =>
      refine ⟨h.given, h.registered, h.leaving, h.called, fun hpos => ?_⟩
      dsimp only
      split
      · exact hrest hpos
      · exact List.mem_append_left _ (hrest hpos)
    | dropped hcancel hmem =>
      refine ⟨h.given, h.registered, h.leaving, h.called, fun hpos => ?_⟩
      refine (hplaced.nodup.mem_erase_iff).mpr ⟨?_, hrest hpos⟩
      rintro rfl
      rw [if_pos ⟨hcancel, rfl⟩] at hqueued
      have honce := hplaced.once operation.subscription
      unfold places at honce
      have hpos' : 0 < queuedIn rest operation.subscription := hpos
      omega
    | settled hcancel hmem hone hother =>
      exact ⟨h.given, h.registered, (hother x (hne hcancel hmem)).trans h.leaving, h.called, hrest⟩
    | registered hcancel hmem hone hother =>
      exact ⟨h.given, (hother x (hne hcancel hmem)).trans h.registered, h.leaving, h.called, hrest⟩
  | taken htaken =>
    have hx := htaken x
    rw [h.registered, h.leaving] at hx
    obtain ⟨hregistered, hleaving⟩ := Nat.add_eq_zero_iff.mp hx
    exact ⟨h.given, hregistered, hleaving, h.called, h.queued⟩
  | called hcalled =>
    have hx := hcalled x
    rw [h.leaving, h.called] at hx
    obtain ⟨hleaving, hcalled⟩ := Nat.add_eq_zero_iff.mp hx
    exact ⟨h.given, h.registered, hleaving, hcalled, h.queued⟩

/-- A cancellation of what is queued or registered ends it. -/
theorem Applied.dead {operation : PostedAwait} {rest : List PostedAwait}
    (h : Applied True A operation rest A') (hhead : A.posted = operation :: rest)
    (hcancel : operation.cancel = true) (hplaced : Placed A) : Dead A' operation.subscription := by
  have honce := hplaced.once operation.subscription
  have hqueued := queuedIn_cons operation rest operation.subscription
  rw [← hhead, if_neg (by simp [hcancel])] at hqueued
  have hgiven (hpos : 0 < places A operation.subscription) : operation.subscription ≤ A.next := by
    by_contra hlt
    rw [hplaced.fresh _ (Nat.lt_of_not_le hlt)] at hpos
    exact absurd hpos (Nat.lt_irrefl 0)
  unfold places at honce hgiven
  cases h with
  | removed _ hless hother =>
    refine ⟨hgiven (by omega), ?_, ?_, ?_, fun hpos => ?_⟩ <;> dsimp only at *
    all_goals omega
  | remembered _ hlater =>
    have hpos := queuedIn_pos.mpr (hlater trivial)
    refine ⟨hgiven (by omega), ?_, ?_, ?_, fun _ => ?_⟩ <;> dsimp only at *
    · omega
    · omega
    · omega
    · split
      next hmem => exact hmem
      next => exact List.mem_append_right _ (List.mem_singleton.mpr rfl)
  | dropped hregister | settled hregister | registered hregister =>
    rw [hregister] at hcancel
    cases hcancel

/-- The drain takes a posted operation. -/
theorem item_awaits {operation : PostedAwait} {rest : List PostedAwait}
    (hphase : s.slice.phase = .awaits) (hposted : s.postedAwaits = operation :: rest)
    (h : step s .item = some s') : s' = (popped s rest).applyAwait operation := by
  change s.item = some s' at h
  unfold item at h
  rw [hphase, hposted] at h
  dsimp only at h
  split at h
  · exact (Option.some.inj h).symm
  · cases h

structure NoResidue (s : World) : Prop where
  queued : ∀ x ∈ s.cancelledAwaitSubscriptions, ∃ operation ∈ s.postedAwaits,
    operation.cancel = false ∧ operation.subscription = x
  empty : s.postedAwaits = [] → s.cancelledAwaitSubscriptions = []
  /-- The callback of what is cancelled next is never called. -/
  never : ∀ operation rest s' t, s.slice.phase = .awaits → s.postedAwaits = operation :: rest →
    operation.cancel = true → CallsMeet CancelsLive s .item →
    step s .item = some s' → Run.Reachable step s' t →
    operation.subscription ∉ leavingIn t.slice ∧ operation.subscription ∉ calledIn t.history

/-- **Cancelled awaits leave nothing.** In every run whose cancellations are each applied while the
registration is queued or its waiter registered. -/
theorem no_residue {policies : List ArtifactKindPolicy}
    (h : Run.Within step (CallsMeet CancelsLive) (start policies) s) : NoResidue s := by
  have hinv : Placed (awaits s) ∧ Clean (awaits s) := by
    refine Run.Within.invariant (I := fun s => Placed (awaits s) ∧ Clean (awaits s))
      ⟨start_placed policies, fun _ hmem => absurd hmem List.not_mem_nil⟩ ?_ h
    intro s a s' _ hI hmeet hstep
    have hchanges : Changes True (Unsubscribes a) (awaits s) (awaits s') :=
      step_changes hstep fun _ => hmeet
    exact ⟨hI.1.changes hchanges, hI.2.changes hI.1 hchanges⟩
  obtain ⟨hplaced, hclean⟩ := hinv
  refine ⟨fun x hmem => queuedIn_pos.mp (hclean x hmem), fun hnil => ?_, ?_⟩
  · refine List.eq_nil_iff_forall_not_mem.mpr fun x hmem => ?_
    obtain ⟨_, hqueued, _⟩ := queuedIn_pos.mp (hclean x hmem)
    have hposted : (awaits s).posted = [] := hnil
    rw [hposted] at hqueued
    exact absurd hqueued List.not_mem_nil
  · intro operation rest s' t hphase hposted hcancel hmeet hstep hlater
    have hlive : CancelsLive (popped s rest) (.await operation) := by
      refine hmeet (_, _) ?_
      change _ ∈ s.itemCalls
      unfold itemCalls
      rw [hphase, hposted]
      exact List.mem_singleton.mpr rfl
    have happlied : Applied True (awaits s) operation rest
        (awaits ((popped s rest).applyAwait operation)) :=
      applyAwait_applied s operation rest fun _ => hlive
    rw [← item_awaits hphase hposted hstep] at happlied
    have hchanges : Changes True (Unsubscribes .item) (awaits s) (awaits s') :=
      .apply hposted happlied
    have hdead : Placed (awaits s') ∧ Dead (awaits s') operation.subscription :=
      ⟨hplaced.changes hchanges, happlied.dead hposted hcancel hplaced⟩
    -- from there it stays so, whatever the later cancellations find
    have hstays := Run.Within.invariant (I := fun t => Placed (awaits t)
        ∧ Dead (awaits t) operation.subscription) hdead (fun {t a t'} _ hI _ hnext => by
      have hchanges : Changes False (Unsubscribes a) (awaits t) (awaits t') :=
        step_changes hnext False.elim
      exact ⟨hI.1.changes hchanges, hI.2.changes hI.1 hchanges⟩) hlater
    exact ⟨List.count_eq_zero.mp hstays.2.leaving, List.count_eq_zero.mp hstays.2.called⟩

instance (s : World) : (call : Call) → Decidable (CancelsLive s call)
  | .await operation => inferInstanceAs (Decidable (operation.cancel = true →
      (∃ later ∈ s.postedAwaits, later.cancel = false
        ∧ later.subscription = operation.subscription)
      ∨ ∃ waiter ∈ (s.exactWaiters.find? (s.canonical operation.version)).getD [],
        waiter.subscription = operation.subscription))
  | .suspensionSatisfied _ | .request _ | .cancel _ | .release _ | .markPublished _ | .gpu _
  | .retry _ | .complete _ | .wake _ _ | .build _ | .reclaim _ => .isTrue trivial

/-- A cancellation while the waiter is registered. -/
theorem no_residue_registered :
    ∃ s s', Run.Within step (CallsMeet CancelsLive) (start [{}]) s
      ∧ step s .item = some s' ∧ NoResidue s ∧ 1 ∉ calledIn s'.history := by
  let check (s : World) (a : Action) : Bool := decide (CallsMeet CancelsLive s a)
  have h : (Run.exec (Run.checked step check) (start [{}]) cancelledTrace).any (fun s =>
      decide (s.slice.phase = .awaits)
        && decide (s.postedAwaits = [{ subscription := 1, version := ⟨{}, 1, 1⟩, cancel := true }])
        && check s .item && (step s .item).isSome) = true := by
    decide +kernel
  obtain ⟨s, hrun, hs⟩ := (Option.any_eq_true _ _).mp h
  simp only [Bool.and_eq_true, decide_eq_true_eq] at hs
  obtain ⟨⟨⟨hphase, hposted⟩, hmeet⟩, hnext⟩ := hs
  obtain ⟨s', hstep⟩ := Option.isSome_iff_exists.mp hnext
  have hwithin : Run.Within step (CallsMeet CancelsLive) (start [{}]) s :=
    Run.exec_checked_within (fun _ _ => of_decide_eq_true) hrun
  have hclean := no_residue hwithin
  exact ⟨s, s', hwithin, hstep, hclean, (hclean.never _ _ s' s' hphase hposted rfl
    (of_decide_eq_true hmeet) hstep .start).2⟩

/-! ## A late cancellation -/

/-- Remembered, with no registration to come. -/
structure Stuck (A : Awaits) (x : Nat) : Prop where
  given : x ≤ A.next
  gone : queuedIn A.posted x = 0
  remembered : x ∈ A.cancelled

theorem Stuck.changes (h : Stuck A x) (hchanges : Changes disciplined asks A A') : Stuck A' x := by
  have hgone := h.gone
  cases hchanges with
  | same | taken | called => exact ⟨h.given, hgone, h.remembered⟩
  | register hcancel hnext =>
    have hgiven := h.given
    refine ⟨Nat.le_succ_of_le hgiven, ?_, h.remembered⟩
    dsimp only
    rw [queuedIn_append, if_neg (by omega), hgone]
  | unsubscribe hcancel =>
    refine ⟨h.given, ?_, h.remembered⟩
    dsimp only
    rw [queuedIn_append, if_neg (by simp [hcancel]), hgone]
  | @apply operation rest A' hhead happlied =>
    rw [hhead, queuedIn_cons] at hgone
    obtain ⟨hrest, hhere⟩ := Nat.add_eq_zero_iff.mp hgone
    cases happlied with
    | removed | settled | registered => exact ⟨h.given, hrest, h.remembered⟩
    | remembered hcancel =>
      refine ⟨h.given, hrest, ?_⟩
      dsimp only
      split
      · exact h.remembered
      · exact List.mem_append_left _ h.remembered
    | dropped hcancel =>
      refine ⟨h.given, hrest, (List.mem_erase_of_ne ?_).mpr h.remembered⟩
      rintro rfl
      rw [if_pos ⟨hcancel, rfl⟩] at hhere
      cases hhere

/-- **A late cancellation stays.** One that finds neither its registration in the queue nor its
waiter is remembered, and is so in every state the graph reaches from there. -/
theorem late_cancellation_stays {t : World} {operation : PostedAwait} {rest : List PostedAwait}
    (hphase : s.slice.phase = .awaits) (hposted : s.postedAwaits = operation :: rest)
    (hgiven : operation.subscription ≤ s.nextSubscription)
    (hlate : ¬ CancelsLive (popped s rest) (.await operation))
    (hstep : step s .item = some s') (hlater : Run.Reachable step s' t) :
    operation.subscription ∈ t.cancelledAwaitSubscriptions := by
  obtain ⟨hcancel, hmissed⟩ := Classical.not_imp.mp hlate
  obtain ⟨hnone, hunfiled⟩ := not_or.mp hmissed
  have hs' := item_awaits hphase hposted hstep
  have hstuck : Stuck (awaits s') operation.subscription := by
    have hrest : queuedIn rest operation.subscription = 0 := by
      by_contra hpos
      obtain ⟨later, hmem, hregister, heq⟩ := queuedIn_pos.mp (Nat.pos_of_ne_zero hpos)
      exact hnone ⟨later, hmem, hregister, heq⟩
    have hunfound : ¬ (((popped s rest).exactWaiters.find?
        ((popped s rest).canonical operation.version)).getD []).any
          (fun waiter => waiter.subscription == operation.subscription) = true := by
      intro hany
      obtain ⟨waiter, hmem, heq⟩ := List.any_eq_true.mp hany
      exact hunfiled ⟨waiter, hmem, beq_iff_eq.mp heq⟩
    subst hs'
    unfold applyAwait
    dsimp only
    rw [if_pos hcancel]
    unfold cancelAwait
    dsimp only
    rw [if_neg hunfound]
    refine ⟨hgiven, hrest, ?_⟩
    change operation.subscription ∈ (if operation.subscription ∈ s.cancelledAwaitSubscriptions then
      s.cancelledAwaitSubscriptions
      else s.cancelledAwaitSubscriptions ++ [operation.subscription])
    split
    next hmem => exact hmem
    next => exact List.mem_append_right _ (List.mem_singleton.mpr rfl)
  exact (Run.Within.invariant (I := fun t => Stuck (awaits t) operation.subscription) hstuck
    (fun {t a t'} _ hI _ hnext => by
      have hchanges : Changes False (Unsubscribes a) (awaits t) (awaits t') :=
        step_changes hnext False.elim
      exact hI.changes hchanges) hlater).remembered

/-- A version without a producer fails; its awaiter is settled at the registration, and cancelled
before the batch is over. -/
def settledTrace : List Action :=
  [.request { key := {}, desiredRevision := 1 } false, .drain, .leave, .leave, .item, .leave, .leave,
    .leave, .leave, .leave, .leave, .leave, .leave, .leave, .leave, .item, .leave, .item, .leave,
    .leave, .leave, .leave, .awaitExact ⟨{}, 1, 1⟩ .gpuReady none, .drain, .item,
    .unsubscribe 1 ⟨{}, 1, 1⟩]

/-- The callback is called although its cancellation was applied, and the cancellation stays. -/
theorem late_cancellation_stays_settled :
    ∃ s t, Run.exec step (start [{}]) settledTrace = some s
      ∧ Run.exec step s [.item, .leave] = some t
      ∧ 1 ∈ calledIn t.history ∧ 1 ∈ t.cancelledAwaitSubscriptions := by
  have h : (Run.exec step (start [{}]) settledTrace).any (fun s =>
      decide (s.slice.phase = .awaits)
        && decide (s.postedAwaits = [{ subscription := 1, version := ⟨{}, 1, 1⟩, cancel := true }])
        && decide (1 ≤ s.nextSubscription)
        && !decide (CancelsLive (popped s [])
          (.await { subscription := 1, version := ⟨{}, 1, 1⟩, cancel := true }))
        && (step s .item).any fun s' => (step s' .leave).any fun t =>
          decide (1 ∈ calledIn t.history)) = true := by
    decide +kernel
  obtain ⟨s, hrun, hs⟩ := (Option.any_eq_true _ _).mp h
  simp only [Bool.and_eq_true, decide_eq_true_eq, Bool.not_eq_true', decide_eq_false_iff_not] at hs
  obtain ⟨⟨⟨⟨hphase, hposted⟩, hgiven⟩, hlate⟩, hnext⟩ := hs
  obtain ⟨s', hstep, hnext⟩ := (Option.any_eq_true _ _).mp hnext
  obtain ⟨t, hleave, hcalled⟩ := (Option.any_eq_true _ _).mp hnext
  have hexec : Run.exec step s' [.leave] = some t :=
    Option.bind_eq_some_iff.mpr ⟨t, hleave, rfl⟩
  exact ⟨s, t, hrun, Option.bind_eq_some_iff.mpr ⟨s', hstep, hexec⟩, of_decide_eq_true hcalled,
    late_cancellation_stays hphase hposted hgiven hlate hstep (Run.exec_reachable hexec)⟩

end ModuleServices.Graph.Proof
