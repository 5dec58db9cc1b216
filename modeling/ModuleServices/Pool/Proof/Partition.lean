import ModuleServices.Pool.Proof.Custody

/-!
# Every step keeps the books

One lemma for each access of the acquirer, and one for what may come in between. The
partition, the cap, the census and the safety of what is handed out follow in every
reachable state.
-/

namespace ModuleServices.Pool.Custody.Proof

open Custody.World

/-- The books hold, and the acquirer's phase stands. -/
structure Inv (w : World) : Prop where
  books : Books w
  stands : ∀ operation phase, w.acquirer = some (operation, phase) → Stands w phase

variable {w w' : World} {g : Nat} {operation : Operation}

theorem calm_goto (acquirer : Option (Operation × Phase)) : Calm w { w with acquirer } :=
  ⟨rfl, rfl, Nat.le_refl _, fun _ _ => rfl, fun _ _ => rfl, fun _ _ => Nat.le_refl _,
    fun _ _ => Nat.le_refl _⟩

theorem inv_goto (h : Books w) (phase : Phase) (hs : Stands w phase) :
    Inv (w.goto operation phase) where
  books := h.goto _
  stands _ _ heq := by
    obtain ⟨rfl, rfl⟩ := Prod.mk.inj (Option.some.inj heq)
    exact (calm_goto _).stands hs

theorem inv_done (h : Books w) : Inv w.done := ⟨h.goto none, fun _ _ heq => by cases heq⟩

/-! ## The pass over the free list -/

theorem Noted.of_subset {noted noted' : List Nat} (h : Noted w noted) (hnodup : noted'.Nodup)
    (hsub : ∀ g ∈ noted', g ∈ noted) : Noted w noted' :=
  ⟨hnodup, fun g hg => h.spare g (hsub g hg)⟩

theorem noted_nil : Noted w [] := ⟨List.nodup_nil, fun _ hg => by cases hg⟩

/-- The next key is passed over, or everything noted is released. -/
theorem nextActive_stands (h : Books w) {completed : Nat} {release : List Nat}
    {actives : List Active} (hclock : completed ≤ w.completed) (hnoted : Noted w release)
    (hother : ∀ g ∈ release, ∀ a ∈ actives, (w.backing g).key ≠ a.key)
    (hkeys : (actives.map Active.key).Nodup) :
    Stands w (w.nextActive completed release actives) := by
  cases actives with
  | nil => exact hnoted
  | cons active actives =>
    exact {
      clock := hclock
      ahead := fun _ => id
      nodup := free_nodup h
      taken := fun _ hg => by cases hg
      noted := hnoted
      other := hother
      keys := hkeys }

theorem readClock_inv (h : Books w) : Inv (w.advance operation .readClock) := by
  unfold advance
  cases operation with
  | acquire call =>
    exact inv_goto h (.scan ..) {
      clock := Nat.le_refl _
      ahead := fun _ => id
      nodup := free_nodup h
      taken := fun _ hg => by cases hg
      noted := noted_nil
      other := fun _ hg => by cases hg
      keys := List.nodup_singleton _ }
  | trim =>
    exact inv_goto h _ (nextActive_stands h (Nat.le_refl _) noted_nil (fun _ hg => by cases hg) h.active)

theorem takeReturned_inv (h : Books w) : Inv (w.advance operation .takeReturned) := by
  unfold advance
  cases operation with
  | acquire call => exact inv_goto (h.takeReturned.ask _) .readClock trivial
  | trim => exact inv_goto h.takeReturned .readClock trivial

/-- A backing the pass takes is spare. -/
theorem spare_of_reusable {completed : Nat} (hfree : g ∈ w.free) (hclock : completed ≤ w.completed)
    (h : reusable (w.backing g) completed = true) : Spare w g := by
  unfold reusable at h
  simp only [Bool.and_eq_true, beq_iff_eq, decide_eq_true_eq] at h
  obtain ⟨⟨⟨_, hsafe⟩, hread⟩, hbind⟩ := h
  exact ⟨⟨hfree, hread, hbind⟩, hsafe.trans hclock⟩

theorem scan_inv (h : Books w) {completed : Nat} {active : Active} {actives : List Active}
    {todo found release : List Nat}
    (hs : Scanning w completed active actives (g :: todo) found release) :
    Inv (w.advance operation (.scan completed active actives (g :: todo) found release)) := by
  obtain ⟨hclock, hahead, hnodup, htaken, hnoted, hother, hkeys⟩ := hs
  refine inv_goto h (.scan ..) ?_
  have hahead' : ∀ g ∈ todo, g ∈ w.free := fun x hx => hahead x (List.mem_cons_of_mem _ hx)
  split
  · rename_i htake
    rw [Bool.and_eq_true, beq_iff_eq] at htake
    refine ⟨hclock, hahead', ?_, fun x hx => ?_, hnoted, hother, hkeys⟩
    · rw [List.append_assoc]
      exact hnodup
    · rcases List.mem_append.mp hx with hx | hx
      · exact htaken x hx
      · rw [List.mem_singleton.mp hx]
        exact ⟨spare_of_reusable (hahead g List.mem_cons_self) hclock htake.2, htake.1⟩
  · exact ⟨hclock, hahead', hnodup.sublist ((List.sublist_cons_self _ _).append_left _), htaken,
      hnoted, hother, hkeys⟩

theorem byEpoch_perm (w : World) (preferEpoch : Nat) (found : List Nat) :
    (w.byEpoch preferEpoch found).Perm found := List.perm_insertionSort _ _

theorem surplus_sublist (w : World) (active : Active) (spares : Nat) (found : List Nat) :
    (w.surplus active spares found).Sublist found := by
  induction found generalizing spares with
  | nil => exact .slnil
  | cons g rest ih =>
    unfold surplus
    split
    · exact (ih _).cons g
    · exact (ih _).cons_cons g

/-- The pass is over: what it took is split by class, or its surplus noted beside that of the keys
before. -/
theorem scanned_inv (h : Books w) {completed : Nat} {active : Active} {actives : List Active}
    {found release : List Nat} (hs : Scanning w completed active actives [] found release) :
    Inv (w.advance operation (.scan completed active actives [] found release)) := by
  obtain ⟨hclock, _, hnodup, htaken, hnoted, hother, hkeys⟩ := hs
  rw [List.append_nil] at hnodup
  refine inv_goto h _ ?_
  cases operation with
  | acquire call =>
    simp only [scanned, List.partition_eq_filter_filter]
    have hperm : (w.byEpoch call.preferEpoch (found.filter fun g =>
        (w.backing g).capacityClass == call.request.capacityClass)
        ++ found.filter (not ∘ fun g =>
          (w.backing g).capacityClass == call.request.capacityClass)).Perm found :=
      ((byEpoch_perm w _ _).append_right _).trans (List.filter_append_perm _ _)
    exact ⟨hperm.nodup_iff.mpr hnodup, fun g hg => (htaken g (hperm.mem_iff.mp hg)).1⟩
  | trim =>
    have hsurplus : ∀ g ∈ w.surplus active 0 (w.byEpoch kMax found), g ∈ found := fun g hg =>
      (byEpoch_perm w _ _).mem_iff.mp ((surplus_sublist w _ _ _).subset hg)
    rw [List.map_cons, List.nodup_cons] at hkeys
    refine nextActive_stands h hclock ⟨?_, fun g hg => ?_⟩ (fun g hg a ha => ?_) hkeys.2
    · refine List.nodup_append.mpr ⟨hnoted.nodup,
        ((byEpoch_perm w _ _).nodup_iff.mpr hnodup).sublist (surplus_sublist w _ _ _), ?_⟩
      rintro g hg _ hg' rfl
      exact hother g hg active List.mem_cons_self (htaken g (hsurplus g hg')).2
    · rcases List.mem_append.mp hg with hg | hg
      · exact hnoted.spare g hg
      · exact (htaken g (hsurplus g hg)).1
    · rcases List.mem_append.mp hg with hg | hg
      · exact hother g hg a (List.mem_cons_of_mem _ ha)
      · rw [(htaken g (hsurplus g hg)).2]
        exact fun heq => hkeys.1 (List.mem_map.mpr ⟨a, ha, heq.symm⟩)

/-! ## Claims, releases and the hand-out -/

theorem reuse_inv (h : Books w) {same release : List Nat} (hs : Noted w (same ++ release)) :
    Inv (w.advance operation (.reuse same release)) := by
  cases same with
  | nil => exact inv_goto h (.release none release) hs
  | cons g same =>
    unfold advance
    simp only
    split
    · refine inv_goto h (.release (some g) _) (hs.of_subset ?_ fun x hx => ?_)
      · have hperm : (g :: (release ++ same)).Perm (g :: same ++ release) :=
          List.perm_append_comm.cons g
        exact (hperm.nodup_iff.mpr hs.nodup).sublist
          (((List.drop_sublist _ _).append_left _).cons_cons g)
      · simp only [Option.toList, List.singleton_append, List.mem_cons, List.mem_append] at hx ⊢
        rcases hx with hx | hx | hx
        · exact .inl (.inl hx)
        · exact .inr hx
        · exact .inl (.inr (List.mem_of_mem_drop hx))
    · exact inv_goto h (.reuse same release)
        (hs.of_subset (List.nodup_cons.mp hs.nodup).2 fun x hx => List.mem_cons_of_mem _ hx)

/-- A backing released takes nothing noted with it. -/
theorem release_inv (h : Books w) {chosen : Option Nat} {rest : List Nat}
    (hs : Noted w (chosen.toList ++ g :: rest)) :
    Inv (w.advance operation (.release chosen (g :: rest))) := by
  have hperm : (chosen.toList ++ g :: rest).Perm (g :: (chosen.toList ++ rest)) :=
    List.perm_middle
  have hnodup := List.nodup_cons.mp (hperm.nodup_iff.mp hs.nodup)
  have hrest : Noted w (chosen.toList ++ rest) :=
    hs.of_subset hnodup.2 fun x hx => hperm.mem_iff.mpr (List.mem_cons_of_mem _ hx)
  unfold advance
  simp only
  split
  · have hf : Fixed fun b => { b with retired := true } := fun _ => ⟨rfl, rfl⟩
    have hfree : g ∈ w.free := (hs.spare g (hperm.mem_iff.mpr List.mem_cons_self)).1.1
    refine inv_goto ((h.modify hf Iff.rfl).releaseBacking hfree) (.release chosen rest)
      ⟨hrest.nodup, fun x hx => ?_⟩
    have hne : x ≠ g := fun heq => hnodup.1 (heq ▸ hx)
    obtain ⟨⟨hxfree, hread, hbind⟩, hsafe⟩ := hrest.spare x hx
    refine ⟨⟨List.mem_filter.mpr ⟨hxfree, bne_iff_ne.mpr hne⟩, ?_, ?_⟩, ?_⟩ <;>
      unfold releaseBacking <;> simp only [modify_other _ hne]
    · exact hread
    · exact hbind
    · exact hsafe
  · exact inv_goto h (.release chosen rest) hrest

theorem allocation_books (h : Books w) (call : Call) (hroom : w.full call.request = false) :
    Books (w.allocation call) := by
  unfold allocation
  split
  · exact h.allocate hroom
  · exact h
  · exact ⟨h.placed, h.nodup, fun g hg => (h.fresh g hg).trans (Nat.lt_succ_self _), h.live, h.free,
      h.bytes, h.cap, h.active⟩

theorem choose_inv (h : Books w) : Inv (w.advance operation .choose) := by
  unfold advance
  cases operation with
  | trim => exact inv_done h
  | acquire call =>
    simp only
    split
    · split
      · exact inv_goto h (.scanBound w.free none)
          ⟨‹_›, fun _ => id, fun _ hg => by cases hg⟩
      · exact inv_done h
    · exact inv_done (allocation_books h call (eq_false_of_ne_true ‹_›))

/-- The best so far stays, or the next takes its place unpinned. -/
theorem betterBound_unpinned {request : BackingRequest} {bound : Option Nat} (hfree : g ∈ w.free)
    (hbound : ∀ x ∈ bound, Unpinned w x) : ∀ x ∈ w.betterBound request g bound, Unpinned w x := by
  unfold World.betterBound
  simp only
  split
  · exact hbound
  · rename_i hguard
    simp only [Bool.or_eq_true, bne_iff_ne, not_or, not_not] at hguard
    have hg : Unpinned w g := ⟨hfree, hguard.1.2, hguard.2⟩
    split
    · rintro x ⟨⟩
      exact hg
    · split
      · rintro x ⟨⟩
        exact hg
      · exact hbound

theorem scanBound_inv (h : Books w) {todo : List Nat} {bound : Option Nat}
    (hs : Stands w (.scanBound todo bound)) : Inv (w.advance operation (.scanBound todo bound)) := by
  obtain ⟨hreuse, htodo, hbound⟩ := hs
  cases todo with
  | nil =>
    cases bound with
    | none => exact inv_done h
    | some g => exact inv_goto h (.claimBound g) ⟨hreuse, hbound g rfl⟩
  | cons g todo =>
    cases operation with
    | trim => exact inv_done h
    | acquire call =>
      exact inv_goto h (.scanBound todo _) ⟨hreuse,
        fun x hx => htodo x (List.mem_cons_of_mem _ hx),
        betterBound_unpinned (htodo g List.mem_cons_self) hbound⟩

theorem advance_inv (hinv : Inv w) {phase : Phase} (hphase : w.acquirer = some (operation, phase)) :
    Inv (w.advance operation phase) := by
  have h := hinv.books
  have hs := hinv.stands operation phase hphase
  cases phase with
  | takeReturned => exact takeReturned_inv h
  | readClock => exact readClock_inv h
  | scan completed active actives todo found release =>
    cases todo with
    | nil => exact scanned_inv h hs
    | cons g todo => exact scan_inv h hs
  | reuse same release => exact reuse_inv h hs
  | release chosen rest =>
    cases rest with
    | cons g rest => exact release_inv h hs
    | nil =>
      cases chosen with
      | some g =>
        have hspare := hs.spare g List.mem_cons_self
        exact inv_goto h (.lease g false) ⟨hspare.1, nofun, fun _ => hspare⟩
      | none =>
        cases operation with
        | acquire call => exact inv_goto h .choose trivial
        | trim => exact inv_done h
  | choose => exact choose_inv h
  | scanBound todo bound => exact scanBound_inv h hs
  | claimBound g =>
    change Inv (if w.claims g then w.goto operation (.lease g true) else w.done)
    split
    · exact inv_goto h (.lease g true) ⟨hs.2, fun _ => hs.1, nofun⟩
    · exact inv_done h
  | lease g bound => exact inv_done (h.lease hs.1.1)

/-! ## What comes in between -/

/-- A step that leaves the acquirer and its free backings alone. -/
theorem Inv.calm (hinv : Inv w) (hbooks : Books w') (hcalm : Calm w w')
    (hacquirer : w'.acquirer = w.acquirer) : Inv w' :=
  ⟨hbooks, fun operation phase heq => hcalm.stands (hinv.stands operation phase (hacquirer ▸ heq))⟩

/-- A leased backing is not the acquirer's. -/
theorem calm_leased (h : Books w) (hleased : (w.backing g).leases ≠ 0) (f : Backing → Backing) :
    Calm w (w.modify g f) := by
  have hother : ∀ x ∈ w.free, (w.modify g f).backing x = w.backing x := by
    rintro x hx
    refine modify_other f ?_
    rintro rfl
    exact not_free_of_leased h hleased hx
  exact ⟨rfl, rfl, Nat.le_refl _, fun x hx => by rw [hother x hx], fun x hx => by rw [hother x hx],
    fun x hx => by rw [hother x hx], fun x hx => by rw [hother x hx]⟩

/-- A pin that goes frees a backing at most. -/
theorem calm_unpin {f : Backing → Backing} (hf : Fixed f) (hsafe : ∀ b, (f b).safeAt = b.safeAt)
    (hread : ∀ b, (f b).readbackPins ≤ b.readbackPins)
    (hbind : ∀ b, (f b).bindingConsumers ≤ b.bindingConsumers) : Calm w (w.modify g f) where
  config := rfl
  free := rfl
  clock := Nat.le_refl _
  key x _ := modify_key hf x
  safeAt x _ := by
    by_cases hx : x = g
    · rw [hx, modify_at, hsafe]
    · rw [modify_other f hx]
  readbackPins x _ := by
    by_cases hx : x = g
    · rw [hx, modify_at]
      exact hread _
    · rw [modify_other f hx]
  bindingConsumers x _ := by
    by_cases hx : x = g
    · rw [hx, modify_at]
      exact hbind _
    · rw [modify_other f hx]

theorem Inv.leased (hinv : Inv w) (hleased : (w.backing g).leases ≠ 0) {f : Backing → Backing}
    (hf : Fixed f) (hleases : 0 < (f (w.backing g)).leases) : Inv (w.modify g f) :=
  hinv.calm (hinv.books.modify hf (iff_of_true hleases (Nat.pos_of_ne_zero hleased)))
    (calm_leased hinv.books hleased f) rfl

theorem inv_step {action : Action} (hinv : Inv w) (hstep : step w action = some w') : Inv w' := by
  have hcalm : ∀ u : World, u.config = w.config → u.free = w.free → w.completed ≤ u.completed →
      u.backing = w.backing → Calm w u := by
    rintro u hconfig hfree hclock hbacking
    refine ⟨hconfig, hfree, hclock, ?_, ?_, ?_, ?_⟩ <;> simp [hbacking]
  cases action <;> simp only [step] at hstep
  case acquire call =>
    split at hstep <;> cases hstep
    exact inv_goto hinv.books .takeReturned trivial
  case trim =>
    split at hstep <;> cases hstep
    exact inv_goto hinv.books .takeReturned trivial
  case acquirer =>
    obtain ⟨⟨operation, phase⟩, hphase, rfl⟩ := Option.map_eq_some_iff.mp hstep
    exact advance_inv hinv hphase
  case copyLease g =>
    split at hstep <;> cases hstep
    exact hinv.leased ‹_› (fun _ => ⟨rfl, rfl⟩) (Nat.succ_pos _)
  case moveLease g =>
    split at hstep <;> cases hstep
    exact hinv
  case bind g safeAt =>
    split at hstep <;> cases hstep
    exact hinv.leased ‹_› (fun _ => ⟨rfl, rfl⟩) (Nat.pos_of_ne_zero ‹_›)
  case releaseLease g =>
    split at hstep <;> cases hstep
    have hleased := calm_leased hinv.books ‹_› fun b => { b with leases := b.leases - 1 }
    exact hinv.calm (hinv.books.dropLease ‹_›) ⟨hleased.config, hleased.free, hleased.clock,
      hleased.key, hleased.safeAt, hleased.readbackPins, hleased.bindingConsumers⟩ rfl
  case countFree g =>
    split at hstep <;> cases hstep
    exact hinv.calm (hinv.books.countFree ‹_›) (hcalm _ rfl rfl (Nat.le_refl _) rfl) rfl
  case push g =>
    split at hstep <;> cases hstep
    exact hinv.calm (hinv.books.push ‹_›) (hcalm _ rfl rfl (Nat.le_refl _) rfl) rfl
  case fill g contentEpoch =>
    split at hstep <;> cases hstep
    exact hinv.leased ‹_› (fun _ => ⟨rfl, rfl⟩) (Nat.pos_of_ne_zero ‹_›)
  case capture g =>
    split at hstep <;> cases hstep
    exact hinv.leased ‹_› (fun _ => ⟨rfl, rfl⟩) (Nat.pos_of_ne_zero ‹_›)
  case readBack g =>
    split at hstep <;> cases hstep
    exact hinv.calm (hinv.books.modify (fun _ => ⟨rfl, rfl⟩) Iff.rfl)
      (calm_unpin (fun _ => ⟨rfl, rfl⟩) (fun _ => rfl) (fun _ => Nat.sub_le _ _)
        fun _ => Nat.le_refl _) rfl
  case pin g =>
    split at hstep <;> cases hstep
    rename_i hguard
    rw [not_or, Option.not_isSome_iff_eq_none] at hguard
    refine ⟨hinv.books.modify (fun _ => ⟨rfl, rfl⟩) Iff.rfl, fun operation phase heq => ?_⟩
    cases hguard.1.symm.trans heq
  case unpin g =>
    split at hstep <;> cases hstep
    exact hinv.calm (hinv.books.modify (fun _ => ⟨rfl, rfl⟩) Iff.rfl)
      (calm_unpin (fun _ => ⟨rfl, rfl⟩) (fun _ => rfl) (fun _ => Nat.le_refl _)
        fun _ => Nat.sub_le _ _) rfl
  case advance completed =>
    cases hstep
    exact hinv.calm (hinv.books.clock _) (hcalm _ rfl rfl (Nat.le_max_left _ _) rfl) rfl

/-- **The books hold in every reachable state.** -/
theorem inv_reachable {config : Config} (h : Run.Reachable step (start config) w) : Inv w :=
  h.invariant ⟨books_start config, fun _ _ heq => by cases heq⟩ fun _ hinv _ hstep =>
    inv_step hinv hstep

/-! ## What follows -/

/-- The unleased backings are those on their way, returned or free. -/
theorem unleased_perm (h : Books w) :
    (w.all.filter fun g => (w.backing g).leases == 0).Perm
      (w.dropped ++ w.pushing ++ w.returned ++ w.free) := by
  rw [List.perm_iff_count]
  intro g
  have hplaced := h.placed g
  unfold places at hplaced
  simp only [List.count_append] at hplaced ⊢
  have hall : w.all.count g = if g ∈ w.all then 1 else 0 := by
    split
    · exact List.count_eq_one_of_mem h.nodup ‹_›
    · exact List.count_eq_zero.mpr ‹_›
  by_cases hleased : (w.backing g).leases = 0
  · rw [List.count_filter (by simpa using hleased), hall, ← hplaced, hleased]
    simp
  · rw [if_pos (Nat.pos_of_ne_zero hleased)] at hplaced
    have hnone : (w.all.filter fun g => (w.backing g).leases == 0).count g = 0 := by
      rw [List.count_eq_zero]
      simp [hleased]
    rw [hnone]
    split at hplaced <;> omega

/-- When nothing is under way the census is a recount. -/
theorem census_exact (h : Books w) (hquiet : Quiet w) : CensusExact w where
  live := h.live
  free := by
    rw [List.countP_eq_length_filter, (unleased_perm h).length_eq, h.free, hquiet.2.1, hquiet.2.2]
    simp only [List.nil_append, List.length_append, List.length_nil]
    omega
  bytes := h.bytes

/-- What a hand-out promises: leased once, and nobody else's. -/
structure HandedOut (w : World) (g : Nat) (bound : Bool) : Prop where
  mem : g ∈ w.all
  leases : (w.backing g).leases = 1
  readbackPins : (w.backing g).readbackPins = 0
  bindingConsumers : (w.backing g).bindingConsumers = 0
  safeAt : (w.backing g).safeAt ≤ w.completed ∨ bound = true ∧ w.config.reuseBound = true

/-- The acquirer hands out what nobody leases or pins, and, unless `reuseBound` chose it, what the
clock has reached. -/
theorem handedOut_of_inv (hinv : Inv w) {bound : Bool} (hhands : handsOut w = some (g, bound))
    (hstep : step w .acquirer = some w') : HandedOut w' g bound := by
  unfold handsOut at hhands
  split at hhands
  · rename_i operation x chosen hphase
    cases hhands
    simp only [step, hphase, Option.map_some, Option.some.injEq] at hstep
    subst hstep
    obtain ⟨⟨hfree, hread, hbind⟩, hreuse, hspare⟩ := hinv.stands _ _ hphase
    have halone := free_alone hinv.books hfree
    have hat : (w.advance operation (.lease g bound)).backing g
        = { w.backing g with leases := (w.backing g).leases + 1 } := if_pos rfl
    refine ⟨halone.mem, ?_, ?_, ?_, ?_⟩
    · rw [hat, halone.leases]
    · rw [hat]
      exact hread
    · rw [hat]
      exact hbind
    · rw [hat]
      cases bound with
      | false => exact .inl (hspare rfl).2
      | true => exact .inr ⟨rfl, hreuse rfl⟩
  · rename_i call hphase
    split at hhands
    · rename_i hmade
      cases hhands
      rw [Bool.and_eq_true, Bool.not_eq_true', beq_iff_eq] at hmade
      simp only [step, hphase, Option.map_some, Option.some.injEq] at hstep
      have hadvance : w.advance (.acquire call) .choose = (w.allocate call.request).done := by
        simp only [World.advance, hmade.1, Bool.false_eq_true, if_false, allocation, hmade.2]
      rw [hadvance] at hstep
      subst hstep
      have hat : (w.allocate call.request).done.backing w.nextGeneration
          = { key := keyOf call.request, capacityClass := call.request.capacityClass, leases := 1 } :=
        if_pos rfl
      refine ⟨List.mem_append_right _ (List.mem_singleton_self _), ?_, ?_, ?_, ?_⟩ <;> rw [hat]
      exact .inl (Nat.zero_le _)
    · cases hhands
  · cases hhands

/-- **Exclusive pool partition.** In every reachable state a backing the pool holds is in exactly one
place, once: leased, with the release that dropped its last lease, on the return stack or free. What
the acquirer hands out is nobody's, no class outgrows its bound, and the census of a quiet pool is
exact. -/
theorem exclusive_partition {config : Config} (h : Run.Reachable step (start config) w) :
    (∀ g ∈ w.all, places w g = 1)
      ∧ (∀ g bound w', handsOut w = some (g, bound) → step w .acquirer = some w' →
        HandedOut w' g bound)
      ∧ (w.config.maxPerClass ≠ 0 → ∀ key capacityClass,
        w.perClass key capacityClass ≤ w.config.maxPerClass)
      ∧ (Quiet w → CensusExact w) := by
  have hinv := inv_reachable h
  refine ⟨fun g hg => ?_, fun g bound w' => handedOut_of_inv hinv, hinv.books.cap,
    census_exact hinv.books⟩
  rw [hinv.books.placed, if_pos hg]

/-- A backing is allocated and its only lease released up to the decrement. -/
def releaseTrace : List Action :=
  [.acquire { request := { capacityClass := 4, stride := 4 } }, .acquirer, .acquirer, .acquirer,
    .acquirer, .acquirer, .acquirer, .releaseLease 1]

theorem exclusive_partition_released :
    ∃ w, Run.exec step (start {}) releaseTrace = some w ∧ places w 1 = 1 := by
  have h : (Run.exec step (start {}) releaseTrace).any (fun w => w.all == [1]) = true := by
    decide +kernel
  obtain ⟨w, hrun, hall⟩ := (Option.any_eq_true _ _).mp h
  rw [beq_iff_eq] at hall
  exact ⟨w, hrun, (exclusive_partition (Run.exec_reachable hrun)).1 1
    (hall ▸ List.mem_singleton_self 1)⟩

/-- Between the decrement and the push a backing is neither leased nor returned nor free. -/
theorem release_in_none_of_three :
    ∃ w, Run.Reachable step (start {}) w ∧ 1 ∈ w.all ∧ (w.backing 1).leases = 0
      ∧ w.returned = [] ∧ w.free = [] := by
  have h : (Run.exec step (start {}) releaseTrace).any (fun w => w.all == [1]
      && (w.backing 1).leases == 0 && w.returned == [] && w.free == []) = true := by
    decide +kernel
  obtain ⟨w, hrun, hw⟩ := (Option.any_eq_true _ _).mp h
  simp only [Bool.and_eq_true, beq_iff_eq] at hw
  exact ⟨w, Run.exec_reachable hrun, hw.1.1.1 ▸ List.mem_singleton_self 1, hw.1.1.2, hw.1.2, hw.2⟩

end ModuleServices.Pool.Custody.Proof
