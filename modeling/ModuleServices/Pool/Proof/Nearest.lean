import ModuleServices.Pool.Proof.Partition

/-!
# The nearest backing, and what goes with it

A whole call of `Acquire`, with whatever releases, readbacks, unpins and clock moves come in
between. What the pass over the free list took is noted in a plan: the class asked for, nearest
first, and the superseded ones. The first is handed out, the spares after it stay, the rest goes,
and nobody can touch any of it before the call is over, because a free backing has no lease to
bind, fill or capture it by.
-/

namespace ModuleServices.Pool.Custody.Proof

open Custody.World

/-! ## The order of preference -/

/-- `ea` is no farther from `preferEpoch` than `eb`. -/
def NoFarther (preferEpoch ea eb : Nat) : Prop := nearer preferEpoch eb ea = false

instance (preferEpoch ea eb : Nat) : Decidable (NoFarther preferEpoch ea eb) :=
  inferInstanceAs (Decidable (_ = false))

theorem noFarther_iff {p ea eb : Nat} :
    NoFarther p ea eb ↔ (ea ≤ p ∧ (eb ≤ p → eb ≤ ea)) ∨ (p < ea ∧ p < eb ∧ ea ≤ eb) := by
  unfold NoFarther nearer
  by_cases ha : ea ≤ p <;> by_cases hb : eb ≤ p <;> simp [ha, hb] <;> omega

theorem noFarther_total (p ea eb : Nat) : NoFarther p ea eb ∨ NoFarther p eb ea := by
  rw [noFarther_iff, noFarther_iff]
  omega

theorem noFarther_trans {p ea eb ec : Nat} (h : NoFarther p ea eb) (h' : NoFarther p eb ec) :
    NoFarther p ea ec := by
  rw [noFarther_iff] at h h' ⊢
  omega

/-- Only equal epochs are equally near. -/
theorem noFarther_antisymm {p ea eb : Nat} (h : NoFarther p ea eb) (h' : NoFarther p eb ea) :
    ea = eb := by
  rw [noFarther_iff] at h h'
  omega

variable {w s s' u : World} {call : Call} {g : Nat} {sorted other gone : List Nat}

def epoch (w : World) (g : Nat) : Nat := (w.backing g).contentEpoch

/-- Nearest first. -/
def Ordered (w : World) (preferEpoch : Nat) (sorted : List Nat) : Prop :=
  sorted.Pairwise fun a b => NoFarther preferEpoch (epoch w a) (epoch w b)

theorem byEpoch_ordered (w : World) (preferEpoch : Nat) (found : List Nat) :
    Ordered w preferEpoch (w.byEpoch preferEpoch found) := by
  unfold Ordered byEpoch
  have htotal : Std.Total fun a b : Nat => NoFarther preferEpoch (epoch w a) (epoch w b) :=
    ⟨fun a b => noFarther_total _ _ _⟩
  have htrans : IsTrans Nat fun a b => NoFarther preferEpoch (epoch w a) (epoch w b) :=
    ⟨fun a b c => noFarther_trans⟩
  exact List.pairwise_insertionSort
    (fun a b : Nat => NoFarther preferEpoch (epoch w a) (epoch w b)) found

/-- Whatever the order the candidates come in, the epochs come out in one. -/
theorem Ordered.epochs_eq {preferEpoch : Nat} {sorted' : List Nat}
    (h : Ordered w preferEpoch sorted) (h' : Ordered w preferEpoch sorted')
    (hperm : sorted.Perm sorted') : sorted.map (epoch w) = sorted'.map (epoch w) := by
  have hpair : ∀ {l}, Ordered w preferEpoch l → (l.map (epoch w)).Pairwise (NoFarther preferEpoch) :=
    fun h => List.pairwise_map.mpr h
  exact (hperm.map (epoch w)).eq_of_pairwise (fun a b _ _ => noFarther_antisymm) (hpair h) (hpair h')

/-- The highest epoch at or below `preferEpoch`, or else the lowest past it. -/
structure Nearest (w : World) (preferEpoch : Nat) (same : List Nat) (g : Nat) : Prop where
  mem : g ∈ same
  below : (∃ x ∈ same, epoch w x ≤ preferEpoch) → epoch w g ≤ preferEpoch
    ∧ ∀ x ∈ same, epoch w x ≤ preferEpoch → epoch w x ≤ epoch w g
  above : (∀ x ∈ same, preferEpoch < epoch w x) → ∀ x ∈ same, epoch w g ≤ epoch w x

theorem Ordered.nearest {preferEpoch : Nat} {rest : List Nat}
    (h : Ordered w preferEpoch (g :: rest)) : Nearest w preferEpoch (g :: rest) g := by
  have hfirst : ∀ x ∈ g :: rest, NoFarther preferEpoch (epoch w g) (epoch w x) := by
    intro x hx
    rcases List.mem_cons.mp hx with rfl | hx
    · rw [noFarther_iff]
      omega
    · exact List.rel_of_pairwise_cons h hx
  refine ⟨List.mem_cons_self, ?_, ?_⟩
  · rintro ⟨x, hx, hle⟩
    have hnear := noFarther_iff.mp (hfirst x hx)
    refine ⟨by omega, fun y hy hley => ?_⟩
    have hneary := noFarther_iff.mp (hfirst y hy)
    omega
  · intro hall x hx
    have hnear := noFarther_iff.mp (hfirst x hx)
    have hpast := hall g List.mem_cons_self
    omega

/-! ## What nobody can touch -/

/-- A backing without a lease stays as it is, but for pins that go. -/
structure Rests (b b' : Backing) : Prop where
  key : b'.key = b.key
  capacityClass : b'.capacityClass = b.capacityClass
  contentEpoch : b'.contentEpoch = b.contentEpoch
  safeAt : b'.safeAt = b.safeAt
  leases : b'.leases = 0
  readbackPins : b'.readbackPins ≤ b.readbackPins
  bindingConsumers : b'.bindingConsumers ≤ b.bindingConsumers

theorem Rests.same {b : Backing} (h : b.leases = 0) : Rests b b :=
  ⟨rfl, rfl, rfl, rfl, h, Nat.le_refl _, Nat.le_refl _⟩

theorem Rests.trans {b b' b'' : Backing} (h : Rests b b') (h' : Rests b' b'') : Rests b b'' where
  key := h'.key.trans h.key
  capacityClass := h'.capacityClass.trans h.capacityClass
  contentEpoch := h'.contentEpoch.trans h.contentEpoch
  safeAt := h'.safeAt.trans h.safeAt
  leases := h'.leases
  readbackPins := h'.readbackPins.trans h.readbackPins
  bindingConsumers := h'.bindingConsumers.trans h.bindingConsumers

/-- What comes in between two accesses of the acquirer. -/
structure Still (s s' : World) : Prop where
  config : s'.config = s.config
  all : s'.all = s.all
  free : s'.free = s.free
  next : s'.nextGeneration = s.nextGeneration
  acquirer : s'.acquirer = s.acquirer
  clock : s.completed ≤ s'.completed
  returned : ∀ g ∈ s.returned, g ∈ s'.returned
  rests : ∀ g, (s.backing g).leases = 0 → Rests (s.backing g) (s'.backing g)

/-- A leased backing is none of those that rest. -/
theorem still_leased {x : Nat} (h : (s.backing x).leases ≠ 0) (f : Backing → Backing) :
    Still s (s.modify x f) := by
  refine ⟨rfl, rfl, rfl, rfl, rfl, Nat.le_refl _, fun _ => id, fun g hg => ?_⟩
  have hne : g ≠ x := fun heq => h (heq ▸ hg)
  rw [modify_other f hne]
  exact .same hg

theorem still_unpin {x : Nat} {f : Backing → Backing} (hf : Fixed f)
    (hsame : ∀ b, (f b).contentEpoch = b.contentEpoch ∧ (f b).safeAt = b.safeAt
      ∧ (f b).leases = b.leases)
    (hread : ∀ b, (f b).readbackPins ≤ b.readbackPins)
    (hbind : ∀ b, (f b).bindingConsumers ≤ b.bindingConsumers) : Still s (s.modify x f) := by
  refine ⟨rfl, rfl, rfl, rfl, rfl, Nat.le_refl _, fun _ => id, fun g hg => ?_⟩
  by_cases heq : g = x
  · rw [heq] at hg ⊢
    rw [modify_at]
    obtain ⟨hepoch, hsafe, hleases⟩ := hsame (s.backing x)
    exact ⟨(hf _).1, (hf _).2, hepoch, hsafe, hleases.trans hg, hread _, hbind _⟩
  · rw [modify_other f heq]
    exact .same hg

/-- A step of anyone else while a call is in progress. -/
theorem still_step {action : Action} (hbusy : s.acquirer.isSome) (hother : action ≠ .acquirer)
    (hstep : step s action = some s') : Still s s' := by
  have hrest : ∀ t : World, t.config = s.config → t.all = s.all → t.free = s.free →
      t.nextGeneration = s.nextGeneration → t.acquirer = s.acquirer → s.completed ≤ t.completed →
      (∀ g ∈ s.returned, g ∈ t.returned) → t.backing = s.backing → Still s t := by
    intro t hconfig hall hfree hnext hacquirer hclock hreturned hbacking
    refine ⟨hconfig, hall, hfree, hnext, hacquirer, hclock, hreturned, fun g hg => ?_⟩
    rw [hbacking]
    exact .same hg
  cases action <;> simp only [step] at hstep
  case acquire call =>
    rw [if_pos hbusy] at hstep
    cases hstep
  case trim =>
    rw [if_pos hbusy] at hstep
    cases hstep
  case acquirer => exact absurd rfl hother
  case copyLease g =>
    split at hstep <;> cases hstep
    exact still_leased ‹_› _
  case moveLease g =>
    split at hstep <;> cases hstep
    exact hrest s rfl rfl rfl rfl rfl (Nat.le_refl _) (fun _ => id) rfl
  case bind g safeAt =>
    split at hstep <;> cases hstep
    exact still_leased ‹_› _
  case releaseLease g =>
    split at hstep <;> cases hstep
    have hstill := still_leased ‹(s.backing g).leases ≠ 0› fun b => { b with leases := b.leases - 1 }
    exact ⟨rfl, rfl, rfl, rfl, rfl, Nat.le_refl _, fun _ => id, hstill.rests⟩
  case countFree g =>
    split at hstep <;> cases hstep
    exact hrest _ rfl rfl rfl rfl rfl (Nat.le_refl _) (fun _ => id) rfl
  case push g =>
    split at hstep <;> cases hstep
    exact hrest _ rfl rfl rfl rfl rfl (Nat.le_refl _) (fun _ => List.mem_cons_of_mem _) rfl
  case fill g contentEpoch =>
    split at hstep <;> cases hstep
    exact still_leased ‹_› _
  case capture g =>
    split at hstep <;> cases hstep
    exact still_leased ‹_› _
  case readBack g =>
    split at hstep <;> cases hstep
    exact still_unpin (fun _ => ⟨rfl, rfl⟩) (fun _ => ⟨rfl, rfl, rfl⟩) (fun _ => Nat.sub_le _ _)
      fun _ => Nat.le_refl _
  case pin g =>
    rw [if_pos (.inl hbusy)] at hstep
    cases hstep
  case unpin g =>
    split at hstep <;> cases hstep
    exact still_unpin (fun _ => ⟨rfl, rfl⟩) (fun _ => ⟨rfl, rfl, rfl⟩) (fun _ => Nat.le_refl _)
      fun _ => Nat.sub_le _ _
  case advance completed =>
    cases hstep
    exact hrest _ rfl rfl rfl rfl rfl (Nat.le_max_left _ _) (fun _ => id) rfl

/-! ## The plan of a call -/

/-- What was free when the call began. -/
def Wanted (w : World) (call : Call) (g : Nat) : Prop :=
  g ∈ w.free ++ w.returned ∧ (w.backing g).key = keyOf call.request
    ∧ reusable (w.backing g) w.completed = true

/-- The backings the pass took: those of the class, nearest first, and those of superseded ones. -/
structure Plan (w : World) (call : Call) (s : World) (sorted other : List Nat) : Prop where
  nodup : (sorted ++ other).Nodup
  mem : ∀ g ∈ sorted ++ other, g ∈ w.all
  leases : ∀ g ∈ sorted ++ other, (s.backing g).leases = 0
  readbackPins : ∀ g ∈ sorted ++ other, (s.backing g).readbackPins = 0
  bindingConsumers : ∀ g ∈ sorted ++ other, (s.backing g).bindingConsumers = 0
  safeAt : ∀ g ∈ sorted ++ other, (s.backing g).safeAt ≤ s.completed
  key : ∀ g ∈ sorted ++ other, (s.backing g).key = keyOf call.request
  same : ∀ g ∈ sorted, (s.backing g).capacityClass = call.request.capacityClass
  superseded : ∀ g ∈ other, (s.backing g).capacityClass ≠ call.request.capacityClass
  complete : ∀ g, Wanted w call g → g ∈ sorted ++ other
  ordered : Ordered s call.preferEpoch sorted

theorem Ordered.congr {preferEpoch : Nat} (h : Ordered s preferEpoch sorted)
    (heq : ∀ g ∈ sorted, epoch s' g = epoch s g) : Ordered s' preferEpoch sorted := by
  refine List.Pairwise.imp_of_mem (fun ha hb hle => ?_) h
  rw [heq _ ha, heq _ hb]
  exact hle

theorem Plan.rests (h : Plan w call s sorted other) (hclock : s.completed ≤ s'.completed)
    (hrests : ∀ g ∈ sorted ++ other, Rests (s.backing g) (s'.backing g)) :
    Plan w call s' sorted other where
  nodup := h.nodup
  mem := h.mem
  leases g hg := (hrests g hg).leases
  readbackPins g hg := Nat.le_zero.mp (h.readbackPins g hg ▸ (hrests g hg).readbackPins)
  bindingConsumers g hg := Nat.le_zero.mp (h.bindingConsumers g hg ▸ (hrests g hg).bindingConsumers)
  safeAt g hg := by
    rw [(hrests g hg).safeAt]
    exact (h.safeAt g hg).trans hclock
  key g hg := (hrests g hg).key.trans (h.key g hg)
  same g hg := (hrests g (List.mem_append_left _ hg)).capacityClass.trans (h.same g hg)
  superseded g hg := by
    rw [(hrests g (List.mem_append_right _ hg)).capacityClass]
    exact h.superseded g hg
  complete := h.complete
  ordered := h.ordered.congr fun g hg => (hrests g (List.mem_append_left _ hg)).contentEpoch

/-- What the call releases: the superseded classes, and the class past the spares. -/
def goes (w : World) (sorted other : List Nat) : List Nat :=
  other ++ sorted.tail.drop w.config.spareFree

/-- The plan, carried out up to the backings gone. -/
structure Doing (w : World) (call : Call) (s : World) (sorted other gone : List Nat) : Prop where
  plan : Plan w call s sorted other
  all : ∀ g, g ∈ s.all ↔ g ∈ w.all ∧ g ∉ gone
  free : ∀ g ∈ sorted ++ other, g ∈ s.free ↔ g ∉ gone

/-- What holds of the pool since the call began. -/
structure Since (w s : World) : Prop where
  config : s.config = w.config
  clock : w.completed ≤ s.completed
  next : w.nextGeneration ≤ s.nextGeneration
  rests : ∀ g, (w.backing g).leases = 0 → Rests (w.backing g) (s.backing g)

/-- Where the call stands. -/
def Progress (w : World) (call : Call) (s : World) : Phase → Prop
  | .takeReturned => s.all = w.all ∧ (∀ g ∈ w.free, g ∈ s.free) ∧ ∀ g ∈ w.returned, g ∈ s.returned
  | .readClock => s.all = w.all ∧ ∀ g ∈ w.free ++ w.returned, g ∈ s.free
  | .scan completed active actives todo found release =>
    s.all = w.all ∧ w.completed ≤ completed
      ∧ active = ⟨keyOf call.request, call.request.capacityClass⟩ ∧ actives = [] ∧ release = []
      ∧ ∀ g, Wanted w call g → g ∈ found ++ todo
  | .reuse same release => Doing w call s same release []
  | .release chosen rest => ∃ sorted other gone,
      Doing w call s sorted other gone ∧ chosen = sorted.head? ∧ goes w sorted other = gone ++ rest
  | .lease g bound => ∃ sorted other, Doing w call s sorted other (goes w sorted other)
      ∧ (bound = false → sorted.head? = some g) ∧ (bound = true → sorted = [])
  | .choose | .scanBound _ _ | .claimBound _ => ∃ other, Doing w call s [] other (goes w [] other)

/-! ## One access of the call -/

theorem Doing.congr (h : Doing w call s sorted other gone) (hall : s'.all = s.all)
    (hfree : s'.free = s.free) (hclock : s.completed ≤ s'.completed)
    (hrests : ∀ g, (s.backing g).leases = 0 → Rests (s.backing g) (s'.backing g)) :
    Doing w call s' sorted other gone where
  plan := h.plan.rests hclock fun g hg => hrests g (h.plan.leases g hg)
  all g := by
    rw [hall]
    exact h.all g
  free g hg := by
    rw [hfree]
    exact h.free g hg

theorem Doing.goto (h : Doing w call s sorted other gone) (operation : Operation) (phase : Phase) :
    Doing w call (s.goto operation phase) sorted other gone :=
  h.congr rfl rfl (Nat.le_refl _) fun _ => .same

theorem Since.still (h : Since w s) (hstill : Still s s') : Since w s' where
  config := hstill.config.trans h.config
  clock := h.clock.trans hstill.clock
  next := h.next.trans_eq hstill.next.symm
  rests g hg := (h.rests g hg).trans (hstill.rests g (h.rests g hg).leases)

theorem Progress.still {phase : Phase} (h : Progress w call s phase) (hstill : Still s s') :
    Progress w call s' phase := by
  have hdoing : ∀ {sorted other gone}, Doing w call s sorted other gone →
      Doing w call s' sorted other gone := fun hdoing =>
    hdoing.congr hstill.all hstill.free hstill.clock hstill.rests
  cases phase with
  | takeReturned =>
    obtain ⟨hall, hfree, hreturned⟩ := h
    exact ⟨hstill.all.trans hall, fun g hg => hstill.free ▸ hfree g hg,
      fun g hg => hstill.returned g (hreturned g hg)⟩
  | readClock =>
    obtain ⟨hall, hfree⟩ := h
    exact ⟨hstill.all.trans hall, fun g hg => hstill.free ▸ hfree g hg⟩
  | scan completed active actives todo found release =>
    obtain ⟨hall, hrest⟩ := h
    exact ⟨hstill.all.trans hall, hrest⟩
  | reuse same release => exact hdoing h
  | release chosen rest =>
    obtain ⟨sorted, other, gone, h, hrest⟩ := h
    exact ⟨sorted, other, gone, hdoing h, hrest⟩
  | lease g bound =>
    obtain ⟨sorted, other, h, hrest⟩ := h
    exact ⟨sorted, other, hdoing h, hrest⟩
  | choose =>
    obtain ⟨other, h⟩ := h
    exact ⟨other, hdoing h⟩
  | scanBound todo bound =>
    obtain ⟨other, h⟩ := h
    exact ⟨other, hdoing h⟩
  | claimBound g =>
    obtain ⟨other, h⟩ := h
    exact ⟨other, hdoing h⟩

/-- The call goes on after the access. -/
def GoesOn (w : World) (call : Call) (s' : World) : Prop :=
  Since w s' ∧ ∃ phase, s'.acquirer = some (.acquire call, phase) ∧ Progress w call s' phase

theorem goesOn_goto (hsince : Since w s) {phase : Phase}
    (h : Progress w call (s.goto (.acquire call) phase) phase) :
    GoesOn w call (s.goto (.acquire call) phase) :=
  ⟨⟨hsince.config, hsince.clock, hsince.next, hsince.rests⟩, phase, rfl, h⟩

theorem wanted_leases (h : Wanted w call g) : (w.backing g).leases = 0 := by
  have hreusable := h.2.2
  unfold reusable at hreusable
  simp only [Bool.and_eq_true, beq_iff_eq] at hreusable
  exact hreusable.1.1.1

/-- What was reusable when the call began is so when the pass comes to it. -/
theorem wanted_taken (h : Wanted w call g) (hsince : Since w s) {completed : Nat}
    (hclock : w.completed ≤ completed) :
    ((s.backing g).key == keyOf call.request && reusable (s.backing g) completed) = true := by
  have hrests := hsince.rests g (wanted_leases h)
  obtain ⟨-, hkey, hreusable⟩ := h
  unfold reusable at hreusable ⊢
  simp only [Bool.and_eq_true, beq_iff_eq, decide_eq_true_eq] at hreusable ⊢
  obtain ⟨⟨⟨-, hsafe⟩, hread⟩, hbind⟩ := hreusable
  have hread' := hrests.readbackPins
  have hbind' := hrests.bindingConsumers
  refine ⟨hrests.key.trans hkey, ⟨⟨hrests.leases, ?_⟩, by omega⟩, by omega⟩
  rw [hrests.safeAt]
  exact hsafe.trans hclock

theorem takeReturned_goesOn (hbooks : Books w) (hsince : Since w s)
    (h : Progress w call s .takeReturned) :
    GoesOn w call (s.advance (.acquire call) .takeReturned) := by
  obtain ⟨hall, hfree, hreturned⟩ := h
  refine ⟨⟨hsince.config, hsince.clock, hsince.next, hsince.rests⟩, .readClock, rfl, hall, ?_⟩
  intro g hg
  change g ∈ s.free ++ s.returned.filter fun g => s.all.contains g
  rcases List.mem_append.mp hg with hg | hg
  · exact List.mem_append_left _ (hfree g hg)
  · have hplace : 0 < places w g := by
      have hcount := List.count_pos_iff.mpr hg
      unfold places
      omega
    refine List.mem_append_right _ (List.mem_filter.mpr ⟨hreturned g hg, ?_⟩)
    rw [List.contains_iff_mem, hall]
    exact mem_all_of_places hbooks hplace

theorem readClock_goesOn (hsince : Since w s) (h : Progress w call s .readClock) :
    GoesOn w call (s.advance (.acquire call) .readClock) := by
  obtain ⟨hall, hfree⟩ := h
  exact goesOn_goto hsince ⟨hall, hsince.clock, rfl, rfl, rfl, fun g hg => hfree g hg.1⟩

theorem scan_goesOn (hsince : Since w s) {completed : Nat} {active : Active}
    {actives : List Active} {todo found release : List Nat}
    (h : Progress w call s (.scan completed active actives (g :: todo) found release)) :
    GoesOn w call
      (s.advance (.acquire call) (.scan completed active actives (g :: todo) found release)) := by
  obtain ⟨hall, hclock, rfl, hactives, hrelease, hwanted⟩ := h
  refine goesOn_goto hsince ⟨hall, hclock, rfl, hactives, hrelease, fun x hx => ?_⟩
  have hmem := hwanted x hx
  split
  · rw [List.append_assoc]
    exact hmem
  · rename_i hnot
    rcases List.mem_append.mp hmem with hfound | htodo
    · exact List.mem_append_left _ hfound
    · rcases List.mem_cons.mp htodo with rfl | htodo
      · exact absurd (wanted_taken hx hsince hclock) hnot
      · exact List.mem_append_right _ htodo

/-- The pass is over: its two lists are the plan. -/
theorem scanned_goesOn (hinv : Inv s) (hsince : Since w s) {completed : Nat} {active : Active}
    {actives : List Active} {found release : List Nat}
    (hphase : s.acquirer = some (.acquire call, .scan completed active actives [] found release))
    (h : Progress w call s (.scan completed active actives [] found release)) :
    GoesOn w call
      (s.advance (.acquire call) (.scan completed active actives [] found release)) := by
  obtain ⟨hall, hclock, rfl, rfl, rfl, hwanted⟩ := h
  obtain ⟨-, -, hnodup, htaken, -⟩ := hinv.stands _ _ hphase
  rw [List.append_nil] at hnodup
  refine goesOn_goto hsince ?_
  simp only [scanned, List.partition_eq_filter_filter]
  have hsame := byEpoch_perm s call.preferEpoch
    (found.filter fun g => (s.backing g).capacityClass == call.request.capacityClass)
  have hperm := (hsame.append_right (found.filter (not ∘ fun g =>
    (s.backing g).capacityClass == call.request.capacityClass))).trans (List.filter_append_perm _ _)
  refine Doing.goto (s := s) ⟨?_, fun g => ?_, fun g hg => ?_⟩ _ _
  · have hfound : ∀ g ∈ found, Spare s g ∧ (s.backing g).key = keyOf call.request := htaken
    constructor
    · exact hperm.nodup_iff.mpr hnodup
    · intro g hg
      rw [← hall]
      exact (free_alone hinv.books (hfound g (hperm.mem_iff.mp hg)).1.1.1).mem
    · intro g hg
      exact (free_alone hinv.books (hfound g (hperm.mem_iff.mp hg)).1.1.1).leases
    · intro g hg
      exact (hfound g (hperm.mem_iff.mp hg)).1.1.2.1
    · intro g hg
      exact (hfound g (hperm.mem_iff.mp hg)).1.1.2.2
    · intro g hg
      exact (hfound g (hperm.mem_iff.mp hg)).1.2
    · intro g hg
      exact (hfound g (hperm.mem_iff.mp hg)).2
    · intro g hg
      exact beq_iff_eq.mp (List.mem_filter.mp (hsame.mem_iff.mp hg)).2
    · intro g hg
      have hclass := (List.mem_filter.mp hg).2
      simpa using hclass
    · intro g hg
      refine hperm.mem_iff.mpr ?_
      have hmem := hwanted g hg
      rwa [List.append_nil] at hmem
    · exact byEpoch_ordered s _ _
  · rw [hall]
    simp
  · have hmem : g ∈ s.free := (htaken g (hperm.mem_iff.mp hg)).1.1.1
    simp [hmem]

theorem Plan.claims (h : Plan w call s sorted other) (hg : g ∈ sorted ++ other) :
    s.claims g = true := by
  unfold World.claims
  rw [h.bindingConsumers g hg]
  rfl

theorem reuse_goesOn (hsince : Since w s) {same release : List Nat}
    (h : Progress w call s (.reuse same release)) :
    GoesOn w call (s.advance (.acquire call) (.reuse same release)) := by
  have hdoing : Doing w call s same release [] := h
  unfold advance
  cases same with
  | nil =>
    refine goesOn_goto hsince ⟨[], release, [], hdoing.goto _ _, rfl, ?_⟩
    unfold goes
    simp
  | cons g same =>
    simp only [hdoing.plan.claims (List.mem_append_left _ List.mem_cons_self), if_true]
    refine goesOn_goto hsince ⟨g :: same, release, [], hdoing.goto _ _, rfl, ?_⟩
    unfold goes
    rw [hsince.config]
    rfl

theorem mem_of_goes (h : g ∈ goes w sorted other) : g ∈ sorted ++ other := by
  unfold goes at h
  rcases List.mem_append.mp h with h | h
  · exact List.mem_append_right _ h
  · exact List.mem_append_left _ (List.mem_of_mem_tail (List.mem_of_mem_drop h))

/-- A backing that goes leaves the lists; the others stay. -/
theorem release_goesOn (hsince : Since w s) {chosen : Option Nat} {rest : List Nat}
    (h : Progress w call s (.release chosen (g :: rest))) :
    GoesOn w call (s.advance (.acquire call) (.release chosen (g :: rest))) := by
  obtain ⟨sorted, other, gone, hdoing, hchosen, hgoes⟩ := h
  have hg : g ∈ sorted ++ other := mem_of_goes (by rw [hgoes]; simp)
  have hrests : ∀ x, (s.backing x).leases = 0 →
      Rests (s.backing x) ((s.modify g fun b => { b with retired := true }).backing x) := by
    intro x hx
    by_cases heq : x = g
    · rw [heq] at hx ⊢
      rw [modify_at]
      exact ⟨rfl, rfl, rfl, rfl, hx, Nat.le_refl _, Nat.le_refl _⟩
    · rw [modify_other _ heq]
      exact .same hx
  have hsince' : Since w ((s.modify g fun b => { b with retired := true }).releaseBacking g) :=
    ⟨hsince.config, hsince.clock, hsince.next, fun x hx =>
      (hsince.rests x hx).trans (hrests x (hsince.rests x hx).leases)⟩
  unfold advance
  simp only [hdoing.plan.claims hg, if_true]
  refine goesOn_goto hsince' ?_
  refine ⟨sorted, other, gone ++ [g], ⟨?_, fun x => ?_, fun x hx => ?_⟩, hchosen, ?_⟩
  · exact hdoing.plan.rests (Nat.le_refl _) fun x hx => hrests x (hdoing.plan.leases x hx)
  · have hall := hdoing.all x
    change x ∈ s.all.filter (· != g) ↔ _
    rw [List.mem_filter, hall, bne_iff_ne]
    simp only [List.mem_append, List.mem_singleton, not_or]
    tauto
  · have hfree := hdoing.free x hx
    change x ∈ s.free.filter (· != g) ↔ _
    rw [List.mem_filter, hfree, bne_iff_ne]
    simp only [List.mem_append, List.mem_singleton, not_or]
  · rw [hgoes, List.append_assoc]
    rfl

/-- What was planned to go is gone. -/
theorem released_goesOn (hsince : Since w s) {chosen : Option Nat}
    (h : Progress w call s (.release chosen [])) :
    GoesOn w call (s.advance (.acquire call) (.release chosen [])) := by
  obtain ⟨sorted, other, gone, hdoing, hchosen, hgoes⟩ := h
  rw [List.append_nil] at hgoes
  rw [← hgoes] at hdoing
  cases chosen with
  | some g =>
    exact goesOn_goto hsince
      ⟨sorted, other, hdoing.goto _ _, fun _ => hchosen.symm, fun hbound => by cases hbound⟩
  | none =>
    have hnil : sorted = [] := List.head?_eq_none_iff.mp hchosen.symm
    rw [hnil] at hdoing
    exact goesOn_goto hsince ⟨other, hdoing.goto _ _⟩

theorem bound_goesOn (hsince : Since w s) {todo : List Nat} {bound : Option Nat}
    (h : Progress w call s (.scanBound todo bound)) :
    (s.advance (.acquire call) (.scanBound todo bound)).acquirer = none
      ∨ GoesOn w call (s.advance (.acquire call) (.scanBound todo bound)) := by
  obtain ⟨other, hdoing⟩ := h
  cases todo with
  | cons g todo => exact .inr (goesOn_goto hsince ⟨other, hdoing.goto _ _⟩)
  | nil =>
    cases bound with
    | some g => exact .inr (goesOn_goto hsince ⟨other, hdoing.goto _ _⟩)
    | none => exact .inl rfl

theorem advance_goesOn (hbooks : Books w) (hinv : Inv s) (hsince : Since w s) {phase : Phase}
    (hphase : s.acquirer = some (.acquire call, phase)) (h : Progress w call s phase) :
    (s.advance (.acquire call) phase).acquirer = none
      ∨ GoesOn w call (s.advance (.acquire call) phase) := by
  cases phase with
  | takeReturned => exact .inr (takeReturned_goesOn hbooks hsince h)
  | readClock => exact .inr (readClock_goesOn hsince h)
  | scan completed active actives todo found release =>
    cases todo with
    | nil => exact .inr (scanned_goesOn hinv hsince hphase h)
    | cons g todo => exact .inr (scan_goesOn hsince h)
  | reuse same release => exact .inr (reuse_goesOn hsince h)
  | release chosen rest =>
    cases rest with
    | nil => exact .inr (released_goesOn hsince h)
    | cons g rest => exact .inr (release_goesOn hsince h)
  | lease g bound => exact .inl rfl
  | choose =>
    obtain ⟨other, hdoing⟩ := h
    unfold advance
    simp only
    split
    · split
      · exact .inr (goesOn_goto hsince ⟨other, hdoing.goto _ _⟩)
      · exact .inl rfl
    · exact .inl rfl
  | scanBound todo bound => exact bound_goesOn hsince h
  | claimBound g =>
    obtain ⟨other, hdoing⟩ := h
    unfold advance
    simp only
    split
    · exact .inr (goesOn_goto hsince
        ⟨[], other, hdoing.goto _ _, fun hbound => Bool.noConfusion hbound, fun _ => rfl⟩)
    · exact .inl rfl

/-- No step is taken but while the call is in progress. -/
def InProgress (s : World) (_ : Action) : Prop := s.acquirer.isSome

/-- **Through the whole call**, whatever comes in between. -/
theorem call_progress {w₁ : World} (hinv : Inv w) (hbegin : step w (.acquire call) = some w₁)
    (hcall : Run.Within step InProgress w₁ s) :
    Inv s ∧ (s.acquirer = none ∨ GoesOn w call s) := by
  have hstart : Inv w₁ ∧ GoesOn w call w₁ := by
    refine ⟨inv_step hinv hbegin, ?_⟩
    simp only [step] at hbegin
    split at hbegin
    · cases hbegin
    · cases hbegin
      refine goesOn_goto ⟨rfl, Nat.le_refl _, Nat.le_refl _, fun _ => .same⟩ ?_
      exact ⟨rfl, fun _ => id, fun _ => id⟩
  refine hcall.invariant (I := fun s => Inv s ∧ (s.acquirer = none ∨ GoesOn w call s))
    ⟨hstart.1, .inr hstart.2⟩ ?_
  rintro s action s' - ⟨hinvs, hprogress⟩ hbusy hstep
  refine ⟨inv_step hinvs hstep, ?_⟩
  rcases hprogress with hnone | ⟨hsince, phase, hphase, hp⟩
  · unfold InProgress at hbusy
    rw [hnone] at hbusy
    cases hbusy
  by_cases hown : action = .acquirer
  · subst hown
    simp only [step, hphase, Option.map_some, Option.some.injEq] at hstep
    subst hstep
    exact advance_goesOn hinv.books hinvs hsince hphase hp
  · have hstill := still_step hbusy hown hstep
    exact .inr ⟨hsince.still hstill, phase, hstill.acquirer.trans hphase, hp.still hstill⟩

/-! ## What the call has done when it returns -/

/-- The plan when the call has returned, in the pool it leaves: `s` is the pool before its last
access. -/
structure Served (w : World) (call : Call) (s u : World) (sorted other : List Nat) : Prop where
  nodup : (sorted ++ other).Nodup
  complete : ∀ g, Wanted w call g → g ∈ sorted ++ other
  sound : ∀ g ∈ sorted ++ other, g ∈ w.all ∧ (s.backing g).leases = 0
    ∧ (s.backing g).readbackPins = 0 ∧ (s.backing g).bindingConsumers = 0
    ∧ (s.backing g).safeAt ≤ s.completed ∧ (s.backing g).key = keyOf call.request
  unchanged : ∀ g ∈ w.free ++ w.returned, Rests (w.backing g) (s.backing g)
  same : ∀ g ∈ sorted, (s.backing g).capacityClass = call.request.capacityClass
  superseded : ∀ g ∈ other, (s.backing g).capacityClass ≠ call.request.capacityClass
  ordered : Ordered s call.preferEpoch sorted
  stable : ∀ found, found.Perm sorted →
    (s.byEpoch call.preferEpoch found).map (epoch s) = sorted.map (epoch s)
  chosen : ∀ g rest, sorted = g :: rest → Nearest s call.preferEpoch sorted g
    ∧ handsOut s = some (g, false) ∧ g ∈ u.all ∧ g ∉ u.free ∧ (u.backing g).leases = 1
  spares : ∀ g ∈ sorted.tail.take w.config.spareFree, g ∈ u.all ∧ g ∈ u.free
  released : ∀ g ∈ goes w sorted other, g ∉ u.all ∧ g ∉ u.free
  others : ∀ g ∈ w.all, g ∉ goes w sorted other → g ∈ u.all

/-- How the lists stand after the last access, but for the backing it hands out. -/
structure Leaves (w s u : World) (sorted other : List Nat) : Prop where
  all : ∀ g ∈ w.all, g ∈ u.all ↔ g ∈ s.all
  free : ∀ g ∈ sorted.tail ++ other, g ∈ u.free ↔ g ∈ s.free
  chosen : ∀ g rest, sorted = g :: rest →
    handsOut s = some (g, false) ∧ g ∉ u.free ∧ (u.backing g).leases = 1

theorem notMem_goes_head {rest : List Nat} (hnodup : ((g :: rest) ++ other).Nodup) :
    g ∉ goes w (g :: rest) other := by
  rw [List.cons_append, List.nodup_cons, List.mem_append, not_or] at hnodup
  unfold goes
  rw [List.mem_append, not_or]
  exact ⟨hnodup.1.2, fun hmem => hnodup.1.1 (List.mem_of_mem_drop hmem)⟩

/-- A spare is not among those that go. -/
theorem notMem_goes_spare (hnodup : (sorted ++ other).Nodup)
    (hg : g ∈ sorted.tail.take w.config.spareFree) : g ∉ goes w sorted other := by
  obtain ⟨hsorted, -, hdisjoint⟩ := List.nodup_append.mp hnodup
  have htail : sorted.tail.Nodup := hsorted.sublist (List.tail_sublist _)
  have hmem : g ∈ sorted := List.mem_of_mem_tail (List.mem_of_mem_take hg)
  unfold goes
  rw [List.mem_append, not_or]
  refine ⟨fun hother => hdisjoint g hmem g hother rfl, fun hdrop => ?_⟩
  rw [← List.take_append_drop w.config.spareFree sorted.tail] at htail
  exact (List.nodup_append.mp htail).2.2 g hg g hdrop rfl

theorem Doing.served (h : Doing w call s sorted other (goes w sorted other)) (hbooks : Books w)
    (hsince : Since w s) (hleaves : Leaves w s u sorted other) : Served w call s u sorted other := by
  have hplan := h.plan
  constructor
  · exact hplan.nodup
  · exact hplan.complete
  · intro g hg
    exact ⟨hplan.mem g hg, hplan.leases g hg, hplan.readbackPins g hg, hplan.bindingConsumers g hg,
      hplan.safeAt g hg, hplan.key g hg⟩
  · intro g hg
    refine hsince.rests g ?_
    have hplace : 0 < w.returned.count g + w.free.count g := by
      have hcount := List.count_pos_iff.mpr hg
      rw [List.count_append] at hcount
      omega
    have hle := places_le hbooks g
    unfold places at hle
    split at hle <;> omega
  · exact hplan.same
  · exact hplan.superseded
  · exact hplan.ordered
  · intro found hfound
    exact (byEpoch_ordered s _ _).epochs_eq hplan.ordered ((byEpoch_perm s _ _).trans hfound)
  · rintro g rest rfl
    have hmem : g ∈ w.all := hplan.mem g (List.mem_append_left _ List.mem_cons_self)
    obtain ⟨hhands, hfree, hleases⟩ := hleaves.chosen g rest rfl
    refine ⟨hplan.ordered.nearest, hhands, ?_, hfree, hleases⟩
    rw [hleaves.all g hmem, h.all]
    exact ⟨hmem, notMem_goes_head hplan.nodup⟩
  · intro g hg
    have htail : g ∈ sorted.tail := List.mem_of_mem_take hg
    have hboth : g ∈ sorted ++ other := List.mem_append_left _ (List.mem_of_mem_tail htail)
    have hnot := notMem_goes_spare hplan.nodup hg
    rw [hleaves.all g (hplan.mem g hboth), h.all, hleaves.free g (List.mem_append_left _ htail),
      h.free g hboth]
    exact ⟨⟨hplan.mem g hboth, hnot⟩, hnot⟩
  · intro g hg
    have hboth := mem_of_goes hg
    have htail : g ∈ sorted.tail ++ other := by
      unfold goes at hg
      rcases List.mem_append.mp hg with hg | hg
      · exact List.mem_append_right _ hg
      · exact List.mem_append_left _ (List.mem_of_mem_drop hg)
    rw [hleaves.all g (hplan.mem g hboth), h.all, hleaves.free g htail, h.free g hboth]
    exact ⟨fun hand => hand.2 hg, fun hnot => hnot hg⟩
  · intro g hmem hnot
    rw [hleaves.all g hmem, h.all]
    exact ⟨hmem, hnot⟩

theorem leaves_same (hall : ∀ g ∈ w.all, g ∈ u.all ↔ g ∈ s.all) (hfree : u.free = s.free) :
    Leaves w s u [] other where
  all := hall
  free g _ := by rw [hfree]
  chosen g rest heq := by cases heq

/-- A new backing takes a generation that no list holds. -/
theorem allocation_all (hbooks : Books w) (hsince : Since w s) (hg : g ∈ w.all) (made : Call) :
    g ∈ (s.allocation made).all ↔ g ∈ s.all := by
  unfold allocation
  split
  · have hne : g ≠ s.nextGeneration := ((hbooks.fresh g hg).trans_le hsince.next).ne
    change g ∈ s.all ++ [s.nextGeneration] ↔ _
    simp [hne]
  · rfl
  · rfl

/-- The last access of a call leaves the lists as the plan has them. -/
theorem last_served (hbooks : Books w) (hsince : Since w s) {phase : Phase}
    (hphase : s.acquirer = some (.acquire call, phase)) (h : Progress w call s phase)
    (hdone : (s.advance (.acquire call) phase).acquirer = none) :
    ∃ sorted other, Served w call s (s.advance (.acquire call) phase) sorted other := by
  cases phase with
  | lease g bound =>
    obtain ⟨sorted, other, hdoing, hfirst, hnone⟩ := h
    refine ⟨sorted, other, hdoing.served hbooks hsince ⟨fun _ _ => Iff.rfl, fun x hx => ?_, ?_⟩⟩
    · have hne : x ≠ g ∨ x ∉ s.free := by
        cases bound with
        | true =>
          rw [hnone rfl] at hdoing hx
          refine .inr fun hfree => (hdoing.free x hx).mp hfree ?_
          unfold goes
          exact List.mem_append_left _ hx
        | false =>
          obtain ⟨rest, rfl⟩ := List.head?_eq_some_iff.mp (hfirst rfl)
          refine .inl fun heq => ?_
          have hnodup := hdoing.plan.nodup
          rw [List.cons_append, List.nodup_cons] at hnodup
          exact hnodup.1 (heq ▸ hx)
      change x ∈ s.free.filter (· != g) ↔ _
      rw [List.mem_filter, bne_iff_ne]
      tauto
    · intro x rest hsorted
      cases bound with
      | true =>
        rw [hnone rfl] at hsorted
        cases hsorted
      | false =>
        have heq : x = g := by
          rw [hsorted] at hfirst
          exact Option.some.inj (hfirst rfl)
        subst heq
        have hleases := hdoing.plan.leases x (by rw [hsorted]; simp)
        refine ⟨?_, ?_, ?_⟩
        · unfold handsOut
          rw [hphase]
        · change x ∉ s.free.filter (· != x)
          simp
        · have hat : (s.advance (.acquire call) (.lease x false)).backing x
              = { s.backing x with leases := (s.backing x).leases + 1 } := if_pos rfl
          rw [hat, hleases]
  | choose =>
    obtain ⟨other, hdoing⟩ := h
    refine ⟨[], other, hdoing.served hbooks hsince ?_⟩
    unfold advance at hdone ⊢
    simp only at hdone ⊢
    split
    · split
      · rename_i hfull hreuse
        rw [if_pos hfull, if_pos hreuse] at hdone
        cases hdone
      · exact leaves_same (fun _ _ => Iff.rfl) rfl
    · refine leaves_same (fun g hg => allocation_all hbooks hsince hg call) ?_
      change (s.allocation call).free = s.free
      unfold allocation
      split <;> rfl
  | scanBound todo bound =>
    obtain ⟨other, hdoing⟩ := h
    refine ⟨[], other, hdoing.served hbooks hsince ?_⟩
    cases todo with
    | cons g todo => cases hdone
    | nil =>
      cases bound with
      | some g => cases hdone
      | none => exact leaves_same (fun _ _ => Iff.rfl) rfl
  | claimBound g =>
    obtain ⟨other, hdoing⟩ := h
    refine ⟨[], other, hdoing.served hbooks hsince ?_⟩
    unfold advance at hdone ⊢
    simp only at hdone ⊢
    split
    · rename_i hclaims
      rw [if_pos hclaims] at hdone
      cases hdone
    · exact leaves_same (fun _ _ => Iff.rfl) rfl
  | takeReturned => cases hdone
  | readClock => cases hdone
  | scan completed active actives todo found release =>
    cases todo <;> cases hdone
  | reuse same release =>
    unfold advance at hdone
    cases same with
    | nil => cases hdone
    | cons g same =>
      simp only at hdone
      split at hdone <;> cases hdone
  | release chosen rest =>
    cases rest with
    | nil => cases chosen <;> cases hdone
    | cons g rest => cases hdone

/-- **`Acquire` picks the nearest backing and releases only what is superseded.** In any reachable
pool, with any accesses of others in between (no pin arrives while the call is in progress). -/
theorem acquire_nearest {config : Config} {w₁ : World} (h : Run.Reachable step (start config) w)
    (hbegin : step w (.acquire call) = some w₁) (hcall : Run.Within step InProgress w₁ s)
    (hlast : step s .acquirer = some u) (hdone : u.acquirer = none) :
    ∃ sorted other, Served w call s u sorted other := by
  have hinv := inv_reachable h
  obtain ⟨-, hprogress⟩ := call_progress hinv hbegin hcall
  rcases hprogress with hnone | ⟨hsince, phase, hphase, hp⟩
  · simp only [step, hnone, Option.map_none] at hlast
    cases hlast
  · simp only [step, hphase, Option.map_some, Option.some.injEq] at hlast
    subst hlast
    exact last_served hinv.books hsince hphase hp hdone

/-- Two backings of one class, with the contents of epochs 3 and 7, are returned. -/
def epochsTrace : List Action :=
  [.acquire { request := { capacityClass := 4, stride := 4 } }, .acquirer, .acquirer, .acquirer,
    .acquirer, .acquirer, .acquirer, .acquire { request := { capacityClass := 4, stride := 4 } },
    .acquirer, .acquirer, .acquirer, .acquirer, .acquirer, .acquirer, .fill 1 3, .fill 2 7,
    .releaseLease 1, .countFree 1, .push 1, .releaseLease 2, .countFree 2, .push 2]

/-- The call that picks one of them, up to its last access. -/
def pickTrace : List Action :=
  [.acquirer, .acquirer, .acquirer, .acquirer, .acquirer, .acquirer, .acquirer]

/-- A call that prefers epoch 5. -/
def pickCall : Call := { request := { capacityClass := 4, stride := 4 }, preferEpoch := 5 }

theorem acquire_nearest_epochs : ∃ w w₁ s u, Run.exec step (start {}) epochsTrace = some w
    ∧ step w (.acquire pickCall) = some w₁ ∧ step s .acquirer = some u ∧ u.acquirer = none
    ∧ handsOut s = some (1, false) ∧ ∃ sorted other, Served w pickCall s u sorted other := by
  have h : ((Run.exec step (start {}) epochsTrace).any fun w =>
      (step w (.acquire pickCall)).any fun w₁ =>
        (Run.exec (Run.checked step fun s _ => s.acquirer.isSome) w₁ pickTrace).any fun s =>
          handsOut s == some (1, false) && (step s .acquirer).any fun u => u.acquirer.isNone)
      = true := by
    decide +kernel
  obtain ⟨w, hw, h⟩ := (Option.any_eq_true _ _).mp h
  obtain ⟨w₁, hw₁, h⟩ := (Option.any_eq_true _ _).mp h
  obtain ⟨s, hs, h⟩ := (Option.any_eq_true _ _).mp h
  rw [Bool.and_eq_true, beq_iff_eq] at h
  obtain ⟨u, hu, hdone⟩ := (Option.any_eq_true _ _).mp h.2
  rw [Option.isNone_iff_eq_none] at hdone
  have hcall : Run.Within step InProgress w₁ s := Run.exec_checked_within (fun _ _ => id) hs
  exact ⟨w, w₁, s, u, hw, hw₁, hu, hdone, h.1,
    acquire_nearest (Run.exec_reachable hw) hw₁ hcall hu hdone⟩

end ModuleServices.Pool.Custody.Proof
