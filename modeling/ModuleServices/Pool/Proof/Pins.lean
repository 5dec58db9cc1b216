import ModuleServices.Pool.Pins
import ModuleServices.Pool.Proof.Partition

/-!
# A claim and a pin never both succeed

A claim that succeeds has read a consumer count of zero with `retired` published: whoever
held a pin as it began is gone by then, and whoever counts itself later finds `retired`.
That `retired` stays for a released backing needs the pool's lists: no later claim comes
to a backing that has left the free list (`Listed`).
-/

namespace ModuleServices.Pool.Pins.Proof

open Custody (Phase Operation Active byteCapacity)
open Custody.Proof (Books Fixed free_alone free_nodup modify_at modify_other modify_key byEpoch_perm
  surplus_sublist allocation_books not_free_of_leased)

variable {w w' : World} {p p' : Custody.World} {g : Nat} {operation : Operation} {phase : Phase}

/-! ## What the acquirer's lists are -/

/-- Free backings, each once. -/
structure Noted (p : Custody.World) (noted : List Nat) : Prop where
  nodup : noted.Nodup
  free : ∀ g ∈ noted, g ∈ p.free

/-- A pass over the free list. `Trim` notes what it releases key by key, and no key comes twice. -/
structure Scanning (p : Custody.World) (active : Active) (actives : List Active)
    (todo found release : List Nat) : Prop where
  noted : Noted p (found ++ todo)
  key : ∀ g ∈ found, (p.backing g).key = active.key
  kept : Noted p release
  other : ∀ g ∈ release, ∀ a ∈ active :: actives, (p.backing g).key ≠ a.key
  keys : ((active :: actives).map Active.key).Nodup

/-- The acquirer's lists are of free backings, whatever pins come. -/
def Listed (p : Custody.World) : Phase → Prop
  | .takeReturned | .readClock | .choose => True
  | .scan _ active actives todo found release => Scanning p active actives todo found release
  | .reuse same release => Noted p (same ++ release)
  | .release chosen rest => Noted p (chosen.toList ++ rest)
  | .scanBound todo bound => (∀ g ∈ todo, g ∈ p.free) ∧ ∀ g ∈ bound, g ∈ p.free
  | .claimBound g | .lease g _ => g ∈ p.free

theorem Noted.of_subset {noted noted' : List Nat} (h : Noted p noted) (hnodup : noted'.Nodup)
    (hsub : ∀ g ∈ noted', g ∈ noted) : Noted p noted' := ⟨hnodup, fun g hg => h.free g (hsub g hg)⟩

theorem Noted.mono {noted : List Nat} (h : Noted p noted) (hfree : p'.free = p.free) :
    Noted p' noted := ⟨h.nodup, fun g hg => hfree ▸ h.free g hg⟩

theorem Listed.mono (h : Listed p phase) (hfree : p'.free = p.free)
    (hkey : ∀ g, (p'.backing g).key = (p.backing g).key) : Listed p' phase := by
  cases phase with
  | takeReturned | readClock | choose => trivial
  | scan completed active actives todo found release =>
    obtain ⟨hnoted, hfound, hrelease, hother, hkeys⟩ := h
    exact ⟨hnoted.mono hfree, fun g hg => (hkey g).trans (hfound g hg), hrelease.mono hfree,
      fun g hg a ha => by rw [hkey]; exact hother g hg a ha, hkeys⟩
  | reuse | release => exact Noted.mono h hfree
  | scanBound => exact ⟨fun g hg => hfree ▸ h.1 g hg, fun g hg => hfree ▸ h.2 g hg⟩
  | claimBound | lease =>
    change _ ∈ p'.free
    rw [hfree]
    exact h

theorem noted_nil : Noted p [] := ⟨List.nodup_nil, nofun⟩

theorem nextActive_listed (h : Books p) {completed : Nat} {release : List Nat}
    {actives : List Active} (hrelease : Noted p release)
    (hother : ∀ g ∈ release, ∀ a ∈ actives, (p.backing g).key ≠ a.key)
    (hkeys : (actives.map Active.key).Nodup) : Listed p (p.nextActive completed release actives) := by
  cases actives with
  | nil => exact hrelease
  | cons active actives =>
    exact ⟨⟨free_nodup h, fun _ hg => hg⟩, nofun, hrelease, hother, hkeys⟩

theorem scan_listed {completed : Nat} {active : Active} {actives : List Active}
    {todo found release : List Nat} (h : Scanning p active actives (g :: todo) found release) :
    Scanning p active actives todo
      (if (p.backing g).key == active.key && reusable (p.backing g) completed then found ++ [g]
        else found) release := by
  obtain ⟨hnoted, hfound, hrelease, hother, hkeys⟩ := h
  split
  · rename_i htake
    rw [Bool.and_eq_true, beq_iff_eq] at htake
    refine ⟨?_, fun x hx => ?_, hrelease, hother, hkeys⟩
    · rw [List.append_assoc]
      exact hnoted
    · rcases List.mem_append.mp hx with hx | hx
      · exact hfound x hx
      · rw [List.mem_singleton.mp hx]
        exact htake.1
  · have hsub : (found ++ todo).Sublist (found ++ g :: todo) :=
      (List.sublist_cons_self g todo).append_left found
    exact ⟨hnoted.of_subset (hnoted.nodup.sublist hsub) fun _ hx => hsub.subset hx, hfound, hrelease,
      hother, hkeys⟩

/-- The pass is over: what it took is split by class, or its surplus noted beside that of the keys
before. -/
theorem scanned_listed (h : Books p) {completed : Nat} {active : Active} {actives : List Active}
    {found release : List Nat} (hs : Scanning p active actives [] found release) :
    Listed p (p.scanned completed active actives found release operation) := by
  obtain ⟨hnoted, hfound, hrelease, hother, hkeys⟩ := hs
  rw [List.append_nil] at hnoted
  cases operation with
  | acquire call =>
    simp only [Custody.World.scanned, List.partition_eq_filter_filter]
    have hperm : (p.byEpoch call.preferEpoch (found.filter fun g =>
        (p.backing g).capacityClass == call.request.capacityClass)
        ++ found.filter (not ∘ fun g =>
          (p.backing g).capacityClass == call.request.capacityClass)).Perm found :=
      ((byEpoch_perm p _ _).append_right _).trans (List.filter_append_perm _ _)
    exact hnoted.of_subset (hperm.nodup_iff.mpr hnoted.nodup) fun g hg => hperm.mem_iff.mp hg
  | trim =>
    have hsurplus : ∀ g ∈ p.surplus active 0 (p.byEpoch kMax found), g ∈ found := fun g hg =>
      (byEpoch_perm p _ _).mem_iff.mp ((surplus_sublist p _ _ _).subset hg)
    rw [List.map_cons, List.nodup_cons] at hkeys
    refine nextActive_listed h ⟨?_, fun g hg => ?_⟩ (fun g hg a ha => ?_) hkeys.2
    · refine List.nodup_append.mpr ⟨hrelease.nodup,
        ((byEpoch_perm p _ _).nodup_iff.mpr hnoted.nodup).sublist (surplus_sublist p _ _ _), ?_⟩
      rintro g hg _ hg' rfl
      exact hother g hg active List.mem_cons_self (hfound g (hsurplus g hg'))
    · rcases List.mem_append.mp hg with hg | hg
      · exact hrelease.free g hg
      · exact hnoted.free g (hsurplus g hg)
    · rcases List.mem_append.mp hg with hg | hg
      · exact hother g hg a (List.mem_cons_of_mem _ ha)
      · rw [hfound g (hsurplus g hg)]
        exact fun heq => hkeys.1 (List.mem_map.mpr ⟨a, ha, heq.symm⟩)

/-! ## The acquirer's accesses -/

/-- What an access of the acquirer's leaves of the pool. -/
structure Advanced (p p' : Custody.World) : Prop where
  books : Books p'
  listed : ∀ operation phase, p'.acquirer = some (operation, phase) → Listed p' phase
  next : p.nextGeneration ≤ p'.nextGeneration
  all : ∀ g < p.nextGeneration, g ∈ p'.all → g ∈ p.all
  consumers : ∀ g < p.nextGeneration,
    (p'.backing g).bindingConsumers = (p.backing g).bindingConsumers
  fresh : ∀ g, p.nextGeneration ≤ g → (p'.backing g).bindingConsumers = 0
    ∨ (p'.backing g).bindingConsumers = (p.backing g).bindingConsumers
  retired : ∀ g < p.nextGeneration, (p.backing g).retired = true → (p'.backing g).retired = true

/-- The acquirer goes on and writes to no backing. -/
theorem advanced_of_same {acquirer : Option (Operation × Phase)} (h : Books p')
    (hs : ∀ operation phase, acquirer = some (operation, phase) → Listed p' phase)
    (hall : p'.all = p.all) (hnext : p'.nextGeneration = p.nextGeneration)
    (hbacking : p'.backing = p.backing) : Advanced p { p' with acquirer } where
  books := h.goto acquirer
  listed operation phase heq := (hs operation phase heq).mono rfl fun _ => rfl
  next := Nat.le_of_eq hnext.symm
  all g _ hg := hall ▸ hg
  consumers g _ := by simp only [hbacking]
  fresh g _ := .inr (by simp only [hbacking])
  retired g _ hr := by simpa only [hbacking] using hr

theorem advanced_goto (h : Books p) (phase : Phase) (hs : Listed p phase) : Advanced p (p.goto operation phase) := by
  refine advanced_of_same h (fun _ _ heq => ?_) rfl rfl rfl
  obtain ⟨rfl, rfl⟩ := Prod.mk.inj (Option.some.inj heq)
  exact hs

theorem advanced_done (h : Books p) : Advanced p p.done := advanced_of_same h nofun rfl rfl rfl

theorem advanced_reuse (h : Books p) {same release : List Nat} (hs : Noted p (same ++ release)) :
    Advanced p (p.advance operation (.reuse same release)) := by
  cases same with
  | nil => exact advanced_goto h (.release none release) hs
  | cons g same =>
    unfold Custody.World.advance
    simp only
    split
    · refine advanced_goto h (.release (some g) _) (hs.of_subset ?_ fun x hx => ?_)
      · have hperm : (g :: (release ++ same)).Perm (g :: same ++ release) :=
          List.perm_append_comm.cons g
        exact (hperm.nodup_iff.mpr hs.nodup).sublist
          (((List.drop_sublist _ _).append_left _).cons_cons g)
      · simp only [Option.toList, List.singleton_append, List.mem_cons, List.mem_append] at hx ⊢
        rcases hx with hx | hx | hx
        · exact .inl (.inl hx)
        · exact .inr hx
        · exact .inl (.inr (List.mem_of_mem_drop hx))
    · exact advanced_goto h (.reuse same release)
        (hs.of_subset (List.nodup_cons.mp hs.nodup).2 fun x hx => List.mem_cons_of_mem _ hx)

theorem fixed_retired (retired : Bool) : Fixed fun b => { b with retired } := fun _ => ⟨rfl, rfl⟩

/-- A backing released takes nothing noted with it. -/
theorem advanced_release (h : Books p) {chosen : Option Nat} {rest : List Nat}
    (hs : Noted p (chosen.toList ++ g :: rest)) :
    Advanced p (p.advance operation (.release chosen (g :: rest))) := by
  have hperm : (chosen.toList ++ g :: rest).Perm (g :: (chosen.toList ++ rest)) :=
    List.perm_middle
  have hnodup := List.nodup_cons.mp (hperm.nodup_iff.mp hs.nodup)
  have hrest : Noted p (chosen.toList ++ rest) :=
    hs.of_subset hnodup.2 fun x hx => hperm.mem_iff.mpr (List.mem_cons_of_mem _ hx)
  unfold Custody.World.advance
  simp only
  split
  · have hfree : g ∈ p.free := hs.free g (hperm.mem_iff.mpr List.mem_cons_self)
    have hbooks := (h.modify (g := g) (fixed_retired true) Iff.rfl).releaseBacking hfree
    refine ⟨hbooks.goto _, fun _ _ heq => ?_, Nat.le_refl _, fun x _ hx => ?_, fun x _ => ?_,
      fun x _ => .inr ?_, fun x _ hr => ?_⟩
    · obtain ⟨rfl, rfl⟩ := Prod.mk.inj (Option.some.inj heq)
      refine ⟨hnodup.2, fun x hx => List.mem_filter.mpr ⟨hrest.free x hx, bne_iff_ne.mpr ?_⟩⟩
      rintro rfl
      exact hnodup.1 hx
    · exact (List.mem_filter.mp hx).1
    all_goals
      by_cases hx : x = g
      · subst hx
        simp [Custody.World.goto, Custody.World.releaseBacking, modify_at]
      · simpa [Custody.World.goto, Custody.World.releaseBacking, modify_other _ hx] using hr
  · exact advanced_goto h (.release chosen rest) hrest

theorem advanced_allocation (h : Books p) (call : Custody.Call) (hroom : p.full call.request = false) :
    Advanced p (p.allocation call).done := by
  have hbooks := allocation_books h call hroom
  unfold Custody.World.allocation at hbooks ⊢
  cases hallocation : call.allocation with
  | hookThrows => exact advanced_done h
  | tagThrows =>
    simp only [hallocation] at hbooks
    exact ⟨hbooks.goto none, nofun, Nat.le_succ _, fun _ _ hg => hg, fun _ _ => rfl,
      fun _ _ => .inr rfl, fun _ _ hr => hr⟩
  | made =>
    simp only [hallocation] at hbooks
    have hsame : ∀ x, x ≠ p.nextGeneration →
        (p.allocate call.request).done.backing x = p.backing x := fun x hx => if_neg hx
    refine ⟨hbooks.goto none, nofun, Nat.le_succ _, fun x hx hmem => ?_, fun x hx => ?_,
      fun x hx => ?_, fun x hx hr => ?_⟩
    · rcases List.mem_append.mp hmem with hmem | hmem
      · exact hmem
      · exact absurd (List.mem_singleton.mp hmem) hx.ne
    · rw [hsame x hx.ne]
    · by_cases heq : x = p.nextGeneration
      · refine .inl ?_
        have hat : (p.allocate call.request).done.backing x
            = { key := keyOf call.request, capacityClass := call.request.capacityClass
                leases := 1 } := if_pos heq
        rw [hat]
      · exact .inr (by rw [hsame x heq])
    · rw [hsame x hx.ne]
      exact hr

theorem advanced_choose (h : Books p) : Advanced p (p.advance operation .choose) := by
  unfold Custody.World.advance
  cases operation with
  | trim => exact advanced_done h
  | acquire call =>
    simp only
    split
    · split
      · exact advanced_goto h (.scanBound p.free none) ⟨fun _ hg => hg, nofun⟩
      · exact advanced_done h
    · exact advanced_allocation h call (eq_false_of_ne_true ‹_›)

/-- The best so far stays, or the next takes its place. -/
theorem betterBound_free {request : BackingRequest} {bound : Option Nat} (hfree : g ∈ p.free)
    (hbound : ∀ x ∈ bound, x ∈ p.free) : ∀ x ∈ p.betterBound request g bound, x ∈ p.free := by
  unfold Custody.World.betterBound
  simp only
  split
  · exact hbound
  · split
    · rintro x ⟨⟩
      exact hfree
    · split
      · rintro x ⟨⟩
        exact hfree
      · exact hbound

theorem advanced_scanBound (h : Books p) {todo : List Nat} {bound : Option Nat}
    (hs : Listed p (.scanBound todo bound)) :
    Advanced p (p.advance operation (.scanBound todo bound)) := by
  obtain ⟨htodo, hbound⟩ := hs
  cases todo with
  | nil =>
    cases bound with
    | none => exact advanced_done h
    | some g => exact advanced_goto h (.claimBound g) (hbound g rfl)
  | cons g todo =>
    cases operation with
    | trim => exact advanced_done h
    | acquire call =>
      exact advanced_goto h (.scanBound todo _)
        ⟨fun x hx => htodo x (List.mem_cons_of_mem _ hx),
          betterBound_free (htodo g List.mem_cons_self) hbound⟩

theorem advanced_lease (h : Books p) {bound : Bool} (hfree : g ∈ p.free) :
    Advanced p (p.advance operation (.lease g bound)) := by
  refine ⟨(h.lease hfree).goto none, nofun, Nat.le_refl _, fun _ _ hg => hg, fun x _ => ?_,
    fun x _ => .inr ?_, fun x _ hr => ?_⟩
  all_goals
    by_cases hx : x = g
    · subst hx
      simpa [Custody.World.advance, Custody.World.done, modify_at]
    · simpa [Custody.World.advance, Custody.World.done, modify_other _ hx]

theorem advanced (operation : Operation) (h : Books p) (hs : Listed p phase) : Advanced p (p.advance operation phase) := by
  cases phase with
  | takeReturned =>
    unfold Custody.World.advance
    cases operation with
    | acquire call =>
      refine advanced_of_same (h.takeReturned.ask _) (fun _ _ heq => ?_) rfl rfl rfl
      obtain ⟨rfl, rfl⟩ := Prod.mk.inj (Option.some.inj heq)
      trivial
    | trim =>
      refine advanced_of_same h.takeReturned (fun _ _ heq => ?_) rfl rfl rfl
      obtain ⟨rfl, rfl⟩ := Prod.mk.inj (Option.some.inj heq)
      trivial
  | readClock =>
    unfold Custody.World.advance
    cases operation with
    | acquire call =>
      exact advanced_goto h (.scan ..) ⟨⟨free_nodup h, fun _ hg => hg⟩, nofun, noted_nil,
        nofun, List.nodup_singleton _⟩
    | trim => exact advanced_goto h _ (nextActive_listed h noted_nil nofun h.active)
  | scan completed active actives todo found release =>
    cases todo with
    | nil => exact advanced_goto h _ (scanned_listed h hs)
    | cons g todo => exact advanced_goto h (.scan ..) (scan_listed hs)
  | reuse same release => exact advanced_reuse h hs
  | release chosen rest =>
    cases rest with
    | cons g rest => exact advanced_release h hs
    | nil =>
      cases chosen with
      | some g => exact advanced_goto h (.lease g false) (hs.free g List.mem_cons_self)
      | none =>
        cases operation with
        | acquire call => exact advanced_goto h (.choose) trivial
        | trim => exact advanced_done h
  | choose => exact advanced_choose h
  | scanBound todo bound => exact advanced_scanBound h hs
  | claimBound g =>
    change Advanced p (if p.claims g then p.goto operation (.lease g true) else p.done)
    split
    · exact advanced_goto h (.lease g true) hs
    · exact advanced_done h
  | lease g bound => exact advanced_lease h hs

/-! ## What comes in between -/

/-- What the others' steps leave of the pool. -/
structure Aside (p p' : Custody.World) : Prop where
  books : Books p'
  acquirer : p'.acquirer = p.acquirer
  free : p'.free = p.free
  all : p'.all = p.all
  next : p'.nextGeneration = p.nextGeneration
  key : ∀ g, (p'.backing g).key = (p.backing g).key
  consumers : ∀ g, (p'.backing g).bindingConsumers = (p.backing g).bindingConsumers
  retired : ∀ g, (p'.backing g).retired = (p.backing g).retired

/-- A backing's own fields change, but not those the pins depend on. -/
theorem Aside.of_modify {f : Backing → Backing} (h : Books (p'.modify g f)) (hf : Fixed f)
    (hpins : ∀ b, (f b).bindingConsumers = b.bindingConsumers ∧ (f b).retired = b.retired)
    (hacquirer : p'.acquirer = p.acquirer) (hfree : p'.free = p.free) (hall : p'.all = p.all)
    (hnext : p'.nextGeneration = p.nextGeneration) (hbacking : p'.backing = p.backing) :
    Aside p (p'.modify g f) := by
  refine ⟨h, hacquirer, hfree, hall, hnext, fun x => ?_, fun x => ?_, fun x => ?_⟩
  · rw [modify_key hf, hbacking]
  all_goals
    by_cases hx : x = g
    · subst hx
      rw [modify_at, hbacking]
      simp only [hpins]
    · rw [modify_other f hx, hbacking]

/-- The steps that are neither the acquirer's nor a pin's. -/
def Others : Custody.Action → Prop
  | .acquire _ | .trim | .acquirer | .pin _ | .unpin _ => False
  | _ => True

theorem aside_step {action : Custody.Action} (h : Books p) (hs : Custody.step p action = some p')
    (hothers : Others action) : Aside p p' := by
  have hkeep : ∀ {f : Backing → Backing} {g : Nat}, Fixed f →
      (∀ b, (f b).bindingConsumers = b.bindingConsumers ∧ (f b).retired = b.retired) →
      (0 < (f (p.backing g)).leases ↔ 0 < (p.backing g).leases) → Aside p (p.modify g f) :=
    fun hf hpins hleases => .of_modify (h.modify hf hleases) hf hpins rfl rfl rfl rfl rfl
  cases action <;> simp only [Custody.step] at hs
  case acquire | trim | acquirer | pin | unpin => exact hothers.elim
  case copyLease g =>
    split at hs <;> cases hs
    exact hkeep (fun _ => ⟨rfl, rfl⟩) (fun _ => ⟨rfl, rfl⟩)
      (iff_of_true (Nat.succ_pos _) (Nat.pos_of_ne_zero ‹_›))
  case moveLease g =>
    split at hs <;> cases hs
    exact ⟨h, rfl, rfl, rfl, rfl, fun _ => rfl, fun _ => rfl, fun _ => rfl⟩
  case bind g safeAt =>
    split at hs <;> cases hs
    exact hkeep (fun _ => ⟨rfl, rfl⟩) (fun _ => ⟨rfl, rfl⟩) Iff.rfl
  case releaseLease g =>
    split at hs <;> cases hs
    exact .of_modify (h.dropLease ‹_›) (fun _ => ⟨rfl, rfl⟩) (fun _ => ⟨rfl, rfl⟩) rfl rfl rfl rfl
      rfl
  case countFree g =>
    split at hs <;> cases hs
    exact ⟨h.countFree ‹_›, rfl, rfl, rfl, rfl, fun _ => rfl, fun _ => rfl, fun _ => rfl⟩
  case push g =>
    split at hs <;> cases hs
    exact ⟨h.push ‹_›, rfl, rfl, rfl, rfl, fun _ => rfl, fun _ => rfl, fun _ => rfl⟩
  case fill g contentEpoch =>
    split at hs <;> cases hs
    exact hkeep (fun _ => ⟨rfl, rfl⟩) (fun _ => ⟨rfl, rfl⟩) Iff.rfl
  case capture g =>
    split at hs <;> cases hs
    exact hkeep (fun _ => ⟨rfl, rfl⟩) (fun _ => ⟨rfl, rfl⟩) Iff.rfl
  case readBack g =>
    split at hs <;> cases hs
    exact hkeep (fun _ => ⟨rfl, rfl⟩) (fun _ => ⟨rfl, rfl⟩) Iff.rfl
  case advance completed =>
    cases hs
    exact ⟨h.clock _, rfl, rfl, rfl, rfl, fun _ => rfl, fun _ => rfl, fun _ => rfl⟩

/-! ## Claims and pins -/

/-- The claim in progress is of a free backing, and the pins held as it began are held still or have
gone. -/
structure Claiming (w : World) (claim : Claim) : Prop where
  free : claim.backing ∈ w.pool.free
  held : ∀ id ∈ claim.held, w.pins[id]? = some ⟨claim.backing, .held⟩
    ∨ w.pins[id]? = some ⟨claim.backing, .gone⟩
  reading : claim.stage = .read → ∃ operation phase released,
    w.pool.acquirer = some (operation, phase) ∧ claims phase = some (claim.backing, released)

structure Inv (w : World) : Prop where
  books : Books w.pool
  listed : ∀ operation phase, w.pool.acquirer = some (operation, phase) → Listed w.pool phase
  claiming : ∀ claim, w.claim = some claim → Claiming w claim
  counts : CountsPins w
  unborn : ∀ g, w.pool.nextGeneration ≤ g → (w.pool.backing g).bindingConsumers = 0
  born : ∀ pin ∈ w.pins, pin.backing < w.pool.nextGeneration
  wonBorn : ∀ won ∈ w.won, won.backing < w.pool.nextGeneration
  respects : ClaimsRespectPins w
  both : NeverBoth w

theorem inv_start (config : Config) : Inv (start config) := by
  constructor
  · exact Custody.Proof.books_start config
  all_goals simp [start, Custody.start, CountsPins, ClaimsRespectPins, NeverBoth]

theorem Claiming.mono {claim : Claim} (h : Claiming w claim) (hfree : w'.pool.free = w.pool.free)
    (hpins : w'.pins = w.pins) (hacquirer : w'.pool.acquirer = w.pool.acquirer) :
    Claiming w' claim := by
  refine ⟨hfree ▸ h.free, fun id hid => ?_, fun hstage => ?_⟩
  · rw [hpins]
    exact h.held id hid
  · rw [hacquirer]
    exact h.reading hstage

theorem Inv.mem_all (h : Inv w) (hfree : g ∈ w.pool.free) : g ∈ w.pool.all :=
  (free_alone h.books hfree).mem

theorem Inv.aside (h : Inv w) (ha : Aside w.pool p') : Inv { w with pool := p' } where
  books := ha.books
  listed operation phase heq :=
    (h.listed operation phase (ha.acquirer ▸ heq)).mono ha.free ha.key
  claiming claim hclaim := (h.claiming claim hclaim).mono ha.free rfl ha.acquirer
  counts g hg := (ha.consumers g).trans (h.counts g (ha.next ▸ hg))
  unborn g hg := (ha.consumers g).trans (h.unborn g (ha.next ▸ hg))
  born pin hpin := ha.next ▸ h.born pin hpin
  wonBorn won hwon := ha.next ▸ h.wonBorn won hwon
  respects := h.respects
  both won hwon hreleased := by
    obtain ⟨hall, hretired, hpins⟩ := h.both won hwon hreleased
    exact ⟨ha.all ▸ hall, (ha.retired _).trans hretired, hpins⟩

/-- `retired` is put back only for a backing the pool keeps. -/
theorem Inv.setRetired (h : Inv w) {retired : Bool} (hkept : retired = true ∨ g ∈ w.pool.all) :
    Inv (w.setRetired g retired) := by
  have hkey : ∀ x, ((w.setRetired g retired).pool.backing x).key = (w.pool.backing x).key :=
    modify_key (fixed_retired retired)
  have hconsumers : ∀ x, ((w.setRetired g retired).pool.backing x).bindingConsumers
      = (w.pool.backing x).bindingConsumers := by
    intro x
    by_cases hx : x = g
    · subst hx
      simp [World.setRetired, modify_at]
    · simp [World.setRetired, modify_other _ hx]
  exact {
    books := h.books.modify (fixed_retired retired) Iff.rfl
    listed := fun operation phase heq => (h.listed operation phase heq).mono rfl hkey
    claiming := fun claim hclaim => (h.claiming claim hclaim).mono rfl rfl rfl
    counts := fun x hx => (hconsumers x).trans (h.counts x hx)
    unborn := fun x hx => (hconsumers x).trans (h.unborn x hx)
    born := h.born
    wonBorn := h.wonBorn
    respects := h.respects
    both := fun won hwon hreleased => by
      obtain ⟨hall, hretired, hpins⟩ := h.both won hwon hreleased
      refine ⟨hall, ?_, hpins⟩
      simp only [World.setRetired]
      by_cases hx : won.backing = g
      · rcases hkept with rfl | hmem
        · rw [hx, modify_at]
        · exact absurd (hx ▸ hmem) hall
      · rw [modify_other _ hx]
        exact hretired }

/-- The acquirer's access, with what becomes of the claim and of the claims that have succeeded. -/
theorem Inv.advanced (h : Inv w) (ha : Advanced w.pool p') {claim : Option Claim} {won : List Won}
    (hclaim : ∀ c, claim = some c → Claiming { w with pool := p', claim, won } c)
    (hborn : ∀ x ∈ won, x.backing < w.pool.nextGeneration)
    (hrespects : ∀ x ∈ won, ∀ id ∈ x.held, w.pins[id]? = some ⟨x.backing, .gone⟩)
    (hboth : ∀ x ∈ won, x.released = true → x ∈ w.won ∨ x.backing ∉ p'.all
      ∧ (p'.backing x.backing).retired = true
      ∧ ∀ pin ∈ w.pins, pin.backing = x.backing → pin.phase ≠ .held) :
    Inv { w with pool := p', claim, won } where
  books := ha.books
  listed := ha.listed
  claiming := hclaim
  counts g hg := by
    by_cases hold : g < w.pool.nextGeneration
    · exact (ha.consumers g hold).trans (h.counts g hold)
    · -- a backing just made has no pins, since there was nothing to pin
      have hge := Nat.le_of_not_lt hold
      have hzero : (p'.backing g).bindingConsumers = 0 := by
        rcases ha.fresh g hge with hz | hsame
        · exact hz
        · exact hsame.trans (h.unborn g hge)
      refine hzero.trans (Eq.symm ?_)
      rw [List.countP_eq_zero]
      intro pin hpin
      have hne : pin.backing ≠ g := fun heq => hold (heq ▸ h.born pin hpin)
      simp [hne]
  unborn g hg := by
    have hge := Nat.le_trans ha.next hg
    rcases ha.fresh g hge with hz | hsame
    · exact hz
    · exact hsame.trans (h.unborn g hge)
  born pin hpin := Nat.lt_of_lt_of_le (h.born pin hpin) ha.next
  wonBorn x hx := Nat.lt_of_lt_of_le (hborn x hx) ha.next
  respects := hrespects
  both x hx hreleased := by
    rcases hboth x hx hreleased with hold | hnew
    · obtain ⟨hall, hretired, hpins⟩ := h.both x hold hreleased
      have hlt := h.wonBorn x hold
      exact ⟨fun hmem => hall (ha.all _ hlt hmem), ha.retired _ hlt hretired, hpins⟩
    · exact hnew

theorem claims_free (h : Inv w) {released : Bool} (hphase : w.pool.acquirer = some (operation, phase))
    (hclaims : claims phase = some (g, released)) : g ∈ w.pool.free := by
  have hs := h.listed operation phase hphase
  unfold claims at hclaims
  split at hclaims <;> cases hclaims
  · exact hs.free g (List.mem_append_left _ List.mem_cons_self)
  · exact hs.free g (List.mem_append_right _ List.mem_cons_self)
  · exact hs

/-- An access that claims leaves the free list alone, unless it releases. -/
theorem advance_free (operation : Operation) {released : Bool} (hclaims : claims phase = some (g, released))
    (hkept : released = false ∨ p.claims g = false) : (p.advance operation phase).free = p.free := by
  unfold claims at hclaims
  split at hclaims <;> cases hclaims
  · unfold Custody.World.advance
    simp only
    split <;> rfl
  · rcases hkept with hkept | hkept
    · cases hkept
    · simp [Custody.World.advance, hkept, Custody.World.goto]
  · unfold Custody.World.advance
    simp only
    split <;> rfl

/-- An access that releases takes the backing out of the pool for good. -/
theorem advance_released (operation : Operation) (hclaims : claims phase = some (g, true)) (hclaimed : p.claims g = true) :
    g ∉ (p.advance operation phase).all
      ∧ ((p.advance operation phase).backing g).retired = true := by
  unfold claims at hclaims
  split at hclaims <;> cases hclaims
  simp [Custody.World.advance, hclaimed, Custody.World.goto, Custody.World.releaseBacking, modify_at]

/-- A count of zero: nobody holds the backing, or is counted on the way in or out. -/
theorem not_counted (h : Inv w) (hall : g ∈ w.pool.all) (hclaimed : w.pool.claims g = true) (pin : Pin)
    (hpin : pin ∈ w.pins) (hbacking : pin.backing = g) : pin.counted = false := by
  have hcount := h.counts g (h.books.fresh g hall)
  unfold Custody.World.claims at hclaimed
  rw [beq_iff_eq] at hclaimed
  rw [hclaimed] at hcount
  have hnone := List.countP_eq_zero.mp hcount.symm pin hpin
  simpa [hbacking] using hnone

/-- **The claim's second access.** It succeeds on a count of zero only. -/
theorem inv_read (h : Inv w) {held : List Nat} {released : Bool}
    (hclaim : w.claim = some ⟨g, .read, held⟩)
    (hphase : w.pool.acquirer = some (operation, phase))
    (hclaims : claims phase = some (g, released)) : Inv (w.advance operation phase) := by
  have hadvanced := Proof.advanced operation h.books (h.listed operation phase hphase)
  have hfree := claims_free h hphase hclaims
  have hheld := (h.claiming _ hclaim).held
  unfold World.advance
  rw [hclaim, hclaims]
  simp only
  split
  · rename_i hclaimed
    have hnone := not_counted h (h.mem_all hfree) hclaimed
    have hgone : ∀ id ∈ held, w.pins[id]? = some ⟨g, .gone⟩ := by
      intro id hid
      rcases hheld id hid with hid | hid
      · exact absurd (hnone _ (List.mem_of_getElem? hid) rfl) (by simp [Pin.counted])
      · exact hid
    refine h.advanced hadvanced (fun c hc => ?_) (fun x hx => ?_) (fun x hx => ?_) fun x hx hrel => ?_
    · cases released with
      | true => cases hc
      | false =>
        cases hc
        refine ⟨?_, fun id hid => .inr (hgone id hid), nofun⟩
        exact (advance_free (p := w.pool) operation hclaims (.inl rfl)).symm ▸ hfree
    · rcases List.mem_append.mp hx with hx | hx
      · exact h.wonBorn x hx
      · cases List.mem_singleton.mp hx
        exact h.books.fresh g (h.mem_all hfree)
    · rcases List.mem_append.mp hx with hx | hx
      · exact h.respects x hx
      · cases List.mem_singleton.mp hx
        exact hgone
    · rcases List.mem_append.mp hx with hx | hx
      · exact .inl hx
      · cases List.mem_singleton.mp hx
        have hrel : released = true := hrel
        subst hrel
        obtain ⟨hall, hretired⟩ := advance_released operation hclaims hclaimed
        refine .inr ⟨hall, hretired, fun pin hpin hbacking hphase => ?_⟩
        have hcounted := hnone pin hpin hbacking
        simp [Pin.counted, hphase] at hcounted
  · rename_i hclaimed
    refine h.advanced hadvanced (fun c hc => ?_) h.wonBorn h.respects fun x hx _ => .inl hx
    cases hc
    refine ⟨?_, hheld, nofun⟩
    exact (advance_free operation hclaims (.inr (eq_false_of_ne_true hclaimed))).symm ▸ hfree

theorem mem_heldOn {id : Nat} (h : id ∈ w.heldOn g) : w.pins[id]? = some ⟨g, .held⟩ := by
  unfold World.heldOn at h
  simpa using (List.mem_filter.mp h).2

/-- **The claim's first access**, which remembers who holds the backing. -/
theorem inv_begin (h : Inv w) {released : Bool} (hphase : w.pool.acquirer = some (operation, phase))
    (hclaims : claims phase = some (g, released)) :
    Inv { w.setRetired g true with claim := some ⟨g, .read, w.heldOn g⟩ } := by
  have hset : Inv (w.setRetired g true) := h.setRetired (.inl rfl)
  refine ⟨hset.books, hset.listed, fun c hc => ?_, hset.counts, hset.unborn, hset.born, hset.wonBorn,
    hset.respects, hset.both⟩
  cases hc
  have hfree := claims_free h hphase hclaims
  exact ⟨hfree, fun id hid => .inl (mem_heldOn hid),
    fun _ => ⟨operation, phase, released, hphase, hclaims⟩⟩

theorem inv_clear (h : Inv w) {held : List Nat} (hclaim : w.claim = some ⟨g, .clear, held⟩) :
    Inv { w.setRetired g false with claim := none } := by
  have hset : Inv (w.setRetired g false) :=
    h.setRetired (.inr (h.mem_all (h.claiming _ hclaim).free))
  exact ⟨hset.books, hset.listed, nofun, hset.counts, hset.unborn, hset.born, hset.wonBorn,
    hset.respects, hset.both⟩

theorem inv_advance (h : Inv w) (hphase : w.pool.acquirer = some (operation, phase)) :
    Inv (w.advance operation phase) := by
  have hadvanced := Proof.advanced operation h.books (h.listed operation phase hphase)
  cases hclaim : w.claim with
  | none =>
    cases hclaims : claims phase with
    | none =>
      simp only [World.advance, hclaim, hclaims]
      rw [← hclaim]
      refine h.advanced hadvanced (fun c hc => ?_) h.wonBorn h.respects fun x hx _ => .inl hx
      rw [hclaim] at hc
      cases hc
    | some target =>
      obtain ⟨g, released⟩ := target
      simp only [World.advance, hclaim, hclaims]
      exact inv_begin h hphase hclaims
  | some claim =>
    obtain ⟨g, stage, held⟩ := claim
    cases stage with
    | clear =>
      simp only [World.advance, hclaim]
      exact inv_clear h hclaim
    | read =>
      obtain ⟨operation', phase', released, hphase', hclaims⟩ := (h.claiming _ hclaim).reading rfl
      obtain ⟨rfl, rfl⟩ := Prod.mk.inj (Option.some.inj (hphase.symm.trans hphase'))
      exact inv_read h hclaim hphase hclaims

theorem inv_acquirer (h : Inv w) (hs : step w .acquirer = some w') : Inv w' := by
  simp only [step] at hs
  split at hs <;> cases hs
  · exact inv_advance h ‹_›
  · exact inv_clear h ‹_›

/-! ## The pins' accesses -/

/-- The pins of a backing go on, and the count with them. -/
theorem Inv.repin (h : Inv w) {pins : List Pin} {f : Nat → Nat} (hg : g < w.pool.nextGeneration)
    (hcounts : ∀ x, (pins.countP fun pin => pin.backing == x && pin.counted)
      = if x = g then f (w.pins.countP fun pin => pin.backing == x && pin.counted)
        else w.pins.countP fun pin => pin.backing == x && pin.counted)
    (hborn : ∀ pin ∈ pins, pin.backing < w.pool.nextGeneration)
    (hheld : ∀ (id x : Nat), w.pins[id]? = some ⟨x, .held⟩ →
      pins[id]? = some ⟨x, .held⟩ ∨ pins[id]? = some ⟨x, .gone⟩)
    (hgone : ∀ (id x : Nat), w.pins[id]? = some ⟨x, .gone⟩ → pins[id]? = some ⟨x, .gone⟩)
    (hnew : ∀ pin ∈ pins, pin.phase = .held →
      pin ∈ w.pins ∨ (w.pool.backing pin.backing).retired = false) :
    Inv { w with
      pins
      pool := w.pool.modify g fun b => { b with bindingConsumers := f b.bindingConsumers } } := by
  have hfixed : Fixed fun b => { b with bindingConsumers := f b.bindingConsumers } :=
    fun _ => ⟨rfl, rfl⟩
  refine ⟨h.books.modify hfixed Iff.rfl,
    fun operation phase heq => (h.listed operation phase heq).mono rfl (modify_key hfixed),
    fun claim hclaim => ?_, fun x hx => ?_, fun x hx => ?_, hborn, h.wonBorn,
    fun won hwon id hid => hgone id _ (h.respects won hwon id hid), fun won hwon hreleased => ?_⟩
  · obtain ⟨hfree, hids, hreading⟩ := h.claiming claim hclaim
    exact ⟨hfree, fun id hid => (hids id hid).elim (hheld id _) fun hid => .inr (hgone id _ hid),
      hreading⟩
  · have hold := h.counts x hx
    dsimp only
    rw [hcounts]
    by_cases heq : x = g
    · subst heq
      rw [if_pos rfl, modify_at, ← hold]
    · rw [if_neg heq, modify_other _ heq, hold]
  · have hne : x ≠ g := Nat.ne_of_gt (Nat.lt_of_lt_of_le hg hx)
    dsimp only
    rw [modify_other _ hne]
    exact h.unborn x hx
  · obtain ⟨hall, hretired, hpins⟩ := h.both won hwon hreleased
    refine ⟨hall, ?_, fun pin hpin hbacking hphase => ?_⟩
    · dsimp only
      by_cases heq : won.backing = g
      · rw [heq, modify_at]
        exact heq ▸ hretired
      · rw [modify_other _ heq]
        exact hretired
    · -- nobody gets hold of a backing that is retired
      rcases hnew pin hpin hphase with hpin | hnot
      · exact hpins pin hpin hbacking hphase
      · rw [hbacking, hretired] at hnot
        cases hnot

/-- A pin is counted before it reads `retired`. -/
theorem inv_pin (h : Inv w) (hg : g < w.pool.nextGeneration) :
    Inv { w with
      pins := w.pins ++ [⟨g, .check⟩]
      pool := w.pool.modify g fun b => { b with bindingConsumers := b.bindingConsumers + 1 } } := by
  refine h.repin (f := fun n => n + 1) hg (fun x => ?_) (fun pin hpin => ?_)
    (fun id x hid => .inl ?_) (fun id x hid => ?_) fun pin hpin hphase => ?_
  · rw [List.countP_append, List.countP_singleton]
    by_cases heq : x = g
    · simp [heq, Pin.counted]
    · simp [heq, Ne.symm heq]
  · rcases List.mem_append.mp hpin with hpin | hpin
    · exact h.born pin hpin
    · rw [List.mem_singleton.mp hpin]
      exact hg
  · rw [List.getElem?_append_left (List.getElem?_eq_some_iff.mp hid).1, hid]
  · rw [List.getElem?_append_left (List.getElem?_eq_some_iff.mp hid).1, hid]
  · rcases List.mem_append.mp hpin with hpin | hpin
    · exact .inl hpin
    · rw [List.mem_singleton.mp hpin] at hphase
      cases hphase

/-- A pin goes on to a phase it is counted in, or leaves the count. -/
theorem inv_setPin (h : Inv w) {id : Nat} {old new : PinPhase} {consumers : Nat → Nat}
    (hid : w.pins[id]? = some ⟨g, old⟩) (hold : old ≠ .gone)
    (hheld : old = .held → new = .gone)
    (hnew : new = .held → (w.pool.backing g).retired = false)
    (hcount : ∀ n, consumers (n + if (Pin.mk g old).counted then 1 else 0)
      = n + if (Pin.mk g new).counted then 1 else 0) :
    Inv (w.setPin id g new consumers) := by
  obtain ⟨hlt, hget⟩ := List.getElem?_eq_some_iff.mp hid
  have hg : g < w.pool.nextGeneration := h.born _ (List.mem_of_getElem? hid)
  have hset : ∀ (j x : Nat) (phase : PinPhase), w.pins[j]? = some ⟨x, phase⟩ → j ≠ id →
      (w.pins.set id ⟨g, new⟩)[j]? = some ⟨x, phase⟩ := by
    intro j x phase hj hne
    rw [List.getElem?_set_ne (Ne.symm hne), hj]
  refine h.repin hg (fun x => ?_) (fun pin hpin => ?_) (fun j x hj => ?_) (fun j x hj => ?_)
    fun pin hpin hphase => ?_
  · rw [List.countP_set hlt, hget]
    by_cases heq : x = g
    · subst heq
      rw [if_pos rfl]
      have hle : (if (Pin.mk x old).counted then 1 else 0)
          ≤ w.pins.countP fun pin => pin.backing == x && pin.counted := by
        split
        · exact List.countP_pos_iff.mpr ⟨_, List.mem_of_getElem? hid, by simpa⟩
        · exact Nat.zero_le _
      have hpins := hcount ((w.pins.countP fun pin => pin.backing == x && pin.counted)
        - if (Pin.mk x old).counted then 1 else 0)
      rw [Nat.sub_add_cancel hle] at hpins
      simp only [beq_self_eq_true, Bool.true_and]
      exact hpins.symm
    · simp [heq, Ne.symm heq]
  · rcases List.mem_or_eq_of_mem_set hpin with hpin | rfl
    · exact h.born pin hpin
    · exact hg
  · by_cases heq : j = id
    · subst heq
      cases hid.symm.trans hj
      refine .inr ?_
      rw [hheld rfl, List.getElem?_set_self hlt]
    · exact .inl (hset j x .held hj heq)
  · by_cases heq : j = id
    · subst heq
      cases hid.symm.trans hj
      exact absurd rfl hold
    · exact hset j x .gone hj heq
  · rcases List.mem_or_eq_of_mem_set hpin with hpin | rfl
    · exact .inl hpin
    · exact .inr (hnew hphase)

theorem inv_check (h : Inv w) {id : Nat} (hid : w.pins[id]? = some ⟨g, .check⟩) :
    Inv (w.setPin id g (if (w.pool.backing g).retired then .undo else .held) fun n => n) := by
  by_cases hretired : (w.pool.backing g).retired = true
  · rw [if_pos hretired]
    exact inv_setPin h hid (by decide) (by decide) nofun fun n => rfl
  · rw [if_neg hretired]
    exact inv_setPin h hid (by decide) (by decide) (fun _ => eq_false_of_ne_true hretired)
      fun n => rfl

/-- A body begins, and has no list yet. -/
theorem inv_body (h : Inv w) (hclaim : w.claim.isSome = false) :
    Inv { w with pool := w.pool.goto operation .takeReturned } := by
  refine ⟨h.books.goto _, fun _ _ heq => ?_, fun c hc => ?_, h.counts, h.unborn, h.born, h.wonBorn,
    h.respects, h.both⟩
  · obtain ⟨rfl, rfl⟩ := Prod.mk.inj (Option.some.inj heq)
    trivial
  · have hc : w.claim = some c := hc
    simp [hc] at hclaim

theorem inv_step {action : Action} (h : Inv w) (hs : step w action = some w') : Inv w' := by
  cases action with
  | acquirer => exact inv_acquirer h hs
  | pin g =>
    simp only [step] at hs
    split at hs <;> cases hs
    exact inv_pin h ‹_›
  | advance id =>
    simp only [step] at hs
    split at hs <;> cases hs
    · exact inv_check h ‹_›
    · exact inv_setPin h ‹_› (by decide) (by decide) nofun fun n => by simp [Pin.counted]
    · exact inv_setPin h ‹_› (by decide) (fun _ => rfl) nofun fun n => by simp [Pin.counted]
  | pool action =>
    cases action with
    | acquirer | pin | unpin => cases hs
    | acquire | trim =>
      simp only [step] at hs
      split at hs
      · cases hs
      · rename_i hclaim
        obtain ⟨p', hp, rfl⟩ := Option.map_eq_some_iff.mp hs
        simp only [Custody.step] at hp
        split at hp <;> cases hp
        exact inv_body h (eq_false_of_ne_true hclaim)
    | _ =>
      simp only [step] at hs
      obtain ⟨p', hp, rfl⟩ := Option.map_eq_some_iff.mp hs
      exact h.aside (aside_step h.books hp trivial)

end ModuleServices.Pool.Pins.Proof

namespace ModuleServices.Pool.Pins

open ModuleServices.Pool.Pins.Proof

/-- A backing is made, returned and noted for release twice. A pin that comes in between makes the
first claim give up; one held as the second begins is given back before the count is read, and the
backing goes; the third finds it gone and throws. -/
def pinTrace : List Action :=
  [.pool (.acquire { request := { capacityClass := 4, stride := 4 } }), .acquirer, .acquirer,
    .acquirer, .acquirer, .acquirer, .acquirer, .pool (.releaseLease 1), .pool (.countFree 1),
    .pool (.push 1), .pool .trim, .acquirer, .acquirer, .acquirer, .acquirer, .pin 1, .advance 0,
    .acquirer, .acquirer, .acquirer, .acquirer, .advance 0, .pool .trim, .acquirer, .acquirer,
    .acquirer, .acquirer, .pin 1, .advance 1, .acquirer, .advance 1, .acquirer, .pin 1, .advance 2,
    .advance 2]

end ModuleServices.Pool.Pins
