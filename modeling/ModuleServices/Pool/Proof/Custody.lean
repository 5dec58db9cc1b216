import ModuleServices.Pool.Custody
import Mathlib.Algebra.BigOperators.Group.List.Basic
import Mathlib.Data.List.Nodup

/-!
# A backing is in one place at a time

`Books` is what holds of the pool's lists and counters whatever the acquirer is doing:
every backing it holds is in exactly one place, once, and the counters are the lengths
of the lists. `Stands` is what the acquirer's own lists promise in each phase: what it
took for reusable is still free, unpinned and past its `safeAt`, because nobody can
lease, bind or pin a free backing before the acquirer hands it out.
-/

namespace ModuleServices.Pool.Custody.Proof

open Custody.World

/-- The lists and the counters agree. -/
structure Books (w : World) : Prop where
  placed : ∀ g, places w g = if g ∈ w.all then 1 else 0
  nodup : w.all.Nodup
  fresh : ∀ g ∈ w.all, g < w.nextGeneration
  live : w.liveCount = w.all.length
  free : w.freeCount = w.free.length + w.returned.length + w.pushing.length
  bytes : w.byteCount = (w.all.map fun g => byteCapacity (w.backing g)).sum
  cap : w.config.maxPerClass ≠ 0 → ∀ key capacityClass,
    w.perClass key capacityClass ≤ w.config.maxPerClass
  active : (w.active.map Active.key).Nodup

variable {w w' : World} {g : Nat}

theorem places_le (h : Books w) (g : Nat) : places w g ≤ 1 := by
  rw [h.placed]
  split <;> omega

/-- A backing found in a place is the pool's, and in no other. -/
theorem mem_all_of_places (h : Books w) (hplace : 0 < places w g) : g ∈ w.all := by
  rw [h.placed] at hplace
  by_contra hnot
  rw [if_neg hnot] at hplace
  exact Nat.lt_irrefl 0 hplace

/-- A free backing is nowhere else. -/
structure Alone (w : World) (g : Nat) : Prop where
  mem : g ∈ w.all
  leases : (w.backing g).leases = 0
  dropped : g ∉ w.dropped
  pushing : g ∉ w.pushing
  returned : g ∉ w.returned
  once : w.free.count g = 1

theorem free_alone (h : Books w) (hfree : g ∈ w.free) : Alone w g := by
  have hcount := List.count_pos_iff.mpr hfree
  have hle := places_le h g
  have hmem : g ∈ w.all := mem_all_of_places h (by unfold places; omega)
  unfold places at hle
  rw [List.count_append] at hle
  have hleases : ¬0 < (w.backing g).leases := by
    intro hpos
    rw [if_pos hpos] at hle
    omega
  exact {
    mem := hmem
    leases := by omega
    dropped := List.count_eq_zero.mp (by omega)
    pushing := List.count_eq_zero.mp (by omega)
    returned := List.count_eq_zero.mp (by omega)
    once := by omega }

theorem free_nodup (h : Books w) : w.free.Nodup := by
  rw [List.nodup_iff_count_le_one]
  intro g
  have hle := places_le h g
  unfold places at hle
  omega

/-- A leased backing is neither free nor on its way. -/
theorem not_free_of_leased (h : Books w) (hleased : (w.backing g).leases ≠ 0) : g ∉ w.free :=
  fun hfree => hleased (free_alone h hfree).leases

/-- A backing of a generation not taken yet is nowhere. -/
theorem places_next (h : Books w) : places w w.nextGeneration = 0 := by
  rw [h.placed, if_neg fun hmem => Nat.lt_irrefl _ (h.fresh _ hmem)]

/-! ## The changes the books go through -/

theorem books_start (config : Config) : Books (start config) where
  placed _ := rfl
  nodup := List.nodup_nil
  fresh _ h := by cases h
  live := rfl
  free := rfl
  bytes := rfl
  cap _ _ _ := Nat.zero_le _
  active := List.nodup_nil

/-- What the acquirer does next is not in the books. -/
theorem Books.goto (h : Books w) (acquirer : Option (Operation × Phase)) :
    Books { w with acquirer } := ⟨h.placed, h.nodup, h.fresh, h.live, h.free, h.bytes, h.cap, h.active⟩

theorem Books.clock (h : Books w) (completed : Nat) : Books { w with completed } :=
  ⟨h.placed, h.nodup, h.fresh, h.live, h.free, h.bytes, h.cap, h.active⟩

theorem modify_at (f : Backing → Backing) : (w.modify g f).backing g = f (w.backing g) := if_pos rfl

theorem modify_other {x : Nat} (f : Backing → Backing) (h : x ≠ g) :
    (w.modify g f).backing x = w.backing x := if_neg h

/-- What a backing is made as does not change. -/
def Fixed (f : Backing → Backing) : Prop :=
  ∀ b, (f b).key = b.key ∧ (f b).capacityClass = b.capacityClass

theorem modify_key {f : Backing → Backing} (hf : Fixed f) (x : Nat) :
    ((w.modify g f).backing x).key = (w.backing x).key := by
  by_cases hx : x = g
  · rw [hx, modify_at, (hf _).1]
  · rw [modify_other f hx]

theorem modify_class {f : Backing → Backing} (hf : Fixed f) (x : Nat) :
    ((w.modify g f).backing x).capacityClass = (w.backing x).capacityClass := by
  by_cases hx : x = g
  · rw [hx, modify_at, (hf _).2]
  · rw [modify_other f hx]

theorem modify_bytes {f : Backing → Backing} (hf : Fixed f) (x : Nat) :
    byteCapacity ((w.modify g f).backing x) = byteCapacity (w.backing x) := by
  unfold byteCapacity
  rw [modify_key hf, modify_class hf]

theorem modify_perClass {f : Backing → Backing} (hf : Fixed f) (key : Key) (capacityClass : Nat) :
    (w.modify g f).perClass key capacityClass = w.perClass key capacityClass := by
  unfold perClass
  simp only [modify_key hf, modify_class hf]
  rfl

/-- A backing's own fields may change as long as it stays leased, or stays unleased. -/
theorem Books.modify (h : Books w) {f : Backing → Backing} (hf : Fixed f)
    (hleases : 0 < (f (w.backing g)).leases ↔ 0 < (w.backing g).leases) : Books (w.modify g f) where
  placed x := by
    rw [← show places w x = if x ∈ (w.modify g f).all then 1 else 0 from h.placed x]
    unfold places
    by_cases hx : x = g
    · subst hx
      rw [modify_at]
      simp only [hleases]
      rfl
    · rw [modify_other f hx]
      rfl
  nodup := h.nodup
  fresh := h.fresh
  live := h.live
  free := h.free
  bytes := by
    simp only [modify_bytes hf]
    exact h.bytes
  cap hmax key capacityClass := by
    rw [modify_perClass hf]
    exact h.cap hmax key capacityClass
  active := h.active

/-- A release's decrement. -/
theorem Books.dropLease (h : Books w) (hleased : (w.backing g).leases ≠ 0) :
    Books ({ w with
      dropped := if (w.backing g).leases = 1 then g :: w.dropped else w.dropped }.modify g fun b =>
      { b with leases := b.leases - 1 }) := by
  have hf : Fixed fun b => { b with leases := b.leases - 1 } := fun _ => ⟨rfl, rfl⟩
  refine ⟨fun x => ?_, h.nodup, h.fresh, h.live, h.free, ?_, fun hmax key capacityClass => ?_,
    h.active⟩
  · have hx := h.placed x
    unfold places at hx ⊢
    change (if 0 < ((World.modify _ g _).backing x).leases then 1 else 0)
        + ((if (w.backing g).leases = 1 then g :: w.dropped else w.dropped) ++ w.pushing).count x
        + w.returned.count x + w.free.count x = if x ∈ w.all then 1 else 0
    rw [← hx]
    by_cases heq : x = g
    · subst heq
      rw [modify_at]
      by_cases hlast : (w.backing x).leases = 1
      · simp only [hlast, if_true, List.cons_append, List.count_cons_self]
        simp
        omega
      · simp only [if_neg hlast]
        rw [if_pos (by omega), if_pos (by omega)]
    · rw [modify_other _ heq]
      by_cases hlast : (w.backing g).leases = 1
      · simp only [if_pos hlast, List.cons_append, List.count_cons_of_ne (Ne.symm heq)]
      · simp only [if_neg hlast]
  · simp only [modify_bytes hf]
    exact h.bytes
  · rw [modify_perClass hf]
    exact h.cap hmax key capacityClass

theorem Books.countFree (h : Books w) (hmem : g ∈ w.dropped) :
    Books { w with
      dropped := w.dropped.erase g, pushing := g :: w.pushing, freeCount := w.freeCount + 1 } where
  placed x := by
    rw [← show places w x = _ from h.placed x]
    unfold places
    simp only [List.count_append, List.count_cons, List.count_erase]
    have hcount := List.count_pos_iff.mpr hmem
    by_cases heq : g = x
    · subst heq
      simp only [beq_self_eq_true, if_true]
      omega
    · simp [heq]
  nodup := h.nodup
  fresh := h.fresh
  live := h.live
  free := by
    simp only [List.length_cons, h.free]
    omega
  bytes := h.bytes
  cap := h.cap
  active := h.active

theorem Books.push (h : Books w) (hmem : g ∈ w.pushing) :
    Books { w with pushing := w.pushing.erase g, returned := g :: w.returned } where
  placed x := by
    rw [← show places w x = _ from h.placed x]
    unfold places
    simp only [List.count_append, List.count_cons, List.count_erase]
    have hcount := List.count_pos_iff.mpr hmem
    by_cases heq : g = x
    · subst heq
      simp only [beq_self_eq_true, if_true]
      omega
    · simp [heq]
  nodup := h.nodup
  fresh := h.fresh
  live := h.live
  free := by
    have hlength := List.length_erase_of_mem hmem
    have hpos := List.length_pos_of_mem hmem
    simp only [List.length_cons, h.free, hlength]
    omega
  bytes := h.bytes
  cap := h.cap
  active := h.active

/-- The returned backings are the pool's, so none is dropped on the way to the free list. -/
theorem Books.takeReturned (h : Books w) :
    Books { w with
      returned := [], free := w.free ++ w.returned.filter fun g => w.all.contains g } := by
  have hall : (w.returned.filter fun g => w.all.contains g) = w.returned := by
    rw [List.filter_eq_self]
    intro g hg
    rw [List.contains_iff_mem]
    refine mem_all_of_places h ?_
    have hcount := List.count_pos_iff.mpr hg
    unfold places
    omega
  rw [hall]
  refine ⟨fun x => ?_, h.nodup, h.fresh, h.live, ?_, h.bytes, h.cap, h.active⟩
  · rw [← show places w x = _ from h.placed x]
    unfold places
    simp only [List.count_append, List.count_nil]
    omega
  · simp only [List.length_append, List.length_nil, h.free]
    omega

theorem ask_nodup {actives : List Active} (h : (actives.map Active.key).Nodup) (active : Active) :
    ((ask actives active).map Active.key).Nodup := by
  unfold ask
  split
  · have hkeys : (actives.map fun other => if other.key = active.key then active else other).map
        Active.key = actives.map Active.key := by
      rw [List.map_map]
      refine List.map_congr_left fun other _ => ?_
      simp only [Function.comp_apply]
      split
      · exact (‹other.key = active.key›).symm
      · rfl
    rw [hkeys]
    exact h
  · rename_i hnone
    rw [List.map_append, List.nodup_append]
    refine ⟨h, List.nodup_singleton _, fun key hkey key' hkey' heq => hnone ?_⟩
    obtain ⟨other, hother, rfl⟩ := List.mem_map.mp hkey
    rw [List.map_singleton, List.mem_singleton] at hkey'
    rw [List.any_eq_true]
    exact ⟨other, hother, by rw [beq_iff_eq, heq, hkey']⟩

theorem Books.ask (h : Books w) (active : Active) :
    Books { w with active := World.ask w.active active } :=
  ⟨h.placed, h.nodup, h.fresh, h.live, h.free, h.bytes, h.cap, ask_nodup h.active active⟩

/-- `ReleaseBacking` of a free backing takes it out of everything. -/
theorem Books.releaseBacking (h : Books w) (hfree : g ∈ w.free) : Books (w.releaseBacking g) := by
  obtain ⟨hmem, hleases, hdropped, hpushing, hreturned, honce⟩ := free_alone h hfree
  have hfreeErase := (free_nodup h).erase_eq_filter g
  have hallErase := h.nodup.erase_eq_filter g
  have hfreePos := List.length_pos_of_mem hfree
  have hallPos := List.length_pos_of_mem hmem
  unfold World.releaseBacking
  rw [← hfreeErase, ← hallErase]
  refine ⟨fun x => ?_, h.nodup.erase g, fun x hx => h.fresh x (List.mem_of_mem_erase hx), ?_, ?_, ?_,
    fun hmax key capacityClass => ?_, h.active⟩
  · have hx := h.placed x
    unfold places at hx ⊢
    simp only [List.count_erase, h.nodup.mem_erase_iff]
    by_cases heq : x = g
    · subst heq
      rw [if_neg (by omega), List.count_append, List.count_eq_zero.mpr hdropped,
        List.count_eq_zero.mpr hpushing, List.count_eq_zero.mpr hreturned, honce]
      simp
    · simp only [ne_eq, heq, not_false_eq_true, true_and]
      rw [← hx]
      simp [Ne.symm heq]
  · simp only [List.length_erase_of_mem hmem, h.live]
  · simp only [List.length_erase_of_mem hfree, h.free]
    omega
  · have hsum := List.sum_map_erase (fun g => byteCapacity (w.backing g)) hmem
    simp only [h.bytes, ← hsum]
    omega
  · exact (List.erase_sublist.countP_le).trans (h.cap hmax key capacityClass)

/-- A free backing leaves the free list and is leased. -/
theorem Books.lease (h : Books w) (hfree : g ∈ w.free) :
    Books ({ w with free := w.free.filter (· != g), freeCount := w.freeCount - 1 }.modify g
      fun b => { b with leases := b.leases + 1 }) := by
  obtain ⟨hmem, hleases, hdropped, hpushing, hreturned, honce⟩ := free_alone h hfree
  have hf : Fixed fun b => { b with leases := b.leases + 1 } := fun _ => ⟨rfl, rfl⟩
  have hfreePos := List.length_pos_of_mem hfree
  rw [← (free_nodup h).erase_eq_filter g]
  refine ⟨fun x => ?_, h.nodup, h.fresh, h.live, ?_, ?_, fun hmax key capacityClass => ?_, h.active⟩
  · have hx := h.placed x
    unfold places at hx ⊢
    change (if 0 < ((World.modify _ g _).backing x).leases then 1 else 0)
        + (w.dropped ++ w.pushing).count x + w.returned.count x + (w.free.erase g).count x
      = if x ∈ w.all then 1 else 0
    rw [← hx, List.count_erase]
    by_cases heq : x = g
    · subst heq
      rw [modify_at, honce]
      simp only [hleases]
      simp
      omega
    · rw [modify_other _ heq]
      simp [Ne.symm heq]
  · change w.freeCount - 1 = (w.free.erase g).length + w.returned.length + w.pushing.length
    rw [List.length_erase_of_mem hfree, h.free]
    omega
  · simp only [modify_bytes hf]
    exact h.bytes
  · rw [modify_perClass hf]
    exact h.cap hmax key capacityClass

theorem allocate_same (request : BackingRequest) {x : Nat} (h : x ≠ w.nextGeneration) :
    (w.allocate request).backing x = w.backing x := if_neg h

/-- A class that is not full takes one more. -/
theorem allocate_perClass (h : Books w) (request : BackingRequest) (key : Key)
    (capacityClass : Nat) :
    (w.allocate request).perClass key capacityClass = w.perClass key capacityClass
      + if keyOf request = key ∧ request.capacityClass = capacityClass then 1 else 0 := by
  have hold : w.all.countP (fun g => ((w.allocate request).backing g).key == key
      && ((w.allocate request).backing g).capacityClass == capacityClass)
      = w.perClass key capacityClass := by
    refine List.countP_congr fun g hg => ?_
    rw [allocate_same request (h.fresh g hg).ne]
  unfold perClass at hold ⊢
  change (w.all ++ [w.nextGeneration]).countP _ = _
  rw [List.countP_append, hold, List.countP_singleton]
  congr 1
  change (if ((if w.nextGeneration = w.nextGeneration then _ else _ : Backing).key == key
    && (if w.nextGeneration = w.nextGeneration then _ else _ : Backing).capacityClass
      == capacityClass) = true then 1 else 0) = _
  simp only [if_true, Bool.and_eq_true, beq_iff_eq]

theorem Books.allocate (h : Books w) {request : BackingRequest} (hroom : w.full request = false) :
    Books (w.allocate request) := by
  have hnext := places_next h
  have hsame : ∀ g ∈ w.all, (w.allocate request).backing g = w.backing g := fun g hg =>
    allocate_same request (h.fresh g hg).ne
  refine ⟨fun x => ?_, ?_, fun x hx => ?_, ?_, h.free, ?_, fun hmax key capacityClass => ?_, h.active⟩
  · have hx := h.placed x
    change places (w.allocate request) x = if x ∈ w.all ++ [w.nextGeneration] then 1 else 0
    by_cases heq : x = w.nextGeneration
    · subst heq
      rw [if_pos (List.mem_append_right _ (List.mem_singleton_self _))]
      unfold places at hnext ⊢
      change (if 0 < (if w.nextGeneration = w.nextGeneration then _ else _ : Backing).leases then 1
        else 0) + (w.dropped ++ w.pushing).count _ + w.returned.count _ + w.free.count _ = 1
      rw [if_pos (by simp)]
      omega
    · have hplaces : places (w.allocate request) x = places w x := by
        unfold places
        rw [allocate_same request heq]
        rfl
      rw [hplaces, hx]
      simp [heq]
  · refine List.nodup_append.mpr ⟨h.nodup, List.nodup_singleton _, fun a ha b hb => ?_⟩
    rw [List.mem_singleton.mp hb]
    exact (h.fresh a ha).ne
  · rcases List.mem_append.mp hx with hx | hx
    · exact (h.fresh x hx).trans (Nat.lt_succ_self _)
    · rw [List.mem_singleton.mp hx]
      exact Nat.lt_succ_self _
  · change w.liveCount + 1 = (w.all ++ [w.nextGeneration]).length
    rw [List.length_append, h.live]
    rfl
  · change w.byteCount + _ = ((w.all ++ [w.nextGeneration]).map _).sum
    rw [List.map_append, List.sum_append, List.map_singleton, List.sum_singleton, h.bytes]
    congr 2
    · exact List.map_congr_left fun g hg => by rw [hsame g hg]
    · exact (if_pos rfl).symm
  · rw [allocate_perClass h]
    have hcap := h.cap hmax key capacityClass
    change _ ≤ w.config.maxPerClass
    split
    · rename_i hclass
      rw [← hclass.1, ← hclass.2]
      unfold full at hroom
      simp only [Bool.and_eq_false_iff, bne_eq_false_iff_eq, decide_eq_false_iff_not,
        not_le] at hroom
      rcases hroom with hzero | hlt
      · exact absurd hzero hmax
      · exact hlt
    · exact hcap

/-! ## What the acquirer's lists promise -/

/-- Free, and held back neither by a readback nor by a binding consumer. -/
def Unpinned (w : World) (g : Nat) : Prop :=
  g ∈ w.free ∧ (w.backing g).readbackPins = 0 ∧ (w.backing g).bindingConsumers = 0

/-- Unpinned, and past its `safeAt`. -/
def Spare (w : World) (g : Nat) : Prop := Unpinned w g ∧ (w.backing g).safeAt ≤ w.completed

/-- Backings noted for reuse or release, each once. -/
structure Noted (w : World) (noted : List Nat) : Prop where
  nodup : noted.Nodup
  spare : ∀ g ∈ noted, Spare w g

/-- A pass over the free list. `Trim` notes what it releases key by key, and no key comes twice. -/
structure Scanning (w : World) (completed : Nat) (active : Active) (actives : List Active)
    (todo found release : List Nat) : Prop where
  clock : completed ≤ w.completed
  ahead : ∀ g ∈ todo, g ∈ w.free
  nodup : (found ++ todo).Nodup
  taken : ∀ g ∈ found, Spare w g ∧ (w.backing g).key = active.key
  noted : Noted w release
  other : ∀ g ∈ release, ∀ a ∈ active :: actives, (w.backing g).key ≠ a.key
  keys : ((active :: actives).map Active.key).Nodup

/-- What the acquirer's phase says of the pool. -/
def Stands (w : World) : Phase → Prop
  | .takeReturned | .readClock | .choose => True
  | .scan completed active actives todo found release =>
    Scanning w completed active actives todo found release
  | .reuse same release => Noted w (same ++ release)
  | .release chosen rest => Noted w (chosen.toList ++ rest)
  | .scanBound todo bound => w.config.reuseBound = true ∧ (∀ g ∈ todo, g ∈ w.free)
    ∧ ∀ g ∈ bound, Unpinned w g
  | .claimBound g => w.config.reuseBound = true ∧ Unpinned w g
  | .lease g bound => Unpinned w g ∧ (bound = true → w.config.reuseBound = true)
    ∧ (bound = false → Spare w g)

/-- The free backings are left as they are, but for pins that go. -/
structure Calm (w w' : World) : Prop where
  config : w'.config = w.config
  free : w'.free = w.free
  clock : w.completed ≤ w'.completed
  key : ∀ g ∈ w.free, (w'.backing g).key = (w.backing g).key
  safeAt : ∀ g ∈ w.free, (w'.backing g).safeAt = (w.backing g).safeAt
  readbackPins : ∀ g ∈ w.free, (w'.backing g).readbackPins ≤ (w.backing g).readbackPins
  bindingConsumers : ∀ g ∈ w.free, (w'.backing g).bindingConsumers ≤ (w.backing g).bindingConsumers

theorem Calm.unpinned (h : Calm w w') (hg : Unpinned w g) : Unpinned w' g := by
  obtain ⟨hfree, hread, hbind⟩ := hg
  have hread' := h.readbackPins g hfree
  have hbind' := h.bindingConsumers g hfree
  exact ⟨h.free ▸ hfree, by omega, by omega⟩

theorem Calm.spare (h : Calm w w') (hg : Spare w g) : Spare w' g :=
  ⟨h.unpinned hg.1, by rw [h.safeAt g hg.1.1]; exact hg.2.trans h.clock⟩

theorem Calm.noted (h : Calm w w') {noted : List Nat} (hn : Noted w noted) : Noted w' noted :=
  ⟨hn.nodup, fun g hg => h.spare (hn.spare g hg)⟩

/-- Nothing that others do in between breaks what the acquirer counts on. -/
theorem Calm.stands (h : Calm w w') {phase : Phase} (hs : Stands w phase) : Stands w' phase := by
  cases phase with
  | takeReturned => trivial
  | readClock => trivial
  | choose => trivial
  | scan completed active actives todo found release =>
    obtain ⟨hclock, htodo, hnodup, hfound, hrelease, hother, hkeys⟩ := hs
    exact {
      clock := hclock.trans h.clock
      ahead := fun g hg => h.free ▸ htodo g hg
      nodup := hnodup
      taken := fun g hg => ⟨h.spare (hfound g hg).1, by
        rw [h.key g (hfound g hg).1.1.1]
        exact (hfound g hg).2⟩
      noted := h.noted hrelease
      other := fun g hg a ha => by
        rw [h.key g (hrelease.spare g hg).1.1]
        exact hother g hg a ha
      keys := hkeys }
  | reuse same release => exact h.noted hs
  | release chosen rest => exact h.noted hs
  | scanBound todo bound =>
    exact ⟨h.config ▸ hs.1, fun g hg => h.free ▸ hs.2.1 g hg, fun g hg => h.unpinned (hs.2.2 g hg)⟩
  | claimBound g => exact ⟨h.config ▸ hs.1, h.unpinned hs.2⟩
  | lease g bound => exact ⟨h.unpinned hs.1, h.config ▸ hs.2.1, fun hb => h.spare (hs.2.2 hb)⟩

end ModuleServices.Pool.Custody.Proof
