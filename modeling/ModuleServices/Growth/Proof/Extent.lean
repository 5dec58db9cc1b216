import ModuleServices.Growth.Extent
import ModuleServices.Growth.Proof.Policy

/-!
# A grown buffer holds what was asked of it

Rounding up to elements and reading units back from bytes are the wrong way round for each
other and lose nothing. What loses is the product: the bytes of the units are taken modulo
2^64. Every other sum either fits or ends in an empty version, which is refused.
-/

namespace ModuleServices.Growth.Proof

open ModuleServices.Proof

variable {extent : BufferExtent} {policy : GrowthPolicy} {name : String}
  {required : GrowableRequirement} {heldUnits units : Nat}

/-- The bytes of the units, as numbers. -/
def exactBytes (extent : BufferExtent) (units : Nat) : Nat :=
  extent.fixedBytes + units * extent.unitBytes

theorem bytesFor_exact (h : exactBytes extent units ≤ kMax) :
    extent.bytesFor units = exactBytes extent units := by
  have hpow : (2 : Nat) ^ 64 = kMax + 1 := by decide
  unfold BufferExtent.bytesFor
  rw [hpow]
  exact Nat.mod_eq_of_lt (Nat.lt_succ_of_le h)

/-- A size that reaches the bytes of the units holds the units. -/
theorem le_unitsIn (hunit : 0 < extent.unitBytes) {size : Nat}
    (h : exactBytes extent units ≤ size) : units ≤ extent.unitsIn size := by
  unfold exactBytes at h
  unfold BufferExtent.unitsIn
  rcases Nat.eq_zero_or_pos units with hzero | hpos
  · omega
  · have hmul : 0 < units * extent.unitBytes := Nat.mul_pos hpos hunit
    rw [if_pos ⟨Nat.ne_of_gt hunit, by omega⟩, Nat.le_div_iff_mul_le hunit]
    omega

/-- Rounded up, the elements cover the bytes, unless the sum wraps and there are none. -/
theorem elementsFor_cover (hstride : extent.structuredStride ≠ 0)
    (hstride32 : extent.structuredStride ≤ kMax32) (hexact : exactBytes extent units ≤ kMax)
    (hsome : extent.elementsFor units ≠ 0) :
    exactBytes extent units ≤ extent.elementsFor units * extent.structuredStride := by
  have hpow : (2 : Nat) ^ 64 = kMax + 1 := by decide
  unfold BufferExtent.elementsFor at hsome ⊢
  rw [if_pos hstride, bytesFor_exact hexact, hpow] at hsome ⊢
  generalize exactBytes extent units = bytes at hexact hsome ⊢
  generalize extent.structuredStride = stride at hstride hstride32 hsome ⊢
  by_cases hfits : bytes + stride - 1 ≤ kMax
  · rw [Nat.mod_eq_of_lt (Nat.lt_succ_of_le hfits)]
    have hlt := Nat.lt_div_mul_add (a := bytes + stride - 1) (Nat.pos_of_ne_zero hstride)
    omega
  · -- the rounding wraps to less than one element
    exfalso
    apply hsome
    have hwrap : (bytes + stride - 1) % (kMax + 1) = bytes + stride - 1 - (kMax + 1) := by
      rw [Nat.mod_eq_sub_mod (by omega)]
      refine Nat.mod_eq_of_lt ?_
      have : kMax32 < kMax := by decide
      omega
    rw [hwrap]
    exact Nat.div_eq_of_lt (by omega)

/-- What the growth asks for is no smaller than what was required. -/
theorem growTo_bounds (hminimum : policy.minimum ≤ kMax) (hheld : heldUnits ≤ kMax)
    (hunits : required.units ≤ kMax) (h : required.growTo policy heldUnits = .ok units) :
    required.units ≤ units := by
  unfold GrowableRequirement.growTo at h
  split at h
  · cases h
    assumption
  · exact (next_bounds hunits hheld hminimum h).1

/-- A batch refuses the size it computes for the units: no elements or bytes at all, or more
elements than a structured buffer has. -/
def Refuses (extent : BufferExtent) (units : Nat) : Prop :=
  extent.capacityClassFor units = 0
    ∨ extent.structuredStride ≠ 0 ∧ kMax32 < extent.elementsFor units

instance (extent : BufferExtent) (units : Nat) : Decidable (Refuses extent units) :=
  inferInstanceAs (Decidable (_ ∨ _))

theorem except_bind_ok {α β : Type} {x : Except String α} {f : α → Except String β} {b : β}
    (h : x >>= f = .ok b) : ∃ a, x = .ok a ∧ f a = .ok b := by
  cases x with
  | error what => cases h
  | ok a => exact ⟨a, rfl, h⟩

theorem post_ok {request : VersionGrowthRequest}
    (h : VersionGrowthRequest.post extent name units = .ok request) :
    ¬(extent.structuredStride ≠ 0 ∧ kMax32 < extent.elementsFor units)
      ∧ request.capacityClass = extent.capacityClassFor units
      ∧ request.stride = extent.structuredStride
      ∧ request.elements = (if extent.structuredStride ≠ 0 then extent.elementsFor units else 0)
      ∧ request.bytes = (if extent.structuredStride ≠ 0 then 0 else extent.bytesFor units) := by
  unfold VersionGrowthRequest.post at h
  by_cases hstride : extent.structuredStride = 0
  · rw [if_neg (not_not.mpr hstride)] at h
    cases h
    simp [hstride]
  · rw [if_pos hstride] at h
    dsimp only at h
    split at h
    · cases h
    · rename_i hfits
      cases h
      simp [hstride]
      omega

theorem backing_ok {request : VersionGrowthRequest} {backing : BackingRequest}
    (h : request.backing name = .ok backing) :
    backing.stride = request.stride
      ∧ backing.capacityClass = (if request.capacityClass ≠ 0 then request.capacityClass
        else if request.elements ≠ 0 then request.elements else request.bytes)
      ∧ backing.capacityClass ≠ 0 := by
  unfold VersionGrowthRequest.backing at h
  dsimp only at h
  generalize hclass : (if request.capacityClass ≠ 0 then request.capacityClass
    else if request.elements ≠ 0 then request.elements else request.bytes) = capacityClass at h ⊢
  by_cases hempty : capacityClass = 0
  · rw [if_pos hempty] at h
    cases h
  · rw [if_neg hempty] at h
    split at h
    · cases h
    · cases h
      exact ⟨rfl, rfl, hempty⟩

/-- A zero class falls back to the size itself, which is then zero too: it is refused. -/
theorem not_refuses_of_backing {request : VersionGrowthRequest} {backing : BackingRequest}
    (hpost : VersionGrowthRequest.post extent name units = .ok request)
    (h : request.backing name = .ok backing) :
    ¬Refuses extent units ∧ backing.capacityClass = extent.capacityClassFor units := by
  obtain ⟨hfits, hclass, -, helements, hbytes⟩ := post_ok hpost
  obtain ⟨-, hbacking, hsome⟩ := backing_ok h
  have heq : backing.capacityClass = extent.capacityClassFor units := by
    rw [hbacking, hclass, helements, hbytes]
    unfold BufferExtent.capacityClassFor
    by_cases hstride : extent.structuredStride = 0
    · simp [hstride]
    · simp only [if_pos hstride]
      split <;> omega
  refine ⟨?_, heq⟩
  rintro (hzero | hmany)
  · exact hsome (heq.trans hzero)
  · exact hfits hmany

/-- What a batch asks for, once it asks. -/
theorem growthBatch_ok {request : VersionGrowthRequest} {backing : BackingRequest}
    (h : growthBatch extent policy name required heldUnits = .ok (request, backing)) :
    ∃ units, required.growTo policy heldUnits = .ok units ∧ ¬Refuses extent units
      ∧ request.size = backing.byteCapacity
      ∧ request.size = (if extent.structuredStride ≠ 0
        then extent.elementsFor units * extent.structuredStride else extent.bytesFor units) := by
  obtain ⟨units, hgrow, h⟩ := except_bind_ok h
  obtain ⟨posted, hpost, h⟩ := except_bind_ok h
  obtain ⟨made, hmade, h⟩ := except_bind_ok h
  cases h
  obtain ⟨hrefuses, hclass⟩ := not_refuses_of_backing hpost hmade
  obtain ⟨-, -, hstride, helements, hbytes⟩ := post_ok hpost
  obtain ⟨hbackingStride, -, -⟩ := backing_ok hmade
  refine ⟨units, hgrow, hrefuses, ?_, ?_⟩
  · unfold VersionGrowthRequest.size BackingRequest.byteCapacity
    rw [hbackingStride, hclass, hstride, helements, hbytes]
    unfold BufferExtent.capacityClassFor
    by_cases hzero : extent.structuredStride = 0 <;> simp [hzero]
  · unfold VersionGrowthRequest.size
    rw [hstride, helements, hbytes]
    by_cases hzero : extent.structuredStride = 0 <;> simp [hzero]

/-- A size that is not refused is asked for. -/
theorem growthBatch_of_growTo (name : String)
    (hgrow : required.growTo policy heldUnits = .ok units) (hrefuses : ¬Refuses extent units) :
    ∃ made, growthBatch extent policy name required heldUnits = .ok made := by
  have hclass : extent.capacityClassFor units ≠ 0 := fun hzero => hrefuses (.inl hzero)
  have hfits : extent.structuredStride ≠ 0 → extent.elementsFor units ≤ kMax32 :=
    fun hstride => Nat.not_lt.mp fun hmany => hrefuses (.inr ⟨hstride, hmany⟩)
  have hpost : ∃ request, VersionGrowthRequest.post extent name units = .ok request
      ∧ request.capacityClass = extent.capacityClassFor units
      ∧ ¬(request.elements ≠ 0 ∧ request.stride = 0) := by
    unfold VersionGrowthRequest.post
    by_cases hstride : extent.structuredStride = 0
    · rw [if_neg (not_not.mpr hstride)]
      exact ⟨_, rfl, rfl, by simp⟩
    · rw [if_pos hstride]
      dsimp only
      rw [if_neg (Nat.not_lt.mpr (hfits hstride))]
      exact ⟨_, rfl, rfl, by simp [hstride]⟩
  obtain ⟨request, hpost, hrequest, hstructured⟩ := hpost
  have hbacking : ∃ backing, request.backing name = .ok backing := by
    unfold VersionGrowthRequest.backing
    dsimp only
    rw [if_pos (by omega : request.capacityClass ≠ 0), if_neg (by omega), if_neg hstructured]
    exact ⟨_, rfl⟩
  obtain ⟨backing, hbacking⟩ := hbacking
  refine ⟨(request, backing), ?_⟩
  unfold growthBatch
  rw [hgrow]
  change (VersionGrowthRequest.post extent name units >>= _) = _
  rw [hpost]
  change (request.backing name >>= _) = _
  rw [hbacking]
  rfl

/-- What a batch asks for is large enough: the version's bytes are those of the units the policy
owes, as numbers; the backing's class holds them; and the version made meets the requirement. -/
structure GrowsEnough (extent : BufferExtent) (policy : GrowthPolicy)
    (required : GrowableRequirement) (heldUnits : Nat)
    (made : VersionGrowthRequest × BackingRequest) : Prop where
  grown : ∀ units, required.growTo policy heldUnits = .ok units →
    exactBytes extent units ≤ made.1.size
  owed : max heldUnits policy.minimum < required.units → policy.kind = .headroom →
    required.growTo policy heldUnits = owed policy required.units
  holds : required.units ≤ extent.unitsIn made.1.size
  backed : made.1.size ≤ made.2.byteCapacity
  met : ∀ serial, required.newerThan < serial →
    required.metBy (extent.unitsIn made.2.byteCapacity) serial

/-- The two products of the sizing are within 64 bits, or what is left of them is refused. -/
def Sizeable (extent : BufferExtent) (policy : GrowthPolicy) (required : GrowableRequirement)
    (heldUnits units : Nat) : Prop :=
  Refuses extent units
    ∨ exactBytes extent units ≤ kMax ∧ Representable policy heldUnits required.units

/-- What is asked for past the 64 bits is never what the units take. -/
theorem size_le_kMax (hstride32 : extent.structuredStride ≤ kMax32)
    (hrefuses : ¬Refuses extent units) :
    (if extent.structuredStride ≠ 0 then extent.elementsFor units * extent.structuredStride
      else extent.bytesFor units) ≤ kMax := by
  have hsquare : kMax32 * kMax32 ≤ kMax := by decide
  split
  · rename_i hstride
    have hfits : extent.elementsFor units ≤ kMax32 :=
      Nat.not_lt.mp fun hmany => hrefuses (.inr ⟨hstride, hmany⟩)
    exact Nat.le_trans (Nat.mul_le_mul hfits hstride32) hsquare
  · have hlt : extent.bytesFor units < 2 ^ 64 := Nat.mod_lt _ (by decide)
    have hpow : (2 : Nat) ^ 64 = kMax + 1 := by decide
    omega

/-- Within 64 bits, the size asked for is at least the bytes of the units. -/
theorem exactBytes_le_size (hstride32 : extent.structuredStride ≤ kMax32)
    (hrefuses : ¬Refuses extent units) (hexact : exactBytes extent units ≤ kMax) :
    exactBytes extent units ≤ (if extent.structuredStride ≠ 0
      then extent.elementsFor units * extent.structuredStride else extent.bytesFor units) := by
  split
  · rename_i hstride
    refine elementsFor_cover hstride hstride32 hexact fun hzero => hrefuses (.inl ?_)
    unfold BufferExtent.capacityClassFor
    rw [if_pos hstride, hzero]
  · exact Nat.le_of_eq (bytesFor_exact hexact).symm

/-- A need past what is held goes to the policy as it is. -/
theorem growTo_next (h : max heldUnits policy.minimum < required.units) :
    required.growTo policy heldUnits = policy.next heldUnits required.units := by
  unfold GrowableRequirement.growTo
  rw [if_neg (by omega)]

end ModuleServices.Growth.Proof

namespace ModuleServices.Growth.BufferExtent

open ModuleServices.Proof ModuleServices.Growth.Proof

/-- A growth batch throws or asks for a version large enough, if and only if the products of its
sizing are within 64 bits or what is left of them is refused. -/
theorem growth_holds_iff (extent : BufferExtent) (policy : GrowthPolicy) (name : String)
    (required : GrowableRequirement) (heldUnits : Nat) (hunit : 0 < extent.unitBytes)
    (hstride : extent.structuredStride ≤ kMax32) (hminimum : policy.minimum ≤ kMax)
    (hheld : heldUnits ≤ kMax) (hunits : required.units ≤ kMax) :
    (∀ made, growthBatch extent policy name required heldUnits = .ok made →
        GrowsEnough extent policy required heldUnits made)
      ↔ ∀ units, required.growTo policy heldUnits = .ok units →
        Sizeable extent policy required heldUnits units := by
  constructor
  · intro h units hgrow
    by_cases hrefuses : Refuses extent units
    · exact .inl hrefuses
    obtain ⟨made, hmade⟩ := growthBatch_of_growTo name hgrow hrefuses
    have henough := h made hmade
    obtain ⟨units', hgrow', -, -, hsize⟩ := growthBatch_ok hmade
    rw [hgrow] at hgrow'
    cases hgrow'
    refine .inr ⟨?_, fun hkind hmore => ?_⟩
    · have hle := size_le_kMax hstride hrefuses
      rw [← hsize] at hle
      exact Nat.le_trans (henough.grown units hgrow) hle
    · refine (headroom_exact_iff hunits hmore hkind).mp ?_ hkind hmore
      rw [← growTo_next hmore]
      exact henough.owed hmore hkind
  · intro h made hmade
    obtain ⟨units, hgrow, hrefuses, hbacked, hsize⟩ := growthBatch_ok hmade
    obtain ⟨hexact, hpolicy⟩ := (h units hgrow).resolve_left hrefuses
    have hle : exactBytes extent units ≤ made.1.size := by
      rw [hsize]
      exact exactBytes_le_size hstride hrefuses hexact
    have hrequired : required.units ≤ extent.unitsIn made.1.size :=
      Nat.le_trans (growTo_bounds hminimum hheld hunits hgrow) (le_unitsIn hunit hle)
    constructor
    · intro units' hgrow'
      rw [hgrow] at hgrow'
      cases hgrow'
      exact hle
    · intro hmore hkind
      rw [growTo_next hmore]
      exact (headroom_exact_iff hunits hmore hkind).mpr hpolicy
    · exact hrequired
    · exact Nat.le_of_eq hbacked
    · intro serial hserial
      unfold GrowableRequirement.metBy
      rw [← hbacked]
      simp [hrequired, hserial]

/-- A header of 16 bytes and rows of 48, in a structured buffer of 16-byte elements. -/
def rows : BufferExtent := { fixedBytes := 16, unitBytes := 48, structuredStride := 16 }

theorem growth_holds_rows :
    (∀ made, growthBatch rows .doublingPolicy "rows" { units := 1000, newerThan := 4 } 64 = .ok made →
        GrowsEnough rows .doublingPolicy { units := 1000, newerThan := 4 } 64 made)
      ↔ ∀ units, GrowableRequirement.growTo { units := 1000, newerThan := 4 } .doublingPolicy 64
          = .ok units → Sizeable rows .doublingPolicy { units := 1000, newerThan := 4 } 64 units :=
  growth_holds_iff rows .doublingPolicy "rows" { units := 1000, newerThan := 4 } 64 (by decide)
    (by decide) (by decide) (by decide) (by decide)

/-- 2^60 rows take three times 2^64 bytes: what is left of them is the header, and the version
asked for is one element that holds no row at all. -/
theorem growth_wraps :
    ¬∀ made, growthBatch rows .doublingPolicy "rows" { units := 2 ^ 60 } 64 = .ok made →
      GrowsEnough rows .doublingPolicy { units := 2 ^ 60 } 64 made := by
  intro h
  have hgrow : growthBatch rows .doublingPolicy "rows" { units := 2 ^ 60 } 64
      = .ok ({ elements := 1, capacityClass := 1, stride := 16 },
          { capacityClass := 1, stride := 16 }) := by decide
  have hholds := (h _ hgrow).holds
  revert hholds
  decide

end ModuleServices.Growth.BufferExtent
