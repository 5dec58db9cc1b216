import ModuleServices.Buffers.Version

/-!
# The size of a grown buffer

From a requirement to the backing a growth batch asks the pool for: the units by the growth
policy, their bytes by the buffer's extent, whole elements where the buffer is structured, and
the pool class. All of it is computed in 64 bits.
-/

namespace ModuleServices.Growth

structure BufferExtent where
  fixedBytes : Nat := 0
  unitBytes : Nat := 0
  structuredStride : Nat := 0
  deriving DecidableEq, Repr

namespace BufferExtent

variable (extent : BufferExtent)

/-- `BytesFor`. -/
def bytesFor (units : Nat) : Nat := (extent.fixedBytes + units * extent.unitBytes) % 2 ^ 64

/-- `UnitsIn`. -/
def unitsIn (bytes : Nat) : Nat :=
  if extent.unitBytes ≠ 0 ∧ bytes > extent.fixedBytes then
    (bytes - extent.fixedBytes) / extent.unitBytes
  else 0

/-- `ElementsFor`. -/
def elementsFor (units : Nat) : Nat :=
  if extent.structuredStride ≠ 0 then
    (extent.bytesFor units + extent.structuredStride - 1) % 2 ^ 64 / extent.structuredStride
  else 0

/-- `CapacityClassFor`. -/
def capacityClassFor (units : Nat) : Nat :=
  if extent.structuredStride ≠ 0 then extent.elementsFor units else extent.bytesFor units

end BufferExtent

structure GrowableRequirement where
  units : Nat := 0
  newerThan : Nat := 0
  deriving DecidableEq, Repr

namespace GrowableRequirement

/-- `MetBy`. -/
def metBy (required : GrowableRequirement) (heldUnits serial : Nat) : Bool :=
  decide (heldUnits ≥ required.units) && decide (serial > required.newerThan)

/-- `GrowTo`. -/
def growTo (required : GrowableRequirement) (policy : GrowthPolicy) (heldUnits : Nat) :
    Except String Nat :=
  if heldUnits ≥ required.units then .ok heldUnits else policy.next heldUnits required.units

end GrowableRequirement

/-- `VersionGrowthRequest`, as far as it says how large the version is. -/
structure VersionGrowthRequest where
  elements : Nat := 0
  bytes : Nat := 0
  capacityClass : Nat := 0
  stride : Nat := 0
  deriving DecidableEq, Repr

namespace VersionGrowthRequest

/-- The bytes of the version asked for. -/
def size (request : VersionGrowthRequest) : Nat :=
  if request.stride ≠ 0 then request.elements * request.stride else request.bytes

/-- `Post`, for one of its asks. -/
def post (extent : BufferExtent) (name : String) (units : Nat) :
    Except String VersionGrowthRequest :=
  if extent.structuredStride ≠ 0 then
    let elements := extent.elementsFor units
    if elements > kMax32 then
      .error ("GrowableBufferSet: " ++ name ++ " past a structured buffer's elements")
    else
      .ok {
        elements
        capacityClass := extent.capacityClassFor units
        stride := extent.structuredStride }
  else
    .ok {
      bytes := extent.bytesFor units
      capacityClass := extent.capacityClassFor units }

/-- `MakeAndFill`, up to what it asks the pool for. -/
def backing (request : VersionGrowthRequest) (name : String) : Except String BackingRequest :=
  let capacityClass :=
    if request.capacityClass ≠ 0 then request.capacityClass
    else if request.elements ≠ 0 then request.elements
    else request.bytes
  if capacityClass = 0 then .error ("GrowVersion: " ++ name ++ " asks for an empty version")
  else if request.elements ≠ 0 ∧ request.stride = 0 then
    .error ("GrowVersion: " ++ name ++ " is structured without a stride")
  else .ok { capacityClass, stride := request.stride }

end VersionGrowthRequest

/-- What a growth batch does with one requirement: the version it asks for, and the backing. -/
def growthBatch (extent : BufferExtent) (policy : GrowthPolicy) (name : String)
    (required : GrowableRequirement) (heldUnits : Nat) :
    Except String (VersionGrowthRequest × BackingRequest) := do
  let units ← required.growTo policy heldUnits
  let request ← VersionGrowthRequest.post extent name units
  let backing ← request.backing name
  return (request, backing)

end ModuleServices.Growth
