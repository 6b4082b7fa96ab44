import AndromedaBoot.Efi

/-!
# Memory region descriptors (AndromedaMemoryMapLib.h)

`ARM_MEMORY_REGION_DESCRIPTOR_EX` and the enumerations of its fields. Addresses and lengths are
`UInt64` and wrap as in the source; `Descriptor.Valid` is what the record parser guarantees, and under
it `Descriptor.lo` and `Descriptor.hi` are the region as an interval of natural numbers.
-/

namespace Andromeda

/-- `MAX_ARM_MEMORY_REGION_DESCRIPTOR_COUNT`. -/
def maxDescriptorCount : Nat := 128

/-- `MEMORY_REGION_NAME_MAX_LENGTH`. -/
def regionNameMaxLength : Nat := 32

/-- `CHAR8 Name[32]`: a text that fits with its terminator; the rest of the array is zero. -/
structure RegionName extends CStr where
  size_lt : bytes.length < regionNameMaxLength
deriving DecidableEq, Repr

/-- `DeviceMemoryAddHob`. -/
inductive HobOption
  | noHob
  | addMem
  | addDev
  | hobOnlyNoCacheSetting
  | allocOnly
deriving DecidableEq, Repr

/-- `EFI_RESOURCE_TYPE`, in the order of its values. -/
inductive ResourceType
  | systemMemory
  | memoryMappedIo
  | io
  | firmwareDevice
  | memoryMappedIoPort
  | memoryReserved
  | ioReserved
deriving DecidableEq, Repr

/-- The `EFI_RESOURCE_ATTRIBUTE_TYPE` values a record can name, and 0. -/
inductive ResourceAttribute
  | zero
  | executionProtected
  | initialized
  | present
  | readProtected
  | sysMemCap
  | sysMemCapXn
  | tested
  | uncacheable
  | writeCombineable
  | writeProtected
deriving DecidableEq, Repr

/-- `EFI_MEMORY_TYPE`, in the order of its values. -/
inductive MemoryType
  | reservedMemoryType
  | loaderCode
  | loaderData
  | bootServicesCode
  | bootServicesData
  | runtimeServicesCode
  | runtimeServicesData
  | conventionalMemory
  | unusableMemory
  | acpiReclaimMemory
  | acpiMemoryNvs
  | memoryMappedIo
  | memoryMappedIoPortSpace
  | palCode
  | maxMemoryType
deriving DecidableEq, Repr

/-- The `ARM_MEMORY_REGION_ATTRIBUTES` a record can name; the first has the value 0. -/
inductive ArmAttributes
  | uncachedUnbuffered
  | writeBack
  | writeThrough
  | device
deriving DecidableEq, Repr

/-- `ARM_MEMORY_REGION_DESCRIPTOR_EX`. -/
structure Descriptor where
  name : RegionName
  address : UInt64
  length : UInt64
  hobOption : HobOption
  resourceType : ResourceType
  resourceAttribute : ResourceAttribute
  memoryType : MemoryType
  armAttributes : ArmAttributes
deriving DecidableEq, Repr

/-- `PLATFORM_DDR_BANK_REGION` (PlatformDdrBankMapLib.h:10). -/
structure DdrBankRegion where
  base : UInt64
  length : UInt64
deriving DecidableEq, Repr

/-- `gRamPartitionTemplate` (AndromedaMemoryMapLib.c:25) with the address and length of a gap. -/
def ramPartition (address length : UInt64) : Descriptor where
  name := ⟨⟨ascii "RAM Partition", by decide⟩, by decide⟩
  address := address
  length := length
  hobOption := .addMem
  resourceType := .systemMemory
  resourceAttribute := .sysMemCap
  memoryType := .conventionalMemory
  armAttributes := .writeBack

/-- `gMemoryMapTerminator` (AndromedaMemoryMapLib.c:27). -/
def memoryMapTerminator : Descriptor where
  name := ⟨⟨ascii "Terminator", by decide⟩, by decide⟩
  address := 0
  length := 0
  hobOption := .noHob
  resourceType := .systemMemory
  resourceAttribute := .zero
  memoryType := .reservedMemoryType
  armAttributes := .uncachedUnbuffered

/-- A zeroed slot, as static storage starts. -/
def zeroDescriptor : Descriptor := { memoryMapTerminator with name := ⟨⟨[], by decide⟩, by decide⟩ }

/-! ## Regions as intervals -/

def Descriptor.lo (d : Descriptor) : Nat := d.address.toNat

def Descriptor.hi (d : Descriptor) : Nat := d.address.toNat + d.length.toNat

/-- `Address + Length` as the source computes it. -/
def Descriptor.end_ (d : Descriptor) : UInt64 := d.address + d.length

/-- What `MemoryMapConfigParseDescriptor` checks of a region: it is not empty and its end does not
wrap. -/
structure Descriptor.Valid (d : Descriptor) : Prop where
  pos : d.length ≠ 0
  noWrap : d.address ≤ 0xFFFFFFFFFFFFFFFF - d.length

instance (d : Descriptor) : Decidable d.Valid :=
  decidable_of_iff (d.length ≠ 0 ∧ d.address ≤ 0xFFFFFFFFFFFFFFFF - d.length)
    ⟨fun h => ⟨h.1, h.2⟩, fun h => ⟨h.pos, h.noWrap⟩⟩

theorem Descriptor.valid_iff {d : Descriptor} : d.Valid ↔ d.lo < d.hi ∧ d.hi < 2 ^ 64 := by
  have hl := d.length.toNat_lt
  have hmax : (0xFFFFFFFFFFFFFFFF - d.length).toNat = 2 ^ 64 - 1 - d.length.toNat := by
    rw [UInt64.toNat_sub_of_le _ _ (by rw [UInt64.le_iff_toNat_le]; change _ ≤ 2 ^ 64 - 1; omega)]
    rfl
  constructor
  · rintro ⟨h1, h2⟩
    rw [UInt64.le_iff_toNat_le, hmax] at h2
    have h3 : d.length.toNat ≠ 0 := fun h => h1 (UInt64.toNat_inj.1 h)
    simp only [Descriptor.lo, Descriptor.hi]
    omega
  · rintro ⟨h1, h2⟩
    simp only [Descriptor.lo, Descriptor.hi] at h1 h2
    constructor
    · intro h
      simp [h] at h1
    · rw [UInt64.le_iff_toNat_le, hmax]
      omega

theorem Descriptor.Valid.toNat_end {d : Descriptor} (h : d.Valid) : d.end_.toNat = d.hi := by
  have := (valid_iff.1 h).2
  simp only [Descriptor.end_, Descriptor.hi, UInt64.toNat_add] at *
  omega

/-- The region contains the address. -/
def Descriptor.Covers (d : Descriptor) (a : Nat) : Prop := d.lo ≤ a ∧ a < d.hi

instance (d : Descriptor) (a : Nat) : Decidable (d.Covers a) := inferInstanceAs (Decidable (_ ∧ _))

end Andromeda
