import EagleOS.ESTD.Bitmap

/-!
# What the boot loader tells the kernel

The memory map and the boot record. Region bases and lengths are 64 bits wide,
addresses and sizes 32. The regions are the list of the `RegionCount` entries at
`Regions`. The fields that no function of the development reads are left out.
-/

namespace EagleOS

/-- `PhysicalAddress`. -/
abbrev PhysicalAddress := BitVec 32

/-- `VirtualAddress`. -/
abbrev VirtualAddress := BitVec 32

namespace Boot

open ESTD

/-- `MemoryRegionType`; the boot loader may store other numbers. -/
inductive MemoryRegionType where
  /-- `0x1`. -/
  | available
  /-- `0x2`. -/
  | reserved
  /-- `0x3`. -/
  | acpiReclaimable
  /-- `0x4`. -/
  | nvs
  /-- `0x5`. -/
  | badRAM
  /-- Any other number. -/
  | other (code : BitVec 32)
  deriving DecidableEq

/-- `MemoryRegion`. -/
structure MemoryRegion where
  /-- `BaseAddress`. -/
  baseAddress : BitVec 64
  /-- `Length`. -/
  length : BitVec 64
  /-- `Type`. -/
  type : MemoryRegionType
  deriving DecidableEq

/-- `MemoryMap`. -/
structure MemoryMap where
  /-- `MemoryAddressHigh`. -/
  memoryAddressHigh : BitVec 32
  /-- The `RegionCount` entries at `Regions`. -/
  regions : List MemoryRegion
  deriving DecidableEq

/-- `BootInfo`. -/
structure BootInfo where
  /-- `BootloaderPhysicalStartAddress`. -/
  bootloaderPhysicalStartAddress : PhysicalAddress
  /-- `BootloaderSize`. -/
  bootloaderSize : SizeT
  /-- `KernelPhysicalStartAddress`. -/
  kernelPhysicalStartAddress : PhysicalAddress
  /-- `KernelPhysicalEndAddress`. -/
  kernelPhysicalEndAddress : PhysicalAddress
  /-- `KernelVirtualStartAddress`. -/
  kernelVirtualStartAddress : VirtualAddress
  /-- `KernelSize`. -/
  kernelSize : SizeT
  /-- `SystemMemoryMap`. -/
  systemMemoryMap : MemoryMap
  deriving DecidableEq

/-- The physical addresses of a region's bytes, as numbers. -/
def MemoryRegion.bytes (r : MemoryRegion) (x : ℕ) : Prop :=
  r.baseAddress.toNat ≤ x ∧ x < r.baseAddress.toNat + r.length.toNat

/-- The physical address `x` is that of a byte of a region of type `Available`. -/
def MemoryMap.AvailableAt (m : MemoryMap) (x : ℕ) : Prop :=
  ∃ r ∈ m.regions, r.type = .available ∧ r.bytes x

/-- A machine with 512 MB whose map lists what lies above 1 MB, with the boot loader at 1 MB and
a kernel image at 2 MB that ends inside a page. -/
def bootInfo512 : BootInfo where
  bootloaderPhysicalStartAddress := 0x100000#32
  bootloaderSize := 0x8000#32
  kernelPhysicalStartAddress := 0x200000#32
  kernelPhysicalEndAddress := 0x310800#32
  kernelVirtualStartAddress := 0xC0000000#32
  kernelSize := 0x110800#32
  systemMemoryMap := ⟨0x20000000#32, [⟨0x100000#64, 0x1FF00000#64, .available⟩]⟩

end Boot

end EagleOS
