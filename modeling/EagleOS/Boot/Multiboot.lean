import EagleOS.Arch.BootEntry
import EagleOS.Foundations.Records

/-!
# The boot loader's memory map

The boot loader leaves a record of information in memory, and in it the address and the length of a map of memory. `KMain`
makes its own boot record of them, and takes the entries of the map for its regions as they lie in memory.

## The model

`MultibootMemoryMap` is an entry as the boot loader writes it, `BootCPU.loadRegion` what the kernel reads there, through the page
tables that the boot code has made. `kMain` is `KMain` up to `InitKernel`: `none` for a page fault, `some none` where it
returns.

## What is proved

* `loadRegion_of_bytesAt` — the layouts of an entry and of a region agree.
* `kMain_of_enter` — whatever entries the boot loader writes, the kernel's regions are these entries, in this order.
-/

namespace EagleOS.Boot

open ESTD Foundations Arch EagleOS.Memory

/-! ### What the boot loader writes -/

/-- `MultibootMemoryMap`. -/
structure MultibootMemoryMap where
  /-- `Size`. -/
  size : BitVec 32
  /-- `BaseAddress`. -/
  baseAddress : BitVec 64
  /-- `Length`. -/
  length : BitVec 64
  /-- `Type`. -/
  type : BitVec 32

/-- The entries are packed. -/
def MultibootMemoryMap.format : RecordFormat MultibootMemoryMap where
  size := 24
  bytes r := wordBytes 4 r.size ++ (wordBytes 8 r.baseAddress ++ (wordBytes 8 r.length ++ wordBytes 4 r.type))
  length_bytes r := by simp

/-- The fields of `MultibootInfo` that `KMain` needs. -/
structure MultibootInfo where
  /-- `MemoryUpper`. -/
  memoryUpper : BitVec 32
  /-- `MemoryMapLength`. -/
  memoryMapLength : BitVec 32
  /-- `MemoryMapAddress`. -/
  memoryMapAddress : VirtualAddress

/-- They lie where the packed record has them. -/
structure MultibootInfo.At (info : MultibootInfo) (mem : Foundations.Memory) (a : BitVec 32) : Prop where
  memoryUpper : mem.load32 (a + 8#32) = info.memoryUpper
  memoryMapLength : mem.load32 (a + 44#32) = info.memoryMapLength
  memoryMapAddress : mem.load32 (a + 48#32) = info.memoryMapAddress

/-! ### What the kernel reads -/

/-- The type that a number stands for. -/
def MemoryRegionType.ofCode (code : BitVec 32) : MemoryRegionType :=
  if code = 0x1#32 then .available
  else if code = 0x2#32 then .reserved
  else if code = 0x3#32 then .acpiReclaimable
  else if code = 0x4#32 then .nvs
  else if code = 0x5#32 then .badRAM
  else .other code

/-- The region that an entry stands for. -/
def MultibootMemoryMap.region (r : MultibootMemoryMap) : MemoryRegion := ⟨r.baseAddress, r.length, .ofCode r.type⟩

/-- Load eight bytes. -/
def load64 (s : BootCPU) (v : VirtualAddress) : Option (BitVec 64) :=
  (s.load v).bind fun low => (s.load (v + 4#32)).map fun high => high ++ low

/-- Load a `MemoryRegion`. -/
def loadRegion (s : BootCPU) (v : VirtualAddress) : Option MemoryRegion :=
  (load64 s (v + 4#32)).bind fun baseAddress =>
    (load64 s (v + 12#32)).bind fun length =>
      (s.load (v + 20#32)).map fun type => ⟨baseAddress, length, .ofCode type⟩

/-- The addresses of the linker's symbols. -/
structure Symbols where
  /-- `_bootloader_physical_start`. -/
  bootloaderPhysicalStart : BitVec 32
  /-- `_bootloader_physical_end`. -/
  bootloaderPhysicalEnd : BitVec 32
  /-- `_kernel_physical_start`. -/
  kernelPhysicalStart : BitVec 32
  /-- `_kernel_physical_end`. -/
  kernelPhysicalEnd : BitVec 32
  /-- `_kernel_virtual_start`. -/
  kernelVirtualStart : BitVec 32
  /-- `_kernel_virtual_end`. -/
  kernelVirtualEnd : BitVec 32

/-- What `KMain` writes into `bootInfo`. -/
def Symbols.bootInfo (symbols : Symbols) (memoryUpper : BitVec 32) (regions : List MemoryRegion) : BootInfo where
  bootloaderPhysicalStartAddress := symbols.bootloaderPhysicalStart
  bootloaderSize := symbols.bootloaderPhysicalEnd - symbols.bootloaderPhysicalStart
  kernelPhysicalStartAddress := symbols.kernelPhysicalStart
  kernelPhysicalEndAddress := symbols.kernelPhysicalEnd
  kernelVirtualStartAddress := symbols.kernelVirtualStart
  kernelSize := symbols.kernelVirtualEnd - symbols.kernelVirtualStart
  systemMemoryMap := ⟨memoryUpper * 1024#32, regions⟩

/-- `MULTIBOOT_BOOTLOADER_MAGIC`. -/
abbrev multibootBootloaderMagic : BitVec 32 := 0x2BADB002#32

/-- `KMain`, up to `InitKernel`. -/
def kMain (symbols : Symbols) (s : BootCPU) : Option (Option BootInfo) :=
  (s.load (s.esp + 4#32)).bind fun multibootMagic =>
    if multibootMagic ≠ multibootBootloaderMagic then some none
    else
      (s.load (s.esp + 8#32)).bind fun multibootInfo =>
        (s.load (multibootInfo + 8#32)).bind fun memoryUpper =>
          (s.load (multibootInfo + 44#32)).bind fun memoryMapLength =>
            (s.load (multibootInfo + 48#32)).bind fun memoryMapAddress =>
              (readRecords (loadRegion s) 24 memoryMapAddress (memoryMapLength.toNat / 24)).map fun regions =>
                some (symbols.bootInfo memoryUpper regions)

/-! ### One entry -/

section

variable {dir : PhysicalAddress} {s : BootCPU} {v : VirtualAddress}

/-- A word of eight bytes, put together. -/
theorem append_extractLsb' (x : BitVec 64) : x.extractLsb' 32 32 ++ x.extractLsb' 0 32 = x := by
  ext i hi
  have hget : x.getLsbD i = x[i] := BitVec.getLsbD_eq_getElem hi
  rw [BitVec.getElem_append]
  split
  · simp [hget]
  · have hi32 : 32 ≤ i := by omega
    simp [Nat.add_sub_cancel' hi32, hget]

/-- A word of the first 4 MB. -/
theorem load_of_bytesAt (h : BootTables dir s.state.mem) (hdir : Aligned dir) (hend : dir.toNat + 3 * 4096 ≤ 2 ^ 32)
    (hcr3 : s.state.cr3 = dir) {x : BitVec 32} (hx : BytesAt s.state.mem v (wordBytes 4 x)) (hv : v.toNat + 4 ≤ 0x400000) :
    s.load v = some x := by
  rw [h.load_low hdir hend hcr3 hv, hx.load32]

/-- Eight bytes. -/
theorem load64_of_bytesAt (h : BootTables dir s.state.mem) (hdir : Aligned dir) (hend : dir.toNat + 3 * 4096 ≤ 2 ^ 32)
    (hcr3 : s.state.cr3 = dir) {x : BitVec 64} (hx : BytesAt s.state.mem v (wordBytes 8 x)) (hv : v.toNat + 8 ≤ 0x400000) :
    load64 s v = some x := by
  have hnext : (v + 4#32).toNat = v.toNat + 4 := by bv_omega
  rw [wordBytes_eight, bytesAt_append, length_wordBytes] at hx
  rw [load64, load_of_bytesAt h hdir hend hcr3 hx.1 (by omega), Option.bind_some,
    load_of_bytesAt h hdir hend hcr3 hx.2 (by omega), Option.map_some, append_extractLsb']

/-- The layouts of an entry and of a region agree. -/
theorem loadRegion_of_bytesAt (h : BootTables dir s.state.mem) (hdir : Aligned dir) (hend : dir.toNat + 3 * 4096 ≤ 2 ^ 32)
    (hcr3 : s.state.cr3 = dir) {r : MultibootMemoryMap} (hr : BytesAt s.state.mem v (MultibootMemoryMap.format.bytes r))
    (hv : v.toNat + 24 ≤ 0x400000) : loadRegion s v = some r.region := by
  have h4 : (v + 4#32).toNat = v.toNat + 4 := by bv_omega
  have h12 : (v + 12#32).toNat = v.toNat + 12 := by bv_omega
  have h20 : (v + 20#32).toNat = v.toNat + 20 := by bv_omega
  rw [MultibootMemoryMap.format, bytesAt_append, bytesAt_append, bytesAt_append] at hr
  simp only [length_wordBytes, BitVec.add_assoc, ← BitVec.ofNat_add, Nat.reduceAdd] at hr
  obtain ⟨-, hbase, hlength, htype⟩ := hr
  rw [loadRegion, load64_of_bytesAt h hdir hend hcr3 hbase (by omega), Option.bind_some,
    load64_of_bytesAt h hdir hend hcr3 hlength (by omega), Option.bind_some,
    load_of_bytesAt h hdir hend hcr3 htype (by omega), Option.map_some, MultibootMemoryMap.region]

end

/-! ### From the boot loader's map to the kernel's -/

/-- Memory that the boot code keeps, where the kernel can read it at the address the boot loader has given. -/
def Readable (image : BootImage) (a : BitVec 32) (n : ℕ) : Prop := a.toNat + n ≤ 0x400000 ∧ Disjoint (Span a n) image.used

/-- **The boot loader's map is the kernel's**: when `_kernelstart` has called `KMain`, it returns if the magic number is another one.
If not, then whatever information the boot loader has left in memory that the boot code keeps, and whatever entries, also
when the length it gives ends in the middle of an entry, `KMain` makes its boot record of the whole entries, in the boot
loader's order. -/
theorem kMain_of_enter (image : BootImage) (h : image.Linked) (symbols : Symbols) (s : BootCPU)
    (hzero : ∀ i : BitVec 32, i.toNat < 1024 → s.state.mem.load32 (entryAddress image.bootPageDirectory i) = 0#32)
    (fuel : ℕ) (hfuel : 1024 ≤ fuel) :
    ∃ s', enter image fuel s = some s' ∧
      (s.state.eax ≠ multibootBootloaderMagic → kMain symbols s' = some none) ∧
      (s.state.eax = multibootBootloaderMagic → ∀ (info : MultibootInfo) (rs : List MultibootMemoryMap)
        (rest : List (BitVec 8)), info.At s.state.mem s.state.ebx → Readable image s.state.ebx 52 → rest.length < 24 →
        info.memoryMapLength.toNat = (MultibootMemoryMap.format.arrayBytes rs ++ rest).length →
        BytesAt s.state.mem info.memoryMapAddress (MultibootMemoryMap.format.arrayBytes rs ++ rest) →
        Readable image info.memoryMapAddress info.memoryMapLength.toNat →
        kMain symbols s' =
          some (some (symbols.bootInfo info.memoryUpper (rs.map MultibootMemoryMap.region)))) := by
  obtain ⟨s', henter, hover⟩ := boot_hands_over image h s hzero fuel hfuel
  have hdir := h.directory
  have hend := h.tables
  obtain ⟨hcr3, hboot⟩ := hover.tables
  refine ⟨s', henter, fun hmagic => ?_, fun hmagic info rs rest hinfo hreadable hrest hlength hbytes hmap => ?_⟩
  · rw [kMain, hover.magic, Option.bind_some, if_pos hmagic]
  -- what is readable has not changed
  have hkept : ∀ {a : BitVec 32} {n : ℕ}, Readable image a n → ∀ x ∈ Span a n, s'.state.mem x = s.state.mem x :=
    fun hr x hx => hover.frame x (Set.disjoint_left.mp hr.2 hx)
  have hfield : ∀ k : ℕ, k + 4 ≤ 52 → s'.load (s.state.ebx + BitVec.ofNat 32 k) =
      some (s.state.mem.load32 (s.state.ebx + BitVec.ofNat 32 k)) := by
    intro k hk
    have hlow := hreadable.1
    have hadd : (s.state.ebx + BitVec.ofNat 32 k).toNat = s.state.ebx.toNat + k := by
      rw [BitVec.toNat_add, BitVec.toNat_ofNat]
      omega
    rw [hboot.load_low hdir (by omega) hcr3 (by omega)]
    refine congrArg some (Memory.load32_congr fun x hx => hkept hreadable x ?_)
    rw [mem_span_iff (by omega)] at hx ⊢
    omega
  have hlow := hmap.1
  have hbytes' : BytesAt s'.state.mem info.memoryMapAddress (MultibootMemoryMap.format.arrayBytes rs ++ rest) :=
    hbytes.congr (by omega) fun x hx => hkept hmap x (hlength ▸ hx)
  have hregions : readRecords (loadRegion s') MultibootMemoryMap.format.size info.memoryMapAddress
      ((MultibootMemoryMap.format.arrayBytes rs ++ rest).length / MultibootMemoryMap.format.size) =
        some (rs.map MultibootMemoryMap.region) :=
    readRecords_of_bytesAt MultibootMemoryMap.format hbytes' hrest fun i hi hr => by
      have hsize : (i + 1) * 24 ≤ rs.length * 24 := Nat.mul_le_mul_right 24 hi
      have hall : (MultibootMemoryMap.format.arrayBytes rs ++ rest).length = rs.length * 24 + rest.length := by
        rw [List.length_append, RecordFormat.length_arrayBytes]
        rfl
      refine loadRegion_of_bytesAt hboot hdir (by omega) hcr3 hr ?_
      rw [BitVec.toNat_add, BitVec.toNat_ofNat, show MultibootMemoryMap.format.size = 24 from rfl]
      omega
  have hcount : readRecords (loadRegion s') 24 info.memoryMapAddress (info.memoryMapLength.toNat / 24) =
      some (rs.map MultibootMemoryMap.region) := by
    rw [hlength]
    exact hregions
  have hupper := hfield 8 (by decide)
  have hlen := hfield 44 (by decide)
  have haddress := hfield 48 (by decide)
  rw [hinfo.memoryUpper] at hupper
  rw [hinfo.memoryMapLength] at hlen
  rw [hinfo.memoryMapAddress] at haddress
  rw [kMain, hover.magic, Option.bind_some, if_neg (not_not.mpr hmagic), hover.info, Option.bind_some, hupper, Option.bind_some,
    hlen, Option.bind_some, haddress, Option.bind_some, hcount, Option.map_some]

/-- A map of two entries. -/
def entries512 : List MultibootMemoryMap := [⟨20#32, 0#64, 0x9FC00#64, 1#32⟩, ⟨20#32, 0x100000#64, 0x1FF00000#64, 1#32⟩]

/-- They are 48 bytes long. The length that is given is 50. -/
def info512 : MultibootInfo := ⟨0x7FC00#32, 50#32, 0x9600#32⟩

/-- What the boot loader has left at `0x9500` and `0x9600`. -/
def multiboot512 : Foundations.Memory :=
  (((holding 0x9600#32 (MultibootMemoryMap.format.arrayBytes entries512 ++ [0#8, 0#8])).store32 0x9508#32
    info512.memoryUpper).store32 0x952C#32 info512.memoryMapLength).store32 0x9530#32 info512.memoryMapAddress

theorem length_entries512 : (MultibootMemoryMap.format.arrayBytes entries512 ++ [0#8, 0#8]).length = 50 := by
  rw [List.length_append, RecordFormat.length_arrayBytes]
  rfl

/-- Above `0x9534` there are the entries and zeros. -/
theorem multiboot512_apply {x : BitVec 32} (hx : 0x9534 ≤ x.toNat) :
    multiboot512 x = holding 0x9600#32 (MultibootMemoryMap.format.arrayBytes entries512 ++ [0#8, 0#8]) x := by
  have hnot : ∀ y : BitVec 32, y.toNat ≤ 0x9530 → x ∉ Span y 4 := by
    intro y hy hin
    rw [mem_span_iff (by omega)] at hin
    omega
  rw [multiboot512, Memory.store32_of_notMem (hnot _ (by simp)), Memory.store32_of_notMem (hnot _ (by simp)),
    Memory.store32_of_notMem (hnot _ (by simp))]

/-- Below the image nothing is the boot code's. -/
theorem readable_bootImage {a : BitVec 32} {n : ℕ} (h : a.toNat + n ≤ 0x101000) : Readable bootImage a n := by
  refine ⟨by omega, ?_⟩
  rw [BootImage.used, Set.disjoint_union_right, Set.disjoint_union_right]
  refine ⟨⟨disjoint_span_of_le ?_ ?_, disjoint_span_of_le ?_ ?_⟩, disjoint_span_of_le ?_ ?_⟩ <;>
    simp [bootImage, kernelPhysical] <;> omega

/-- The symbols of the image. -/
def symbols512 : Symbols := ⟨0x100000#32, 0x109000#32, 0x200000#32, 0x310800#32, 0xC0000000#32, 0xC0110800#32⟩

theorem kMain_of_enter_bootImage :
    ∃ s', enter bootImage 1024 ⟨⟨multibootBootloaderMagic, 0x9500#32, 0#32, 0#32, 0x11#32, 0#32, multiboot512⟩, 0#32, 0#32,
      0#32, true⟩ = some s' ∧
    kMain symbols512 s' = some (some (symbols512.bootInfo 0x7FC00#32
      [⟨0#64, 0x9FC00#64, .available⟩, ⟨0x100000#64, 0x1FF00000#64, .available⟩])) := by
  have hzero : ∀ i : BitVec 32, i.toNat < 1024 → multiboot512.load32 (entryAddress bootImage.bootPageDirectory i) = 0#32 := by
    intro i hi
    have hat := entryAddress_toNat linked_bootImage.directory hi
    have hdir : bootImage.bootPageDirectory.toNat = 0x101000 := rfl
    have hnone : ∀ x ∈ Span (entryAddress bootImage.bootPageDirectory i) 4, multiboot512 x = 0#8 := by
      intro x hx
      rw [mem_span_iff (by omega)] at hx
      rw [multiboot512_apply (by omega)]
      refine holding_of_notMem fun hin => ?_
      rw [length_entries512, mem_span_iff (by simp)] at hin
      have h9600 : (0x9600#32).toNat = 0x9600 := rfl
      omega
    have hload := Memory.load32_congr (m := fun _ => 0#8) hnone
    simpa [Memory.load32] using hload
  obtain ⟨s', henter, -, hmain⟩ := kMain_of_enter bootImage linked_bootImage symbols512
    ⟨⟨multibootBootloaderMagic, 0x9500#32, 0#32, 0#32, 0x11#32, 0#32, multiboot512⟩, 0#32, 0#32, 0#32, true⟩ hzero 1024 le_rfl
  have hbytes : BytesAt multiboot512 info512.memoryMapAddress
      (MultibootMemoryMap.format.arrayBytes entries512 ++ [0#8, 0#8]) := by
    have hlen : (MultibootMemoryMap.format.arrayBytes entries512 ++ [0#8, 0#8]).length ≤ 2 ^ 32 := by
      rw [length_entries512]
      omega
    refine (bytesAt_holding 0x9600#32 hlen).congr hlen fun x hx => ?_
    rw [length_entries512, mem_span_iff (by simp)] at hx
    have h9600 : (0x9600#32).toNat = 0x9600 := rfl
    exact multiboot512_apply (by omega)
  have hinfo : info512.At multiboot512 0x9500#32 := by
    refine ⟨?_, ?_, Memory.load32_store32 _ _ _⟩
    · rw [multiboot512, Memory.load32_store32_of_disjoint (disjoint_span_of_le (by simp) (by simp)),
        Memory.load32_store32_of_disjoint (disjoint_span_of_le (by simp) (by simp))]
      exact Memory.load32_store32 _ _ _
    · rw [multiboot512, Memory.load32_store32_of_disjoint (disjoint_span_of_le (by simp) (by simp))]
      exact Memory.load32_store32 _ _ _
  exact ⟨s', henter, hmain rfl info512 entries512 [0#8, 0#8] hinfo (readable_bootImage (by simp)) (by simp)
    length_entries512.symm hbytes (readable_bootImage (by simp [info512]))⟩

end EagleOS.Boot
