import EagleOS.Memory.VirtualMemoryManager

/-!
# The tables as the manager keeps them

What `Init`, `Map` and `Unmap` do to the words of the directory and of the 257 tables, when these lie
page-aligned and apart from each other in an image at `0xC0000000`.

## The model

`InImage` is where the tables lie. `tableAddress v` is where the table for the virtual address `v` is in
physical memory, and `Covered v` says that there is one. `entryAt mem v` is the word for `v` in its table.

## What is proved

* `walk_eq` — under the invariant `Tables`, the walk finds what the word for the address says.
* `layout_of_inImage` — tables in the image do not overlap, and are found where the directory says.
* `entryAt_store_directory`, `entryAt_store_entry` — a store to one word leaves the others.
-/

namespace EagleOS.Memory

open ESTD Boot Foundations Arch

/-- There is a table for the address: it is in the first 4 MB, or at or above `0xC0000000`. -/
def Covered (v : VirtualAddress) : Prop := v.toNat / 0x400000 = 0 ∨ 768 ≤ v.toNat / 0x400000

instance (v : VirtualAddress) : Decidable (Covered v) := inferInstanceAs (Decidable (_ ∨ _))

/-- An address that is a multiple of the page size. -/
def Aligned (x : BitVec 32) : Prop := x.toNat % 4096 = 0

instance (x : BitVec 32) : Decidable (Aligned x) := inferInstanceAs (Decidable (_ = _))

/-- `n` bytes from `x` on are page-aligned and lie in the kernel image of `imageSize` bytes at `0xC0000000`. -/
def WithinImage (imageSize : ℕ) (x : VirtualAddress) (n : ℕ) : Prop :=
  Aligned x ∧ 0xC0000000 ≤ x.toNat ∧ x.toNat + n ≤ 0xC0000000 + imageSize

/-- The tables of the manager lie in the kernel image. -/
structure InImage (util : MemoryUtil) (vmm : VirtualMemoryManager) (imageSize : ℕ) : Prop where
  /-- The image starts where the linker script puts it. -/
  virtualStart : util.kernelVirtualStartAddress = 0xC0000000#32
  /-- It was loaded at a page boundary. -/
  physicalStart : Aligned util.kernelPhysicalStartAddress
  /-- It does not pass the end of the address space. -/
  image : 0xC0000000 + imageSize ≤ 2 ^ 32
  /-- The directory lies in it. -/
  pageDirectory : WithinImage imageSize vmm.pageDirectory 4096
  /-- The table for the first 4 MB lies in it. -/
  pageTable0 : WithinImage imageSize vmm.pageTable0 4096
  /-- The 256 other tables lie in it. -/
  pageTables768 : WithinImage imageSize vmm.pageTables768 (256 * 4096)
  /-- The directory is apart from the table for the first 4 MB. -/
  directory_table0 : Disjoint (Span vmm.pageDirectory 4096) (Span vmm.pageTable0 4096)
  /-- The directory is apart from the 256 other tables. -/
  directory_tables768 : Disjoint (Span vmm.pageDirectory 4096) (Span vmm.pageTables768 (256 * 4096))
  /-- The table for the first 4 MB is apart from the 256 others. -/
  table0_tables768 : Disjoint (Span vmm.pageTable0 4096) (Span vmm.pageTables768 (256 * 4096))

namespace VirtualMemoryManager

/-- The table for `v`, as the kernel points at it. -/
def tableAt (vmm : VirtualMemoryManager) (v : VirtualAddress) : VirtualAddress :=
  if v.toNat / 0x400000 = 0 then vmm.pageTable0
  else vmm.pageTables768 + 4096#32 * ((v - vmm.virtualStartAddress) / 0x400000#32)

/-- The table for `v` in physical memory. -/
def tableAddress (util : MemoryUtil) (vmm : VirtualMemoryManager) (v : VirtualAddress) : PhysicalAddress :=
  util.kernelVirtualToPhysicalAddress (vmm.tableAt v)

/-- The word for `v` in the directory. -/
def directoryWord (util : MemoryUtil) (vmm : VirtualMemoryManager) (mem : Foundations.Memory)
    (v : VirtualAddress) : Entry :=
  mem.load32 (entryAddress (vmm.directoryAddress util) (directoryIndex v))

/-- The word for `v` in its table; zero when it has none. -/
def entryAt (util : MemoryUtil) (vmm : VirtualMemoryManager) (mem : Foundations.Memory)
    (v : VirtualAddress) : Entry :=
  if Covered v then mem.load32 (entryAddress (vmm.tableAddress util v) (tableIndex v)) else 0#32

/-- What follows from where the tables lie. -/
structure Layout (util : MemoryUtil) (vmm : VirtualMemoryManager) : Prop where
  /-- The directory is page-aligned. -/
  directory_aligned : Aligned (vmm.directoryAddress util)
  /-- The tables are page-aligned. -/
  table_aligned : ∀ v, Covered v → Aligned (vmm.tableAddress util v)
  /-- No table is the directory. -/
  table_ne_directory : ∀ v, Covered v → vmm.tableAddress util v ≠ vmm.directoryAddress util
  /-- No table is shared by two words of the directory. -/
  table_inj : ∀ v w, Covered v → Covered w → vmm.tableAddress util v = vmm.tableAddress util w →
    directoryIndex v = directoryIndex w
  /-- The addresses under one word of the directory share a table. -/
  table_congr : ∀ v w, Covered v → directoryIndex v = directoryIndex w →
    vmm.tableAddress util v = vmm.tableAddress util w
  /-- No pointer to a table is null. -/
  tableAt_ne_zero : ∀ v, Covered v → vmm.tableAt v ≠ 0#32

end VirtualMemoryManager

open VirtualMemoryManager

/-! ### Where the tables lie -/

namespace MemoryUtil

theorem kernelPhysicalToVirtualAddress_kernelVirtualToPhysicalAddress (util : MemoryUtil) (x : VirtualAddress) :
    util.kernelPhysicalToVirtualAddress (util.kernelVirtualToPhysicalAddress x) = x := by
  rw [kernelPhysicalToVirtualAddress, kernelVirtualToPhysicalAddress]
  bv_omega

theorem kernelVirtualToPhysicalAddress_inj {util : MemoryUtil} {x y : VirtualAddress} :
    util.kernelVirtualToPhysicalAddress x = util.kernelVirtualToPhysicalAddress y ↔ x = y := by
  refine ⟨fun h => ?_, fun h => h ▸ rfl⟩
  rw [← util.kernelPhysicalToVirtualAddress_kernelVirtualToPhysicalAddress x, h,
    kernelPhysicalToVirtualAddress_kernelVirtualToPhysicalAddress]

/-- The window keeps the words of a table together. -/
theorem kernelVirtualToPhysicalAddress_entryAddress (util : MemoryUtil) (x i : BitVec 32) :
    util.kernelVirtualToPhysicalAddress (entryAddress x i) =
      entryAddress (util.kernelVirtualToPhysicalAddress x) i := by
  simp only [kernelVirtualToPhysicalAddress, entryAddress, BitVec.sub_eq_add_neg]
  ac_rfl

/-- The window keeps pages aligned. -/
theorem aligned_kernelVirtualToPhysicalAddress {util : MemoryUtil} {x : VirtualAddress}
    (hv : Aligned util.kernelVirtualStartAddress) (hp : Aligned util.kernelPhysicalStartAddress) (hx : Aligned x) :
    Aligned (util.kernelVirtualToPhysicalAddress x) := by
  rw [Aligned] at hv hp hx ⊢
  rw [kernelVirtualToPhysicalAddress, BitVec.toNat_add, BitVec.toNat_sub]
  omega

end MemoryUtil

theorem covered_iff (v : VirtualAddress) : Covered v ↔ directoryIndex v = 0#32 ∨ 768 ≤ (directoryIndex v).toNat := by
  rw [Covered, ← BitVec.toNat_inj, directoryIndex_toNat]
  rfl

/-- How far into the 256 tables the table for an address at or above `0xC0000000` lies. -/
theorem tableOffset_toNat {v : VirtualAddress} (hv : 768 ≤ v.toNat / 0x400000) :
    (4096#32 * ((v - 0xC0000000#32) / 0x400000#32)).toNat = 4096 * (v.toNat / 0x400000 - 768) := by
  rw [BitVec.toNat_mul, BitVec.toNat_udiv, BitVec.toNat_sub, show (4096#32).toNat = 4096 from rfl,
    show (0xC0000000#32).toNat = 0xC0000000 from rfl, show (0x400000#32).toNat = 0x400000 from rfl]
  omega

/-- The table of an address at or above `0xC0000000`. -/
theorem tableAt_toNat {util : MemoryUtil} {vmm : VirtualMemoryManager} {imageSize : ℕ} (h : InImage util vmm imageSize)
    (hstart : vmm.virtualStartAddress = 0xC0000000#32) {v : VirtualAddress} (hv : 768 ≤ v.toNat / 0x400000) :
    (vmm.tableAt v).toNat = vmm.pageTables768.toNat + 4096 * (v.toNat / 0x400000 - 768) := by
  obtain ⟨-, hlow, hend⟩ := h.pageTables768
  have himage := h.image
  rw [tableAt, if_neg (by omega), hstart, BitVec.toNat_add, tableOffset_toNat hv]
  omega

theorem layout_of_inImage {util : MemoryUtil} {vmm : VirtualMemoryManager} {imageSize : ℕ}
    (h : InImage util vmm imageSize) (hstart : vmm.virtualStartAddress = 0xC0000000#32) : Layout util vmm := by
  have hvs : Aligned util.kernelVirtualStartAddress := by rw [h.virtualStart]; decide
  obtain ⟨hdal, hdlow, hdend⟩ := h.pageDirectory
  obtain ⟨htal, htlow, htend⟩ := h.pageTable0
  obtain ⟨hsal, hslow, hsend⟩ := h.pageTables768
  have himage := h.image
  -- a table is that for the first 4 MB, or one of the 256
  have hcases : ∀ v, Covered v → (v.toNat / 0x400000 = 0 ∧ vmm.tableAt v = vmm.pageTable0) ∨
      (768 ≤ v.toNat / 0x400000 ∧ (vmm.tableAt v).toNat = vmm.pageTables768.toNat + 4096 * (v.toNat / 0x400000 - 768)) := by
    rintro v (hv | hv)
    · exact .inl ⟨hv, if_pos hv⟩
    · exact .inr ⟨hv, tableAt_toNat h hstart hv⟩
  have hal : ∀ v, Covered v → Aligned (vmm.tableAt v) := by
    intro v hv
    rcases hcases v hv with ⟨-, he⟩ | ⟨-, he⟩
    · rw [he]; exact htal
    · rw [Aligned] at hsal ⊢; omega
  -- the tables at or above 0xC0000000 are apart from what the whole array is apart from
  have hin : ∀ v, 768 ≤ v.toNat / 0x400000 →
      (vmm.tableAt v).toNat = vmm.pageTables768.toNat + 4096 * (v.toNat / 0x400000 - 768) →
      vmm.tableAt v ∈ Span vmm.pageTables768 (256 * 4096) := by
    intro v hv he
    rw [mem_span_iff (by omega)]
    omega
  refine ⟨MemoryUtil.aligned_kernelVirtualToPhysicalAddress hvs h.physicalStart hdal,
    fun v hv => MemoryUtil.aligned_kernelVirtualToPhysicalAddress hvs h.physicalStart (hal v hv), ?_, ?_, ?_, ?_⟩
  · intro v hv he
    rw [tableAddress, directoryAddress, MemoryUtil.kernelVirtualToPhysicalAddress_inj] at he
    rcases hcases v hv with ⟨-, hv'⟩ | ⟨h768, hv'⟩
    · refine Set.disjoint_left.mp h.directory_table0 (self_mem_span (by decide)) ?_
      rw [← he, hv']
      exact self_mem_span (by decide)
    · refine Set.disjoint_left.mp h.directory_tables768 (self_mem_span (by decide)) ?_
      rw [← he]
      exact hin v h768 hv'
  · intro v w hv hw he
    rw [tableAddress, tableAddress, MemoryUtil.kernelVirtualToPhysicalAddress_inj] at he
    rw [← BitVec.toNat_inj, directoryIndex_toNat, directoryIndex_toNat]
    rcases hcases v hv with ⟨h0, hv'⟩ | ⟨h768, hv'⟩ <;> rcases hcases w hw with ⟨h0', hw'⟩ | ⟨h768', hw'⟩
    · omega
    · refine absurd (hin w h768' hw') (Set.disjoint_left.mp h.table0_tables768 ?_)
      rw [← he, hv']
      exact self_mem_span (by decide)
    · refine absurd (hin v h768 hv') (Set.disjoint_left.mp h.table0_tables768 ?_)
      rw [he, hw']
      exact self_mem_span (by decide)
    · rw [he] at hv'
      omega
  · intro v w hv he
    have hw : Covered w := by rwa [covered_iff, ← he, ← covered_iff]
    rw [← BitVec.toNat_inj, directoryIndex_toNat, directoryIndex_toNat] at he
    rw [tableAddress, tableAddress, MemoryUtil.kernelVirtualToPhysicalAddress_inj]
    rcases hcases v hv with ⟨h0, hv'⟩ | ⟨h768, hv'⟩ <;> rcases hcases w hw with ⟨h0', hw'⟩ | ⟨h768', hw'⟩
    · rw [hv', hw']
    · omega
    · omega
    · rw [← BitVec.toNat_inj, hv', hw', he]
  · intro v hv he
    rcases hcases v hv with ⟨-, hv'⟩ | ⟨-, hv'⟩ <;> rw [he] at hv'
    · rw [← hv'] at htlow
      exact absurd htlow (by decide)
    · have : (0#32).toNat = 0 := rfl
      omega

/-- A kernel whose tables lie at the second page of its image and after. -/
def vmm512 : VirtualMemoryManager where
  virtualStartAddress := 0xC0000000#32
  pageDirectory := 0xC0001000#32
  pageTable0 := 0xC0002000#32
  pageTables768 := 0xC0003000#32

theorem inImage_vmm512 : InImage (MemoryUtil.init bootInfo512) vmm512 bootInfo512.kernelSize.toNat where
  virtualStart := rfl
  physicalStart := by decide
  image := by decide
  pageDirectory := ⟨by decide, by decide, by decide⟩
  pageTable0 := ⟨by decide, by decide, by decide⟩
  pageTables768 := ⟨by decide, by decide, by decide⟩
  directory_table0 := disjoint_span_of_le (by decide) (by decide)
  directory_tables768 := disjoint_span_of_le (by decide) (by decide)
  table0_tables768 := disjoint_span_of_le (by decide) (by decide)

/-! ### The invariant -/

namespace VirtualMemoryManager

variable {util : MemoryUtil} {vmm : VirtualMemoryManager} {mem : Foundations.Memory} {v w : VirtualAddress}

/-- What holds of the tables before and after every call. -/
structure Tables (util : MemoryUtil) (vmm : VirtualMemoryManager) (mem : Foundations.Memory) : Prop where
  /-- Where there is no table the directory is empty. -/
  uncovered : ∀ v, ¬ Covered v → vmm.directoryWord util mem v = 0#32
  /-- Elsewhere it is empty or points at the one table for the address. -/
  linked : ∀ v, Covered v →
    vmm.directoryWord util mem v = 0#32 ∨ vmm.directoryWord util mem v = entryFor (vmm.tableAddress util v)
  /-- A table that the directory does not point at yet is empty. -/
  unlinked : ∀ v, vmm.directoryWord util mem v = 0#32 → vmm.entryAt util mem v = 0#32
  /-- A table's word is zero or the entry for a frame: no entry keeps bits when it is not present. -/
  entries : ∀ v, vmm.entryAt util mem v = 0#32 ∨ ∃ p, Aligned p ∧ vmm.entryAt util mem v = entryFor p

/-- Two addresses in one page. -/
def SamePage (v w : VirtualAddress) : Prop := v.toNat / 4096 = w.toNat / 4096

instance (v w : VirtualAddress) : Decidable (SamePage v w) := inferInstanceAs (Decidable (_ = _))

theorem samePage_iff : SamePage v w ↔ directoryIndex v = directoryIndex w ∧ tableIndex v = tableIndex w := by
  rw [SamePage, ← BitVec.toNat_inj, ← BitVec.toNat_inj, directoryIndex_toNat, directoryIndex_toNat, tableIndex_toNat,
    tableIndex_toNat]
  omega

theorem samePage_iff_eq (hv : Aligned v) (hw : Aligned w) : SamePage v w ↔ v = w := by
  rw [Aligned] at hv hw
  rw [SamePage, ← BitVec.toNat_inj]
  omega

/-- The pages of one word of the directory are covered or not together. -/
theorem covered_congr (h : directoryIndex v = directoryIndex w) : Covered v ↔ Covered w := by
  rw [covered_iff, covered_iff, h]

/-- The addresses of a page share its word. -/
theorem entryAt_congr (hL : Layout util vmm) (h : SamePage v w) :
    vmm.entryAt util mem v = vmm.entryAt util mem w := by
  obtain ⟨hd, ht⟩ := samePage_iff.mp h
  rw [entryAt, entryAt]
  by_cases hv : Covered v
  · rw [if_pos hv, if_pos ((covered_congr hd).mp hv), hL.table_congr v w hv hd, ht]
  · rw [if_neg hv, if_neg (mt (covered_congr hd).mpr hv)]

/-! ### What a store does to the words -/

theorem directoryWord_store_directory (hL : Layout util vmm) (v w : VirtualAddress) (x : Entry) :
    vmm.directoryWord util (mem.store32 (entryAddress (vmm.directoryAddress util) (directoryIndex v)) x) w =
      if directoryIndex v = directoryIndex w then x else vmm.directoryWord util mem w := by
  split
  · rename_i he; rw [directoryWord, ← he, Memory.load32_store32]
  · rename_i he
    exact Memory.load32_store32_of_disjoint (disjoint_entries hL.directory_aligned hL.directory_aligned
      (directoryIndex_lt w) (directoryIndex_lt v) (.inr (Ne.symm he)))

theorem entryAt_store_directory (hL : Layout util vmm) (v w : VirtualAddress) (x : Entry) :
    vmm.entryAt util (mem.store32 (entryAddress (vmm.directoryAddress util) (directoryIndex v)) x) w =
      vmm.entryAt util mem w := by
  rw [entryAt, entryAt]
  split
  · rename_i hw
    exact Memory.load32_store32_of_disjoint (disjoint_entries (hL.table_aligned w hw) hL.directory_aligned
      (tableIndex_lt w) (directoryIndex_lt v) (.inl (hL.table_ne_directory w hw)))
  · rfl

theorem directoryWord_store_entry (hL : Layout util vmm) (hv : Covered v) (w : VirtualAddress) (x : Entry) :
    vmm.directoryWord util (mem.store32 (entryAddress (vmm.tableAddress util v) (tableIndex v)) x) w =
      vmm.directoryWord util mem w :=
  Memory.load32_store32_of_disjoint (disjoint_entries hL.directory_aligned (hL.table_aligned v hv)
    (directoryIndex_lt w) (tableIndex_lt v) (.inl (hL.table_ne_directory v hv).symm))

theorem entryAt_store_entry (hL : Layout util vmm) (hv : Covered v) (w : VirtualAddress) (x : Entry) :
    vmm.entryAt util (mem.store32 (entryAddress (vmm.tableAddress util v) (tableIndex v)) x) w =
      if SamePage v w then x else vmm.entryAt util mem w := by
  by_cases hs : SamePage v w
  · rw [if_pos hs, ← entryAt_congr hL hs, entryAt, if_pos hv, Memory.load32_store32]
  · rw [if_neg hs, entryAt, entryAt]
    split
    · rename_i hw
      refine Memory.load32_store32_of_disjoint (disjoint_entries (hL.table_aligned w hw) (hL.table_aligned v hv)
        (tableIndex_lt w) (tableIndex_lt v) ?_)
      by_contra hcon
      rw [not_or, not_not, not_not] at hcon
      exact hs (samePage_iff.mpr ⟨(hL.table_inj w v hw hv hcon.1).symm, hcon.2.symm⟩)
    · rfl

/-! ### The walk -/

theorem walk_of_not_present (h : Entry.present (vmm.directoryWord util mem v) = false) :
    walk mem (vmm.directoryAddress util) v = none := by
  rw [directoryWord] at h
  simp [walk, h]

/-- Where the directory points at the table, the walk finds what the table's word says. -/
theorem walk_of_linked (hL : Layout util vmm) (hv : Covered v)
    (h : vmm.directoryWord util mem v = entryFor (vmm.tableAddress util v)) :
    walk mem (vmm.directoryAddress util) v = decode true (vmm.entryAt util mem v) := by
  rw [directoryWord] at h
  simp only [walk, h, present_entryFor, if_true, writable_entryFor, frame_entryFor (hL.table_aligned v hv), entryAt,
    if_pos hv]

/-- **The walk**: it finds what the table's word for the address says. -/
theorem walk_eq (hL : Layout util vmm) (hT : Tables util vmm mem) (v : VirtualAddress) :
    walk mem (vmm.directoryAddress util) v = decode true (vmm.entryAt util mem v) := by
  have hnone : vmm.directoryWord util mem v = 0#32 → walk mem (vmm.directoryAddress util) v = none :=
    fun h => walk_of_not_present (by rw [h]; rfl)
  by_cases hv : Covered v
  · rcases hT.linked v hv with h | h
    · rw [hnone h, hT.unlinked v h, decode_zero]
    · exact walk_of_linked hL hv h
  · rw [hnone (hT.uncovered v hv), entryAt, if_neg hv, decode_zero]

/-- The walk finds nothing where the word is zero. -/
theorem walk_eq_none_iff (hL : Layout util vmm) (hT : Tables util vmm mem) :
    walk mem (vmm.directoryAddress util) v = none ↔ vmm.entryAt util mem v = 0#32 := by
  rw [walk_eq hL hT]
  rcases hT.entries v with he | ⟨p, hp, he⟩ <;> rw [he]
  · simp [decode_zero]
  · simp [decode_entryFor hp, entryFor_ne_zero]

end VirtualMemoryManager

end EagleOS.Memory
