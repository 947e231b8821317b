import EagleOS.Memory.RangeCalls

/-!
# What is in the tables

`SetAddress` keeps bit 31 of the entry, and `Map` makes a directory entry only for a table that has none. Both are
safe because an entry that is not present is zero, and because a table that the directory does not point at is empty.

## The model

The slots of the directory and of the tables are counted from 0 to 1023. `slotTable i` is the table that is meant for
slot `i` of the directory, `HasTable i` says that there is one. The processor's own flags, which it sets when it uses
an entry, are not part of a run.

## What is proved

* `tableSlots_of_tables` — the invariant of the calls, slot by slot.
* `tableSlots_after_calls` — it holds after any calls.
-/

namespace EagleOS.Memory

open ESTD Boot Foundations Arch VirtualMemoryManager

/-- The slots of the directory for which there is a table. -/
def HasTable (i : ℕ) : Prop := i = 0 ∨ 768 ≤ i ∧ i < 1024

instance (i : ℕ) : Decidable (HasTable i) := inferInstanceAs (Decidable (_ ∨ _))

/-- The table for slot `i` of the directory: `m_PageTable0`, or `m_PageTables768[i - 768]`. -/
def slotTable (vmm : VirtualMemoryManager) (i : ℕ) : VirtualAddress :=
  if i = 0 then vmm.pageTable0 else vmm.pageTables768 + BitVec.ofNat 32 (4096 * (i - 768))

/-- Slot `i` of `m_PageDirectory`. -/
def directorySlot (util : MemoryUtil) (vmm : VirtualMemoryManager) (mem : Foundations.Memory) (i : ℕ) : Entry :=
  mem.load32 (util.kernelVirtualToPhysicalAddress (entryAddress vmm.pageDirectory (BitVec.ofNat 32 i)))

/-- Slot `j` of the table for slot `i` of the directory. -/
def tableSlot (util : MemoryUtil) (vmm : VirtualMemoryManager) (mem : Foundations.Memory) (i j : ℕ) : Entry :=
  mem.load32 (util.kernelVirtualToPhysicalAddress (entryAddress (slotTable vmm i) (BitVec.ofNat 32 j)))

/-- What holds of the slots. -/
structure TableSlots (util : MemoryUtil) (vmm : VirtualMemoryManager) (mem : Foundations.Memory) : Prop where
  /-- A slot of the directory that is not present is zero. -/
  directory_zero : ∀ i < 1024, PageDirectoryEntry.isPresent (directorySlot util vmm mem i) = false →
    directorySlot util vmm mem i = 0#32
  /-- A slot of a table that is not present is zero. -/
  table_zero : ∀ i j, HasTable i → j < 1024 → PageTableEntry.isPresent (tableSlot util vmm mem i j) = false →
    tableSlot util vmm mem i j = 0#32
  /-- A table whose slot in the directory is not present is empty. -/
  table_empty : ∀ i j, HasTable i → j < 1024 → PageDirectoryEntry.isPresent (directorySlot util vmm mem i) = false →
    tableSlot util vmm mem i j = 0#32
  /-- Only the slots that there is a table for are present. -/
  has_table : ∀ i < 1024, PageDirectoryEntry.isPresent (directorySlot util vmm mem i) = true → HasTable i
  /-- They refer to that table. -/
  refers : ∀ i < 1024, PageDirectoryEntry.isPresent (directorySlot util vmm mem i) = true →
    PageDirectoryEntry.getAddress (directorySlot util vmm mem i) =
      util.kernelVirtualToPhysicalAddress (slotTable vmm i)
  /-- No two of them refer to one table. -/
  distinct : ∀ i < 1024, ∀ k < 1024, i ≠ k → PageDirectoryEntry.isPresent (directorySlot util vmm mem i) = true →
    PageDirectoryEntry.isPresent (directorySlot util vmm mem k) = true →
    PageDirectoryEntry.getAddress (directorySlot util vmm mem i) ≠
      PageDirectoryEntry.getAddress (directorySlot util vmm mem k)
  /-- The flags of the slots of the directory. -/
  directory_flags : ∀ i < 1024, PageDirectoryEntry.isPresent (directorySlot util vmm mem i) = true →
    directorySlot util vmm mem i &&& 0xFFF#32 = 0x3#32
  /-- The flags of the slots of the tables. -/
  table_flags : ∀ i j, HasTable i → j < 1024 → PageTableEntry.isPresent (tableSlot util vmm mem i j) = true →
    tableSlot util vmm mem i j &&& 0xFFF#32 = 0x3#32

/-! ### The addresses of a slot -/

/-- The first address of the page for slot `j` of the table for slot `i`. -/
def slotAddress (i j : ℕ) : VirtualAddress := BitVec.ofNat 32 (0x400000 * i + 0x1000 * j)

variable {util : MemoryUtil} {vmm : VirtualMemoryManager} {mem : Foundations.Memory} {i j : ℕ}

theorem slotAddress_toNat (hi : i < 1024) (hj : j < 1024) : (slotAddress i j).toNat = 0x400000 * i + 0x1000 * j := by
  rw [slotAddress, BitVec.toNat_ofNat]
  omega

theorem directoryIndex_slotAddress (hi : i < 1024) (hj : j < 1024) :
    directoryIndex (slotAddress i j) = BitVec.ofNat 32 i := by
  rw [← BitVec.toNat_inj, directoryIndex_toNat, slotAddress_toNat hi hj, BitVec.toNat_ofNat]
  omega

theorem tableIndex_slotAddress (hi : i < 1024) (hj : j < 1024) :
    tableIndex (slotAddress i j) = BitVec.ofNat 32 j := by
  rw [← BitVec.toNat_inj, tableIndex_toNat, slotAddress_toNat hi hj, BitVec.toNat_ofNat]
  omega

theorem covered_slotAddress (hi : i < 1024) (hj : j < 1024) : Covered (slotAddress i j) ↔ HasTable i := by
  rw [Covered, slotAddress_toNat hi hj, HasTable]
  omega

theorem HasTable.lt (h : HasTable i) : i < 1024 := by
  rcases h with rfl | ⟨-, hi⟩
  · decide
  · exact hi

/-- The table for an address is that of its slot. -/
theorem tableAt_slotAddress (hstart : vmm.virtualStartAddress = 0xC0000000#32) (hi : HasTable i) (hj : j < 1024) :
    vmm.tableAt (slotAddress i j) = slotTable vmm i := by
  have hv := slotAddress_toNat hi.lt hj
  rw [tableAt, slotTable]
  rcases hi with rfl | ⟨h768, hi⟩
  · rw [if_pos (by omega), if_pos rfl]
  · rw [if_neg (by omega), if_neg (by omega), hstart, BitVec.add_right_inj, ← BitVec.toNat_inj,
      tableOffset_toNat (by omega), BitVec.toNat_ofNat]
    omega

/-- In physical memory as well. -/
theorem tableAddress_slotAddress (hstart : vmm.virtualStartAddress = 0xC0000000#32) (hi : HasTable i) (hj : j < 1024) :
    vmm.tableAddress util (slotAddress i j) = util.kernelVirtualToPhysicalAddress (slotTable vmm i) := by
  rw [tableAddress, tableAt_slotAddress hstart hi hj]

/-- The first slot of a table is enough to find it. -/
theorem HasTable.covered (h : HasTable i) : Covered (slotAddress i 0) :=
  (covered_slotAddress h.lt (Nat.zero_lt_succ 1023)).mpr h

theorem directorySlot_eq (hi : i < 1024) (hj : j < 1024) :
    directorySlot util vmm mem i = vmm.directoryWord util mem (slotAddress i j) := by
  rw [directorySlot, MemoryUtil.kernelVirtualToPhysicalAddress_entryAddress, directoryWord,
    directoryIndex_slotAddress hi hj]
  rfl

theorem tableSlot_eq (hstart : vmm.virtualStartAddress = 0xC0000000#32) (hi : HasTable i) (hj : j < 1024) :
    tableSlot util vmm mem i j = vmm.entryAt util mem (slotAddress i j) := by
  rw [tableSlot, MemoryUtil.kernelVirtualToPhysicalAddress_entryAddress, entryAt,
    if_pos ((covered_slotAddress hi.lt hj).mpr hi), tableIndex_slotAddress hi.lt hj, tableAddress_slotAddress hstart hi hj]

/-! ### The invariant, slot by slot -/

/-- A slot of the directory is zero, or the entry for the table that is meant for it. -/
theorem directorySlot_cases (hT : Tables util vmm mem) (hstart : vmm.virtualStartAddress = 0xC0000000#32)
    (hi : i < 1024) :
    directorySlot util vmm mem i = 0#32 ∨ HasTable i ∧
      directorySlot util vmm mem i = entryFor (util.kernelVirtualToPhysicalAddress (slotTable vmm i)) := by
  have hfirst : 0 < 1024 := Nat.zero_lt_succ 1023
  rw [directorySlot_eq hi hfirst]
  by_cases hv : Covered (slotAddress i 0)
  · have hhas : HasTable i := (covered_slotAddress hi hfirst).mp hv
    rw [← tableAddress_slotAddress hstart hhas hfirst]
    exact (hT.linked _ hv).imp_right fun h => ⟨hhas, h⟩
  · exact .inl (hT.uncovered _ hv)

/-- A slot of a table is zero, or the entry for some frame. -/
theorem tableSlot_cases (hT : Tables util vmm mem) (hstart : vmm.virtualStartAddress = 0xC0000000#32)
    (hi : HasTable i) (hj : j < 1024) :
    tableSlot util vmm mem i j = 0#32 ∨ ∃ p, Aligned p ∧ tableSlot util vmm mem i j = entryFor p := by
  rw [tableSlot_eq hstart hi hj]
  exact hT.entries _

/-- The table that is meant for a slot starts at a page. -/
theorem aligned_slotTable (hL : Layout util vmm) (hstart : vmm.virtualStartAddress = 0xC0000000#32) (hi : HasTable i) :
    Aligned (util.kernelVirtualToPhysicalAddress (slotTable vmm i)) := by
  rw [← tableAddress_slotAddress hstart hi (Nat.zero_lt_succ 1023)]
  exact hL.table_aligned _ hi.covered

/-- Two slots have tables of their own. -/
theorem slotTable_inj (hL : Layout util vmm) (hstart : vmm.virtualStartAddress = 0xC0000000#32) {k : ℕ}
    (hi : HasTable i) (hk : HasTable k)
    (h : util.kernelVirtualToPhysicalAddress (slotTable vmm i) =
      util.kernelVirtualToPhysicalAddress (slotTable vmm k)) : i = k := by
  have hfirst : 0 < 1024 := Nat.zero_lt_succ 1023
  rw [← tableAddress_slotAddress hstart hi hfirst, ← tableAddress_slotAddress hstart hk hfirst] at h
  have hindex := congrArg BitVec.toNat (hL.table_inj _ _ hi.covered hk.covered h)
  rw [directoryIndex_slotAddress hi.lt hfirst, directoryIndex_slotAddress hk.lt hfirst, BitVec.toNat_ofNat,
    BitVec.toNat_ofNat] at hindex
  have hilt := hi.lt
  have hklt := hk.lt
  omega

/-- A slot of the directory that is present is the entry for its table. -/
theorem directorySlot_present (hT : Tables util vmm mem) (hstart : vmm.virtualStartAddress = 0xC0000000#32)
    (hi : i < 1024) (hpresent : PageDirectoryEntry.isPresent (directorySlot util vmm mem i) = true) :
    HasTable i ∧ directorySlot util vmm mem i = entryFor (util.kernelVirtualToPhysicalAddress (slotTable vmm i)) := by
  have hzero : ¬ PageDirectoryEntry.isPresent 0#32 = true := Bool.false_ne_true
  refine (directorySlot_cases hT hstart hi).resolve_left fun h0 => hzero ?_
  rwa [h0] at hpresent

/-- One that is not is zero. -/
theorem directorySlot_not_present (hT : Tables util vmm mem) (hstart : vmm.virtualStartAddress = 0xC0000000#32)
    (hi : i < 1024) (hpresent : PageDirectoryEntry.isPresent (directorySlot util vmm mem i) = false) :
    directorySlot util vmm mem i = 0#32 := by
  refine (directorySlot_cases hT hstart hi).resolve_right fun ⟨_, he⟩ => ?_
  have hfor : PageDirectoryEntry.isPresent (directorySlot util vmm mem i) = true := by
    rw [he]
    exact present_entryFor _
  exact Bool.false_ne_true (hpresent.symm.trans hfor)

/-- It refers to its table. -/
theorem getAddress_directorySlot (hL : Layout util vmm) (hT : Tables util vmm mem)
    (hstart : vmm.virtualStartAddress = 0xC0000000#32) (hi : i < 1024)
    (hpresent : PageDirectoryEntry.isPresent (directorySlot util vmm mem i) = true) :
    PageDirectoryEntry.getAddress (directorySlot util vmm mem i) =
      util.kernelVirtualToPhysicalAddress (slotTable vmm i) := by
  obtain ⟨hhas, he⟩ := directorySlot_present hT hstart hi hpresent
  rw [he]
  exact frame_entryFor (aligned_slotTable hL hstart hhas)

/-- The invariant of the calls, slot by slot. -/
theorem tableSlots_of_tables (hL : Layout util vmm) (hT : Tables util vmm mem)
    (hstart : vmm.virtualStartAddress = 0xC0000000#32) : TableSlots util vmm mem where
  directory_zero i hi hpresent := directorySlot_not_present hT hstart hi hpresent
  table_zero i j hi hj hpresent := by
    refine (tableSlot_cases hT hstart hi hj).resolve_right fun ⟨p, _, he⟩ => ?_
    have hfor : PageTableEntry.isPresent (tableSlot util vmm mem i j) = true := by
      rw [he]
      exact present_entryFor p
    exact Bool.false_ne_true (hpresent.symm.trans hfor)
  table_empty i j hi hj hpresent := by
    have h0 := directorySlot_not_present hT hstart hi.lt hpresent
    rw [directorySlot_eq hi.lt hj] at h0
    rw [tableSlot_eq hstart hi hj]
    exact hT.unlinked _ h0
  has_table i hi hpresent := (directorySlot_present hT hstart hi hpresent).1
  refers i hi hpresent := getAddress_directorySlot hL hT hstart hi hpresent
  distinct i hi k hk hne hpi hpk he := by
    rw [getAddress_directorySlot hL hT hstart hi hpi, getAddress_directorySlot hL hT hstart hk hpk] at he
    exact hne (slotTable_inj hL hstart (directorySlot_present hT hstart hi hpi).1
      (directorySlot_present hT hstart hk hpk).1 he)
  directory_flags i hi hpresent := by
    obtain ⟨hhas, he⟩ := directorySlot_present hT hstart hi hpresent
    rw [he]
    exact flags_entryFor (aligned_slotTable hL hstart hhas)
  table_flags i j hi hj hpresent := by
    rcases tableSlot_cases hT hstart hi hj with h0 | ⟨p, hp, he⟩
    · rw [h0] at hpresent
      exact absurd hpresent Bool.false_ne_true
    · rw [he]
      exact flags_entryFor hp

/-- **What is in the tables**: after `Init` and any calls with any arguments, entries that are not present are zero and
those that are have the two flags of `Map`; the slots of the directory that are present are slot 0 and some of the last
256, each of which refers to its own table; the table of a slot that is not present is empty. -/
theorem tableSlots_after_calls (bootInfo : BootInfo) (vmm : VirtualMemoryManager) (m : Machine)
    (h : InImage (MemoryUtil.init bootInfo) vmm bootInfo.kernelSize.toNat) (calls : List PermissionCall) :
    let util := MemoryUtil.init bootInfo
    let start := (vmm.init util bootInfo m).2
    TableSlots util start.1 (answers (PermissionCall.step util start.1) start.2 calls).2.mem := by
  intro util start
  obtain ⟨hL, hgranted⟩ := granted_after_calls h m calls
  exact tableSlots_of_tables hL hgranted.tables h.virtualStart

/-- A page that was asked for has its frame in its slot, and the directory refers to its table. -/
theorem Granted.slots {m : Machine} {pages : PermissionMap} {t : Translation} (hL : Layout util vmm)
    (h : Granted util vmm m pages) (hstart : vmm.virtualStartAddress = 0xC0000000#32) (hi : HasTable i) (hj : j < 1024)
    (hpage : pages (slotAddress i j) = some t) :
    tableSlot util vmm m.mem i j = entryFor t.frame ∧
      PageDirectoryEntry.isPresent (directorySlot util vmm m.mem i) = true := by
  have haligned : Aligned (slotAddress i j) := by
    rw [Aligned, slotAddress_toNat hi.lt hj]
    omega
  have hframe := h.frames _ haligned
  rw [PermissionMap.frames, hpage, ← tableSlot_eq hstart hi hj] at hframe
  have hslot : tableSlot util vmm m.mem i j = entryFor t.frame := by
    rcases tableSlot_cases h.tables hstart hi hj with he | ⟨p, hp, he⟩ <;> rw [he] at hframe
    · exact absurd hframe (Option.some_ne_none _).symm
    · rw [frameOf_entryFor hp] at hframe
      rw [he, Option.some.inj hframe]
  refine ⟨hslot, Bool.of_not_eq_false fun hpresent => ?_⟩
  have hempty := (tableSlots_of_tables hL h.tables hstart).table_empty i j hi hj hpresent
  exact entryFor_ne_zero _ (hslot.symm.trans hempty)

/-- After one page has been mapped and another could not be unmapped. -/
theorem tableSlots_after_calls_vmm512 :
    let util := MemoryUtil.init bootInfo512
    let start := (vmm512.init util bootInfo512 ⟨fun _ => 0#8, 0#32, []⟩).2
    let mem := (answers (PermissionCall.step util start.1) start.2
      [.map 0xD0001000#32 0x8000#32 true, .unmapRange 0xD0003000#32 2#32]).2.mem
    TableSlots util start.1 mem ∧ tableSlot util start.1 mem 832 1 = 0x8003#32 ∧
      PageDirectoryEntry.isPresent (directorySlot util start.1 mem 832) = true ∧
      directorySlot util start.1 mem 832 &&& 0xFFF#32 = 0x3#32 := by
  have hall := tableSlots_after_calls bootInfo512 vmm512 ⟨fun _ => 0#8, 0#32, []⟩ inImage_vmm512
    [.map 0xD0001000#32 0x8000#32 true, .unmapRange 0xD0003000#32 2#32]
  obtain ⟨hL, hgranted⟩ := granted_after_calls inImage_vmm512 ⟨fun _ => 0#8, 0#32, []⟩
    [.map 0xD0001000#32 0x8000#32 true, .unmapRange 0xD0003000#32 2#32]
  have haddress : slotAddress 832 1 = 0xD0001000#32 := rfl
  have hslots := hgranted.slots (i := 832) (j := 1) (t := ⟨0x8000#32, true⟩) hL inImage_vmm512.virtualStart
  rw [haddress] at hslots
  obtain ⟨hslot, hpresent⟩ := hslots (by decide) (by decide) (by decide)
  exact ⟨hall, hslot, hpresent, hall.directory_flags 832 (by decide) hpresent⟩

end EagleOS.Memory
