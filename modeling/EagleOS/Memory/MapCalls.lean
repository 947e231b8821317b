import EagleOS.Memory.PageTables

/-!
# What `Map`, `Unmap` and `GetPhysicalAddress` do

One lemma for each call says all that it can do, in terms of the words of the tables (`MapResult`,
`UnmapResult`, `getPhysicalAddress_eq`), and what follows for the invariant. `Stores` lists the stores
that a call makes to one word, in their order.

## What is proved

* `map_result`, `unmap_result` — the calls succeed exactly when they should, and a call that fails
  makes no store.
* `MapResult.spec`, `UnmapResult.spec` — the invariant is kept, and a call that succeeds changes the
  word for its page and no other.
* `tables_init` — after `Init` the invariant holds and every word is zero.
-/

namespace EagleOS.Memory

open ESTD Boot Foundations Arch

namespace Machine

/-- The machine after the stores `entries`, one after the other, to the word at `address`. -/
def stores (m : Machine) (address : PhysicalAddress) (entries : List Entry) : Machine :=
  { m with
    mem := entries.foldl (fun mem e => mem.store32 address e) m.mem
    trace := m.trace ++ entries.map (PagingEvent.store address) }

/-- Of several stores to one word the last one counts. -/
theorem mem_stores_three (m : Machine) (address : PhysicalAddress) (a b c : Entry) :
    (m.stores address [a, b, c]).mem = m.mem.store32 address c := by
  simp only [stores, List.foldl_cons, List.foldl_nil, Memory.store32_store32]

/-- A member function called on an entry, one after the other. -/
theorem update_update_update {util : MemoryUtil} {m : Machine} {x : VirtualAddress} {e : Entry}
    (he : m.read util x = e) (f g h : Entry → Entry) :
    ((m.update util x f).update util x g).update util x h =
      m.stores (util.kernelVirtualToPhysicalAddress x) [f e, g (f e), h (g (f e))] := by
  subst he
  simp only [update, write, read, stores, Memory.load32_store32, List.foldl_cons, List.foldl_nil, List.map_cons,
    List.map_nil, List.append_assoc, List.cons_append, List.nil_append]

end Machine

namespace VirtualMemoryManager

variable {util : MemoryUtil} {vmm : VirtualMemoryManager} {m : Machine} {v w : VirtualAddress}
  {p : PhysicalAddress} {writable : Bool}

/-- The machine after the directory has been made to point at the table for `v`, if it did not: the
address, then the two flags. -/
def linkTable (util : MemoryUtil) (vmm : VirtualMemoryManager) (m : Machine) (v : VirtualAddress) : Machine :=
  if vmm.directoryWord util m.mem v = 0#32 then
    m.stores (entryAddress (vmm.directoryAddress util) (directoryIndex v))
      [vmm.tableAddress util v, vmm.tableAddress util v ||| 0x2#32, entryFor (vmm.tableAddress util v)]
  else m

/-- The machine after the entry for `p` has been made for `v`: a flag, then the address, then `Present`. -/
def storeEntry (util : MemoryUtil) (vmm : VirtualMemoryManager) (m : Machine) (v : VirtualAddress)
    (p : PhysicalAddress) : Machine :=
  m.stores (entryAddress (vmm.tableAddress util v) (tableIndex v)) [0x2#32, 0x2#32 ||| p, entryFor p]

/-- When `Map` succeeds. -/
def Mappable (util : MemoryUtil) (vmm : VirtualMemoryManager) (mem : Foundations.Memory) (v : VirtualAddress)
    (p : PhysicalAddress) : Prop :=
  Aligned p ∧ Aligned v ∧ Covered v ∧ vmm.entryAt util mem v = 0#32

/-- All that `Map` can do. -/
inductive MapResult (util : MemoryUtil) (vmm : VirtualMemoryManager) (m : Machine) (v : VirtualAddress)
    (p : PhysicalAddress) : Bool × Machine → Prop
  /-- It fails, and makes no store. -/
  | refused : ¬ vmm.Mappable util m.mem v p → MapResult util vmm m v p (false, m)
  /-- It makes the entry, and the table's entry in the directory if need be. -/
  | mapped : vmm.Mappable util m.mem v p → MapResult util vmm m v p (true, vmm.storeEntry util (vmm.linkTable util m v) v p)

/-- All that `Unmap` can do. -/
inductive UnmapResult (util : MemoryUtil) (vmm : VirtualMemoryManager) (m : Machine) (v : VirtualAddress) :
    Bool × Machine → Prop
  /-- It fails, and makes no store. -/
  | refused : ¬ (Aligned v ∧ vmm.entryAt util m.mem v ≠ 0#32) → UnmapResult util vmm m v (false, m)
  /-- It clears the entry. -/
  | unmapped : Aligned v → Covered v → vmm.entryAt util m.mem v ≠ 0#32 →
      UnmapResult util vmm m v (true, m.stores (entryAddress (vmm.tableAddress util v) (tableIndex v)) [0#32])

/-! ### The conditions of the source -/

theorem isAligned_pageSize {x : BitVec 32} : isAligned x pageSize = true ↔ Aligned x := isAligned_iff

/-- The test of the directory index. -/
theorem index_refused_iff (v : VirtualAddress) :
    (v / (1024#32 * 4096#32) ≠ 0#32 ∧ (v / (1024#32 * 4096#32) < 768#32 ∨ v / (1024#32 * 4096#32) > 1023#32)) ↔
      ¬ Covered v := by
  have := directoryIndex_lt v
  change (directoryIndex v ≠ 0#32 ∧ (directoryIndex v < 768#32 ∨ directoryIndex v > 1023#32)) ↔ _
  rw [covered_iff, BitVec.lt_def, gt_iff_lt, BitVec.lt_def, ne_eq, ← BitVec.toNat_inj,
    show (0#32).toNat = 0 from rfl, show (768#32).toNat = 768 from rfl, show (1023#32).toNat = 1023 from rfl]
  omega

/-- The index of an address that has a table passes the test. -/
theorem index_accepted (hv : Covered v) :
    ¬ (v / (1024#32 * 4096#32) ≠ 0#32 ∧ (v / (1024#32 * 4096#32) < 768#32 ∨ v / (1024#32 * 4096#32) > 1023#32)) :=
  (not_congr (index_refused_iff v)).mpr (not_not.mpr hv)

/-- Only such an address has a word that is not zero. -/
theorem covered_of_entryAt {mem : Foundations.Memory} (h : vmm.entryAt util mem v ≠ 0#32) : Covered v := by
  by_contra hv
  exact h (if_neg hv)

theorem setEntryAddress_zero (t : PhysicalAddress) : setEntryAddress t 0#32 = t := by
  rw [setEntryAddress, BitVec.zero_and, BitVec.zero_or]

/-- Where the kernel's pointer to the word of the directory leads. -/
theorem directoryEntry_physical (v : VirtualAddress) :
    util.kernelVirtualToPhysicalAddress (PageDirectory.getEntry vmm.pageDirectory v) =
      entryAddress (vmm.directoryAddress util) (directoryIndex v) :=
  util.kernelVirtualToPhysicalAddress_entryAddress _ _

/-- Where the kernel's pointer to the word of the table leads. -/
theorem tableEntry_physical (v : VirtualAddress) :
    util.kernelVirtualToPhysicalAddress (PageTable.getEntry (vmm.tableAt v) v) =
      entryAddress (vmm.tableAddress util v) (tableIndex v) :=
  util.kernelVirtualToPhysicalAddress_entryAddress _ _

theorem read_directoryEntry (m : Machine) (v : VirtualAddress) :
    m.read util (PageDirectory.getEntry vmm.pageDirectory v) = vmm.directoryWord util m.mem v := by
  rw [Machine.read, directoryEntry_physical, directoryWord]

theorem read_tableEntry (m : Machine) (hv : Covered v) :
    m.read util (PageTable.getEntry (vmm.tableAt v) v) = vmm.entryAt util m.mem v := by
  rw [Machine.read, tableEntry_physical, entryAt, if_pos hv]

/-- `GetTable` points at the table. -/
theorem getTable_eq (hL : Layout util vmm) (hv : Covered v)
    (h : vmm.directoryWord util m.mem v = entryFor (vmm.tableAddress util v)) : vmm.getTable util m v = vmm.tableAt v := by
  have hframe : PageDirectoryEntry.getAddress (entryFor (vmm.tableAddress util v)) = vmm.tableAddress util v :=
    frame_entryFor (hL.table_aligned v hv)
  rw [getTable, read_directoryEntry, h, hframe, tableAddress,
    MemoryUtil.kernelPhysicalToVirtualAddress_kernelVirtualToPhysicalAddress]

/-- A word of the directory is in use when it is not zero. -/
theorem Tables.directory_present (hT : Tables util vmm m.mem) (v : VirtualAddress) :
    PageDirectoryEntry.isPresent (vmm.directoryWord util m.mem v) = true ↔ vmm.directoryWord util m.mem v ≠ 0#32 := by
  have hzero : PageDirectoryEntry.isPresent 0#32 = false := rfl
  have hfor : PageDirectoryEntry.isPresent (entryFor (vmm.tableAddress util v)) = true := present_entryFor _
  have hlinked : vmm.directoryWord util m.mem v = 0#32 ∨
      vmm.directoryWord util m.mem v = entryFor (vmm.tableAddress util v) := by
    by_cases hv : Covered v
    · exact hT.linked v hv
    · exact .inl (hT.uncovered v hv)
  rcases hlinked with h | h <;> rw [h]
  · simp [hzero]
  · simp [hfor, entryFor_ne_zero]

/-- A word of a table is in use when it is not zero. -/
theorem Tables.entry_present (hT : Tables util vmm m.mem) (v : VirtualAddress) :
    PageTableEntry.isPresent (vmm.entryAt util m.mem v) = true ↔ vmm.entryAt util m.mem v ≠ 0#32 := by
  have hzero : PageTableEntry.isPresent 0#32 = false := rfl
  rcases hT.entries v with h | ⟨p, -, h⟩ <;> rw [h]
  · simp [hzero]
  · have hfor : PageTableEntry.isPresent (entryFor p) = true := present_entryFor _
    simp [hfor, entryFor_ne_zero]

/-! ### `Map` -/

/-- The pointer that `Map` stores in an empty word of the directory is to the table for the address. -/
theorem makeDirectoryEntry_eq (hT : Tables util vmm m.mem) (hv : Covered v) :
    vmm.makeDirectoryEntry util m v writable = some (vmm.linkTable util m v) := by
  have hread : m.read util (PageDirectory.getEntry vmm.pageDirectory v) = vmm.directoryWord util m.mem v :=
    read_directoryEntry m v
  by_cases h0 : vmm.directoryWord util m.mem v = 0#32
  · have hidx : v / (1024#32 * 4096#32) = directoryIndex v := rfl
    have hnp : PageDirectoryEntry.isPresent 0#32 = false := rfl
    have haddressed : (if directoryIndex v = 0#32 then
          some (m.update util (PageDirectory.getEntry vmm.pageDirectory v)
            (PageDirectoryEntry.setAddress (util.kernelVirtualToPhysicalAddress vmm.pageTable0)))
        else if directoryIndex v ≥ 768#32 ∧ directoryIndex v ≤ 1023#32 then
          some (m.update util (PageDirectory.getEntry vmm.pageDirectory v)
            (PageDirectoryEntry.setAddress (util.kernelVirtualToPhysicalAddress
              (vmm.pageTables768 + 4096#32 * ((v - vmm.virtualStartAddress) / 0x400000#32)))))
        else none) =
        some (m.update util (PageDirectory.getEntry vmm.pageDirectory v)
          (PageDirectoryEntry.setAddress (vmm.tableAddress util v))) := by
      have hnat := directoryIndex_toNat v
      rw [tableAddress, tableAt, ← hnat]
      by_cases hd : directoryIndex v = 0#32
      · rw [if_pos hd, hd]; rfl
      · have hne : (directoryIndex v).toNat ≠ 0 := fun h => hd (BitVec.eq_of_toNat_eq h)
        have hrange : ¬ (directoryIndex v ≠ 0#32 ∧ (directoryIndex v < 768#32 ∨ directoryIndex v > 1023#32)) :=
          index_accepted hv
        rw [if_neg hd, if_neg hne, if_pos]
        rw [not_and, not_or, BitVec.not_lt, gt_iff_lt, BitVec.not_lt] at hrange
        exact hrange hd
    have hstores := Machine.update_update_update (hread.trans h0)
      (PageDirectoryEntry.setAddress (vmm.tableAddress util v)) (PageDirectoryEntry.setWritable writable)
      (PageDirectoryEntry.setPresent true)
    have haddr : PageDirectoryEntry.setAddress (vmm.tableAddress util v) 0#32 = vmm.tableAddress util v :=
      setEntryAddress_zero _
    have hflags : PageDirectoryEntry.setPresent true (PageDirectoryEntry.setWritable writable
        (vmm.tableAddress util v)) = entryFor (vmm.tableAddress util v) := BitVec.or_assoc ..
    rw [directoryEntry_physical, haddr, hflags] at hstores
    simp only [makeDirectoryEntry, hread, h0, hnp, Bool.not_false, if_true, hidx, haddressed, linkTable]
    exact congrArg some hstores
  · have hp : PageDirectoryEntry.isPresent (vmm.directoryWord util m.mem v) = true := (hT.directory_present v).mpr h0
    simp only [makeDirectoryEntry, hread, hp, Bool.not_true, Bool.false_eq_true, if_false, linkTable, h0]

/-- The memory after the directory has been made to point at the table. -/
theorem mem_linkTable (m : Machine) (v : VirtualAddress) :
    (vmm.linkTable util m v).mem = if vmm.directoryWord util m.mem v = 0#32 then
      m.mem.store32 (entryAddress (vmm.directoryAddress util) (directoryIndex v)) (entryFor (vmm.tableAddress util v))
    else m.mem := by
  rw [linkTable]
  split
  · exact Machine.mem_stores_three ..
  · rfl

/-- The tables' words stay as they are when the directory is made to point at the table. -/
theorem entryAt_linkTable (hL : Layout util vmm) (m : Machine) (v w : VirtualAddress) :
    vmm.entryAt util (vmm.linkTable util m v).mem w = vmm.entryAt util m.mem w := by
  rw [mem_linkTable]
  split
  · exact entryAt_store_directory hL ..
  · rfl

/-- The directory points at the table for the address and for those that share it. -/
theorem directoryWord_linkTable (hL : Layout util vmm) (hT : Tables util vmm m.mem) (hv : Covered v)
    (w : VirtualAddress) :
    vmm.directoryWord util (vmm.linkTable util m v).mem w =
      if directoryIndex v = directoryIndex w then entryFor (vmm.tableAddress util v)
      else vmm.directoryWord util m.mem w := by
  rw [mem_linkTable]
  by_cases h0 : vmm.directoryWord util m.mem v = 0#32
  · rw [if_pos h0, directoryWord_store_directory hL]
  · rw [if_neg h0]
    split
    · rename_i he
      rw [← (hT.linked v hv).resolve_left h0, directoryWord, directoryWord, he]
    · rfl

theorem Tables.linkTable (hL : Layout util vmm) (hT : Tables util vmm m.mem) (hv : Covered v) :
    Tables util vmm (vmm.linkTable util m v).mem := by
  refine ⟨fun w hw => ?_, fun w hw => ?_, fun w hw => ?_, fun w => ?_⟩
  · rw [directoryWord_linkTable hL hT hv, if_neg fun he => hw ((covered_congr he).mp hv)]
    exact hT.uncovered w hw
  · rw [directoryWord_linkTable hL hT hv]
    split
    · rename_i he; rw [hL.table_congr v w hv he]; exact .inr rfl
    · exact hT.linked w hw
  · rw [directoryWord_linkTable hL hT hv] at hw
    rw [entryAt_linkTable hL]
    split at hw
    · exact absurd hw (entryFor_ne_zero _)
    · exact hT.unlinked w hw
  · rw [entryAt_linkTable hL]
    exact hT.entries w

/-- All that `Map` can do. -/
theorem map_result (hL : Layout util vmm) (hT : Tables util vmm m.mem) (v : VirtualAddress) (p : PhysicalAddress)
    (writable : Bool) : vmm.MapResult util m v p (vmm.map util m v p writable) := by
  rw [map]
  by_cases hal : Aligned p ∧ Aligned v
  · have hal' : (!isAligned p pageSize || !isAligned v pageSize) = false := by
      rw [isAligned_pageSize.mpr hal.1, isAligned_pageSize.mpr hal.2]; rfl
    rw [hal']
    simp only [Bool.false_eq_true, if_false]
    by_cases hv : Covered v
    · have hlinked := (directoryWord_linkTable hL hT hv v).trans (if_pos rfl)
      rw [if_neg (index_accepted hv), makeDirectoryEntry_eq hT hv]
      simp only [getTable_eq hL hv hlinked, hL.tableAt_ne_zero v hv, if_false, read_tableEntry _ hv,
        entryAt_linkTable hL]
      by_cases h0 : vmm.entryAt util m.mem v = 0#32
      · have hread : (vmm.linkTable util m v).read util (PageTable.getEntry (vmm.tableAt v) v) = 0#32 := by
          rw [read_tableEntry _ hv, entryAt_linkTable hL, h0]
        have hstores := Machine.update_update_update hread (PageTableEntry.setWritable writable)
          (PageTableEntry.setAddress p) (PageTableEntry.setPresent true)
        have hwritable : PageTableEntry.setWritable writable 0#32 = 0x2#32 := rfl
        have haddr : PageTableEntry.setAddress p 0x2#32 = 0x2#32 ||| p := rfl
        have hflags : PageTableEntry.setPresent true (0x2#32 ||| p) = entryFor p := by
          rw [BitVec.or_comm]
          exact BitVec.or_assoc ..
        rw [tableEntry_physical, hwritable, haddr, hflags] at hstores
        rw [h0, if_neg (by decide), hstores]
        exact .mapped ⟨hal.1, hal.2, hv, h0⟩
      · have hd : vmm.directoryWord util m.mem v ≠ 0#32 := fun h => h0 (hT.unlinked v h)
        rw [if_pos ((hT.entry_present v).mpr h0), linkTable, if_neg hd]
        exact .refused fun h => h0 h.2.2.2
    · rw [if_pos ((index_refused_iff v).mpr hv)]
      exact .refused fun h => hv h.2.2.1
  · have hal' : (!isAligned p pageSize || !isAligned v pageSize) = true := by
      rw [Bool.or_eq_true, Bool.not_eq_true', Bool.not_eq_true', Bool.eq_false_iff, Bool.eq_false_iff, ne_eq, ne_eq,
        isAligned_pageSize, isAligned_pageSize]
      exact not_and_or.mp hal
    rw [hal']
    exact .refused fun h => hal ⟨h.1, h.2.1⟩

/-- The invariant after `Map`, and the words of the tables: a call that succeeds makes the entry for
the page, a call that fails changes nothing. -/
theorem MapResult.spec (hL : Layout util vmm) (hT : Tables util vmm m.mem) {r : Bool × Machine}
    (h : vmm.MapResult util m v p r) :
    Tables util vmm r.2.mem ∧ (r.1 = true ↔ vmm.Mappable util m.mem v p) ∧
      ∀ w, vmm.entryAt util r.2.mem w = if r.1 = true ∧ SamePage v w then entryFor p else vmm.entryAt util m.mem w := by
  cases h with
  | refused hno => exact ⟨hT, by simpa using hno, fun w => by simp⟩
  | mapped hok =>
    have ⟨hp, _, hv, _⟩ := hok
    have hT' := hT.linkTable hL hv
    have hmem : (vmm.storeEntry util (vmm.linkTable util m v) v p).mem = _ := Machine.mem_stores_three ..
    have hentry : ∀ w, vmm.entryAt util (vmm.storeEntry util (vmm.linkTable util m v) v p).mem w =
        if SamePage v w then entryFor p else vmm.entryAt util m.mem w := by
      intro w
      rw [hmem, entryAt_store_entry hL hv, entryAt_linkTable hL]
    have hdir : ∀ w, vmm.directoryWord util (vmm.storeEntry util (vmm.linkTable util m v) v p).mem w =
        vmm.directoryWord util (vmm.linkTable util m v).mem w := by
      intro w
      rw [hmem, directoryWord_store_entry hL hv]
    refine ⟨⟨fun w hw => ?_, fun w hw => ?_, fun w hw => ?_, fun w => ?_⟩, by simpa using hok, fun w => by simp [hentry]⟩
    · rw [hdir]; exact hT'.uncovered w hw
    · rw [hdir]; exact hT'.linked w hw
    · rw [hdir] at hw
      have hs : ¬ SamePage v w := by
        intro hs
        rw [directoryWord_linkTable hL hT hv, if_pos (samePage_iff.mp hs).1] at hw
        exact entryFor_ne_zero _ hw
      rw [hentry, if_neg hs, ← entryAt_linkTable hL]
      exact hT'.unlinked w hw
    · rw [hentry]
      split
      · exact .inr ⟨p, hp, rfl⟩
      · exact hT.entries w

/-- The directory in use stays the same. -/
theorem MapResult.cr3 {r : Bool × Machine} (h : vmm.MapResult util m v p r) : r.2.cr3 = m.cr3 := by
  cases h with
  | refused => rfl
  | mapped =>
    change (vmm.linkTable util m v).cr3 = m.cr3
    rw [linkTable]
    split <;> rfl

theorem UnmapResult.cr3 {r : Bool × Machine} (h : vmm.UnmapResult util m v r) : r.2.cr3 = m.cr3 := by
  cases h <;> rfl

/-! ### `Unmap` and `GetPhysicalAddress` -/

/-- What `Unmap` and `GetPhysicalAddress` have in common: they go to the word for the address, and fail when it or
one on the way is not in use. -/
theorem lookup_eq {β : Type} (hL : Layout util vmm) (hT : Tables util vmm m.mem) (v : VirtualAddress) (fail : β)
    (found : VirtualAddress → β) :
    (if v / (1024#32 * 4096#32) ≠ 0#32 ∧ (v / (1024#32 * 4096#32) < 768#32 ∨ v / (1024#32 * 4096#32) > 1023#32) then fail
    else if !PageDirectoryEntry.isPresent (m.read util (PageDirectory.getEntry vmm.pageDirectory v)) then fail
    else if vmm.getTable util m v = 0#32 then fail
    else if !PageTableEntry.isPresent (m.read util (PageTable.getEntry (vmm.getTable util m v) v)) then fail
    else found (vmm.getTable util m v)) =
      if vmm.entryAt util m.mem v = 0#32 then fail else found (vmm.tableAt v) := by
  rw [read_directoryEntry]
  by_cases hv : Covered v
  · rw [if_neg (index_accepted hv)]
    by_cases hd : vmm.directoryWord util m.mem v = 0#32
    · have hnp : PageDirectoryEntry.isPresent 0#32 = false := rfl
      rw [hd, hnp, if_pos (hT.unlinked v hd)]
      rfl
    · have hlinked := (hT.linked v hv).resolve_left hd
      rw [(hT.directory_present v).mpr hd, getTable_eq hL hv hlinked, if_neg (hL.tableAt_ne_zero v hv), read_tableEntry _ hv]
      by_cases h0 : vmm.entryAt util m.mem v = 0#32
      · rw [if_pos h0, h0]
        rfl
      · rw [if_neg h0, (hT.entry_present v).mpr h0]
        rfl
  · have h0 : vmm.entryAt util m.mem v = 0#32 := if_neg hv
    rw [if_pos ((index_refused_iff v).mpr hv), if_pos h0]

/-- All that `Unmap` can do. -/
theorem unmap_result (hL : Layout util vmm) (hT : Tables util vmm m.mem) (v : VirtualAddress) :
    vmm.UnmapResult util m v (vmm.unmap util m v) := by
  rw [unmap]
  by_cases hal : Aligned v
  · have hlookup := lookup_eq hL hT v (false, m) fun table =>
      (true, m.update util (PageTable.getEntry table v) PageTableEntry.clear)
    rw [isAligned_pageSize.mpr hal]
    refine (congrArg _ hlookup).mpr ?_
    split
    · rename_i h0
      exact .refused fun h => h.2 h0
    · rename_i h0
      have hclear : m.update util (PageTable.getEntry (vmm.tableAt v) v) PageTableEntry.clear =
          m.stores (entryAddress (vmm.tableAddress util v) (tableIndex v)) [0#32] := by
        rw [← tableEntry_physical]
        rfl
      rw [hclear]
      exact .unmapped hal (covered_of_entryAt h0) h0
  · rw [Bool.eq_false_iff.mpr fun h => hal (isAligned_pageSize.mp h)]
    exact .refused fun h => hal h.1

/-- The invariant after `Unmap`, and the words of the tables. -/
theorem UnmapResult.spec (hL : Layout util vmm) (hT : Tables util vmm m.mem) {r : Bool × Machine}
    (h : vmm.UnmapResult util m v r) :
    Tables util vmm r.2.mem ∧ (r.1 = true ↔ Aligned v ∧ vmm.entryAt util m.mem v ≠ 0#32) ∧
      ∀ w, vmm.entryAt util r.2.mem w = if r.1 = true ∧ SamePage v w then 0#32 else vmm.entryAt util m.mem w := by
  cases h with
  | refused hno => exact ⟨hT, by simpa using hno, fun w => by simp⟩
  | unmapped hal hv h0 =>
    have hentry : ∀ w, vmm.entryAt util (m.stores (entryAddress (vmm.tableAddress util v) (tableIndex v)) [0#32]).mem w =
        if SamePage v w then 0#32 else vmm.entryAt util m.mem w := fun w => entryAt_store_entry hL hv w 0#32
    have hdir : ∀ w, vmm.directoryWord util
        (m.stores (entryAddress (vmm.tableAddress util v) (tableIndex v)) [0#32]).mem w =
        vmm.directoryWord util m.mem w := fun w => directoryWord_store_entry hL hv w 0#32
    refine ⟨⟨fun w hw => ?_, fun w hw => ?_, fun w hw => ?_, fun w => ?_⟩, by simp [hal, h0], fun w => by simp [hentry]⟩
    · rw [hdir]; exact hT.uncovered w hw
    · rw [hdir]; exact hT.linked w hw
    · rw [hdir] at hw
      rw [hentry]
      split
      · rfl
      · exact hT.unlinked w hw
    · rw [hentry]
      split
      · exact .inl rfl
      · exact hT.entries w

/-- `GetPhysicalAddress` returns the frame of the word for the address; that of the word zero is zero. -/
theorem getPhysicalAddress_eq (hL : Layout util vmm) (hT : Tables util vmm m.mem) (v : VirtualAddress) :
    vmm.getPhysicalAddress util m v = if Aligned v then (vmm.entryAt util m.mem v).frame else 0#32 := by
  have hzero : Entry.frame 0#32 = 0#32 := rfl
  rw [getPhysicalAddress]
  by_cases hal : Aligned v
  · have hlookup := lookup_eq hL hT v 0#32 fun table => PageTableEntry.getAddress (m.read util (PageTable.getEntry table v))
    rw [isAligned_pageSize.mpr hal, if_pos hal]
    refine hlookup.trans ?_
    split
    · rename_i h0
      rw [h0, hzero]
    · rename_i h0
      rw [read_tableEntry _ (covered_of_entryAt h0)]
      rfl
  · rw [Bool.eq_false_iff.mpr fun h => hal (isAligned_pageSize.mp h), if_neg hal]
    rfl

/-! ### `Init` -/

/-- A byte that is zero stays zero when a range is cleared. -/
theorem memset_zero_of_zero {mem : Foundations.Memory} {x dst : BitVec 32} {num : ℕ} (hnum : num ≤ 2 ^ 32)
    (h : mem x = 0#8) : memset mem dst 0#8 num x = 0#8 := by
  by_cases hx : x ∈ Span dst num
  · exact (memset_apply hnum mem x).1 hx
  · exact ((memset_apply hnum mem x).2 hx).trans h

/-- The word `i` of the table that starts `b` bytes into a range lies in the range. -/
theorem span_entryAddress_subset (a b i : BitVec 32) {n : ℕ} (hi : i.toNat < 1024) (hn : b.toNat + 4096 ≤ n)
    (hb : b.toNat + 4096 ≤ 2 ^ 32) : Span (entryAddress (a + b) i) 4 ⊆ Span a n := by
  intro x hx
  rw [mem_span, entryAddress] at hx
  have hoff : x - a = (x - (a + b + 4#32 * i)) + (b + 4#32 * i) := by bv_omega
  rw [mem_span, hoff, BitVec.toNat_add, BitVec.toNat_add, BitVec.toNat_mul, show (4#32).toNat = 4 from rfl]
  omega

/-- After `Init` the tables are empty. -/
theorem tables_init {util : MemoryUtil} {vmm : VirtualMemoryManager} {imageSize : ℕ} {bootInfo : BootInfo}
    (h : InImage util vmm imageSize) (hboot : bootInfo.kernelVirtualStartAddress = 0xC0000000#32) (m : Machine) :
    Layout util (vmm.init util bootInfo m).2.1 ∧
      Tables util (vmm.init util bootInfo m).2.1 (vmm.init util bootInfo m).2.2.mem ∧
      ∀ v, (vmm.init util bootInfo m).2.1.entryAt util (vmm.init util bootInfo m).2.2.mem v = 0#32 := by
  have hin : InImage util (vmm.init util bootInfo m).2.1 imageSize := { h with }
  have hstart : (vmm.init util bootInfo m).2.1.virtualStartAddress = 0xC0000000#32 := hboot
  have hL := layout_of_inImage hin hstart
  have hzero : ∀ x, x ∈ Span (util.kernelVirtualToPhysicalAddress vmm.pageDirectory) 4096 ∨
      x ∈ Span (util.kernelVirtualToPhysicalAddress vmm.pageTable0) 4096 ∨
      x ∈ Span (util.kernelVirtualToPhysicalAddress vmm.pageTables768) (256 * 4096) →
      (vmm.init util bootInfo m).2.2.mem x = 0#8 := by
    have hmem : (vmm.init util bootInfo m).2.2.mem =
        memset (memset (memset m.mem (util.kernelVirtualToPhysicalAddress vmm.pageDirectory) 0#8 4096)
          (util.kernelVirtualToPhysicalAddress vmm.pageTable0) 0#8 4096)
          (util.kernelVirtualToPhysicalAddress vmm.pageTables768) 0#8 (256 * 4096) := by rw [init]
    rw [hmem]
    rintro x (hx | hx | hx)
    · exact memset_zero_of_zero (by decide) (memset_zero_of_zero (by decide) ((memset_apply (by decide) _ x).1 hx))
    · exact memset_zero_of_zero (by decide) ((memset_apply (by decide) _ x).1 hx)
    · exact (memset_apply (by decide) _ x).1 hx
  have hword : ∀ a, (∀ x ∈ Span a 4, (vmm.init util bootInfo m).2.2.mem x = 0#8) →
      (vmm.init util bootInfo m).2.2.mem.load32 a = 0#32 := by
    intro a ha
    rw [Memory.load32_congr (m := fun _ => 0#8) ha]
    simp [Memory.load32]
  have hdir : ∀ v, (vmm.init util bootInfo m).2.1.directoryWord util (vmm.init util bootInfo m).2.2.mem v = 0#32 := by
    intro v
    refine hword _ fun x hx => hzero x (.inl ?_)
    have hsub := span_entryAddress_subset (util.kernelVirtualToPhysicalAddress vmm.pageDirectory) 0#32
      (directoryIndex v) (n := 4096) (directoryIndex_lt v) (by decide) (by decide)
    rw [BitVec.add_zero] at hsub
    exact hsub hx
  have hentry : ∀ v, (vmm.init util bootInfo m).2.1.entryAt util (vmm.init util bootInfo m).2.2.mem v = 0#32 := by
    intro v
    rw [entryAt]
    split
    · rename_i hv
      refine hword _ fun x hx => hzero x (.inr ?_)
      by_cases h0 : v.toNat / 0x400000 = 0
      · rw [tableAddress, tableAt, if_pos h0] at hx
        have hsub := span_entryAddress_subset (util.kernelVirtualToPhysicalAddress vmm.pageTable0) 0#32
          (tableIndex v) (n := 4096) (tableIndex_lt v) (by decide) (by decide)
        rw [BitVec.add_zero] at hsub
        exact .inl (hsub hx)
      · -- the table is one of the 256
        have hv768 : 768 ≤ v.toNat / 0x400000 := hv.resolve_left h0
        have hk := tableOffset_toNat hv768
        have htable : (vmm.init util bootInfo m).2.1.tableAddress util v =
            util.kernelVirtualToPhysicalAddress vmm.pageTables768 +
              4096#32 * ((v - 0xC0000000#32) / 0x400000#32) := by
          rw [tableAddress, tableAt, if_neg h0, hstart]
          simp only [init, MemoryUtil.kernelVirtualToPhysicalAddress, BitVec.sub_eq_add_neg]
          ac_rfl
        rw [htable] at hx
        exact .inr (span_entryAddress_subset _ _ (tableIndex v) (tableIndex_lt v) (by omega) (by omega) hx)
    · rfl
  refine ⟨hL, ⟨fun v _ => hdir v, fun v _ => .inl (hdir v), fun v _ => hentry v, fun v => .inl (hentry v)⟩, hentry⟩

end VirtualMemoryManager

end EagleOS.Memory
