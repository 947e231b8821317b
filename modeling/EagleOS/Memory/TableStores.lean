import EagleOS.Memory.KernelCalls

/-!
# Stores into the page tables

The bytes of the page tables are those of the directory's words and of the tables' words. The calls of the virtual
allocator store into these bytes only; and a store to any other byte changes no word of the tables.

## What is proved

* `onlyTables_apply` — the calls of the virtual allocator.
* `sameTables_of_agree` — memories that agree on the bytes of the tables have the same words there.
-/

namespace EagleOS.Memory

open ESTD Boot Foundations Arch VirtualMemoryManager VirtualMemoryAllocator

/-- The bytes of the directory and of the tables. -/
def tableBytes (util : MemoryUtil) (vmm : VirtualMemoryManager) : Set PhysicalAddress :=
  {x | (∃ v, x ∈ Span (entryAddress (vmm.directoryAddress util) (directoryIndex v)) 4) ∨
    ∃ v, Covered v ∧ x ∈ Span (entryAddress (vmm.tableAddress util v) (tableIndex v)) 4}

/-- Two memories agree outside of the tables. -/
def OnlyTables (util : MemoryUtil) (vmm : VirtualMemoryManager) (mem mem' : Foundations.Memory) : Prop :=
  ∀ x ∉ tableBytes util vmm, mem' x = mem x

section

variable {util : MemoryUtil} {vmm : VirtualMemoryManager} {mem mem' mem'' : Foundations.Memory} {m : Machine}
  {v : VirtualAddress} {p : PhysicalAddress} {writable : Bool}

theorem OnlyTables.refl (util : MemoryUtil) (vmm : VirtualMemoryManager) (mem : Foundations.Memory) :
    OnlyTables util vmm mem mem := fun _ _ => rfl

theorem OnlyTables.trans (h : OnlyTables util vmm mem mem') (h' : OnlyTables util vmm mem' mem'') :
    OnlyTables util vmm mem mem'' := fun x hx => (h' x hx).trans (h x hx)

/-- A word of the directory is stored. -/
theorem onlyTables_store_directory (mem : Foundations.Memory) (v : VirtualAddress) (e : Entry) :
    OnlyTables util vmm mem (mem.store32 (entryAddress (vmm.directoryAddress util) (directoryIndex v)) e) :=
  fun _ hx => Memory.store32_of_notMem fun hin => hx (.inl ⟨v, hin⟩)

/-- A word of a table is stored. -/
theorem onlyTables_store_entry (hv : Covered v) (mem : Foundations.Memory) (e : Entry) :
    OnlyTables util vmm mem (mem.store32 (entryAddress (vmm.tableAddress util v) (tableIndex v)) e) :=
  fun _ hx => Memory.store32_of_notMem fun hin => hx (.inr ⟨v, hv, hin⟩)

theorem onlyTables_linkTable (m : Machine) (v : VirtualAddress) :
    OnlyTables util vmm m.mem (vmm.linkTable util m v).mem := by
  rw [mem_linkTable]
  split
  · exact onlyTables_store_directory _ _ _
  · exact .refl _ _ _

theorem onlyTables_map (hL : Layout util vmm) (hT : Tables util vmm m.mem) (v : VirtualAddress) (p : PhysicalAddress)
    (writable : Bool) : OnlyTables util vmm m.mem (vmm.map util m v p writable).2.mem := by
  have hresult := map_result hL hT v p writable
  generalize vmm.map util m v p writable = r at hresult
  cases hresult with
  | refused => exact .refl _ _ _
  | mapped hok =>
    have hmem : (vmm.storeEntry util (vmm.linkTable util m v) v p).mem = _ := Machine.mem_stores_three ..
    rw [hmem]
    exact (onlyTables_linkTable m v).trans (onlyTables_store_entry hok.2.2.1 _ _)

theorem onlyTables_unmap (hL : Layout util vmm) (hT : Tables util vmm m.mem) (v : VirtualAddress) :
    OnlyTables util vmm m.mem (vmm.unmap util m v).2.mem := by
  have hresult := unmap_result hL hT v
  generalize vmm.unmap util m v = r at hresult
  cases hresult with
  | refused => exact .refl _ _ _
  | unmapped _ hcov => exact onlyTables_store_entry hcov _ _

theorem onlyTables_mapLoop (hL : Layout util vmm) (n : ℕ) :
    ∀ {m : Machine} {v : VirtualAddress} {p : PhysicalAddress}, Tables util vmm m.mem →
      OnlyTables util vmm m.mem (vmm.mapLoop util writable n m v p).2.mem := by
  induction n with
  | zero => exact fun _ => .refl _ _ _
  | succ n ih =>
    intro m v p hT
    have hfirst := onlyTables_map hL hT v p writable
    have hT' := ((map_result hL hT v p writable).spec hL hT).1
    rw [mapLoop]
    generalize vmm.map util m v p writable = r at hfirst hT'
    obtain ⟨b, m'⟩ := r
    cases b with
    | false => exact hfirst
    | true => exact hfirst.trans (ih hT')

theorem onlyTables_unmapLoop (hL : Layout util vmm) (n : ℕ) :
    ∀ {m : Machine} {v : VirtualAddress}, Tables util vmm m.mem →
      OnlyTables util vmm m.mem (vmm.unmapLoop util n m v).2.mem := by
  induction n with
  | zero => exact fun _ => .refl _ _ _
  | succ n ih =>
    intro m v hT
    have hfirst := onlyTables_unmap hL hT v
    have hT' := ((unmap_result hL hT v).spec hL hT).1
    rw [unmapLoop]
    generalize vmm.unmap util m v = r at hfirst hT'
    obtain ⟨b, m'⟩ := r
    cases b with
    | false => exact hfirst
    | true => exact hfirst.trans (ih (m := flushTLB m' v) hT')

/-- The calls of the virtual allocator store into the tables only. -/
theorem onlyTables_apply {k : Kernel} (h : Paged util k) (c : AllocatorCall) :
    OnlyTables util k.vmm k.machine.mem (c.apply util k).machine.mem := by
  cases c with
  | allocatePages n =>
    rw [AllocatorCall.apply]
    have hmapped : ∀ v p b machine, k.vmm.mapRange util k.machine v p true n = (b, machine) →
        OnlyTables util k.vmm k.machine.mem machine.mem := by
      intro v p b machine hmap
      have hstores : OnlyTables util k.vmm k.machine.mem (k.vmm.mapRange util k.machine v p true n).2.mem :=
        onlyTables_mapLoop h.layout n.toNat h.tables
      rwa [hmap] at hstores
    have houtcome := allocatePages_outcome util k n
    generalize allocatePages util k n = r at houtcome
    cases houtcome with
    | refused => exact .refl _ _ _
    | noFrame => exact .refl _ _ _
    | stopped _ _ hmap => exact hmapped _ _ _ _ hmap
    | mapped _ _ _ _ hmap => exact hmapped _ _ _ _ hmap
  | freePages v n =>
    rw [AllocatorCall.apply]
    have hstores := onlyTables_unmapLoop h.layout n.toNat (v := v) h.tables
    rw [← unmapRange] at hstores
    have houtcome := freePages_outcome util k v n
    generalize freePages util k v n = r at houtcome
    cases houtcome with
    | nothing => exact .refl _ _ _
    | stopped hunmap => rwa [hunmap] at hstores
    | freed hunmap => rwa [hunmap] at hstores
  | reservePages v n => exact .refl _ _ _

/-- Memories that agree on the bytes of the tables. -/
theorem sameTables_of_agree (h : ∀ x ∈ tableBytes util vmm, mem' x = mem x) :
    VirtualClient.SameTables util vmm mem mem' := by
  refine fun v => ⟨Memory.load32_congr fun x hx => h x (.inl ⟨v, hx⟩), ?_⟩
  rw [entryAt, entryAt]
  split
  · rename_i hv
    exact Memory.load32_congr fun x hx => h x (.inr ⟨v, hv, hx⟩)
  · rfl

/-- The bytes of the tables lie in the pages of the tables. -/
theorem page_of_tableBytes (hL : Layout util vmm) {x : PhysicalAddress} (hx : x ∈ tableBytes util vmm) :
    ∃ table, Aligned table ∧ x ∈ Span table 4096 ∧
      (table = vmm.directoryAddress util ∨ ∃ v, Covered v ∧ table = vmm.tableAddress util v) := by
  have hpage : ∀ {table i : BitVec 32}, Aligned table → i.toNat < 1024 → x ∈ Span (entryAddress table i) 4 →
      x ∈ Span table 4096 := by
    intro table i hal hi hin
    have haddr := entryAddress_toNat hal hi
    rw [Aligned] at hal
    rw [mem_span_iff (by omega)] at hin ⊢
    omega
  rcases hx with ⟨v, hin⟩ | ⟨v, hv, hin⟩
  · exact ⟨_, hL.directory_aligned, hpage hL.directory_aligned (directoryIndex_lt v) hin, .inl rfl⟩
  · exact ⟨_, hL.table_aligned v hv, hpage (hL.table_aligned v hv) (tableIndex_lt v) hin, .inr ⟨v, hv, rfl⟩⟩

end

end EagleOS.Memory
