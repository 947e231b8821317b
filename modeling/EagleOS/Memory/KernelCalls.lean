import EagleOS.Memory.VirtualMemoryClients

/-!
# Runs of the virtual allocator

Any calls of the virtual allocator, with any arguments, once the kernel has started.

## The model

`KernelStep` is a call, or a store outside the page tables. `Kernel.translate` is what the processor finds
for an address.

## What is proved

* `Paged.step` — the page tables stay in order, and in use.
* `Paged.allocated`, `Paged.freed` — what calls that succeed do to the translations.
-/

namespace EagleOS.Memory

open ESTD Boot Foundations Arch VirtualMemoryManager VirtualMemoryAllocator

/-- What the processor finds for an address. -/
def Kernel.translate (k : Kernel) (v : VirtualAddress) : Option Translation := walk k.machine.mem k.machine.cr3 v

/-- What happens. -/
inductive KernelCall where
  /-- A call of the virtual allocator. -/
  | call (c : AllocatorCall)
  /-- Something else in the kernel. -/
  | other

/-- Any call may be made; in between, anybody may store outside the page tables. -/
inductive KernelStep (util : MemoryUtil) : Kernel → KernelCall → Kernel → Prop
  /-- A call. -/
  | call {k : Kernel} {c : AllocatorCall} : KernelStep util k (.call c) (c.apply util k)
  /-- The page tables stay as they are. -/
  | other {k : Kernel} {mem : Foundations.Memory} : VirtualClient.SameTables util k.vmm k.machine.mem mem →
      KernelStep util k .other { k with machine := { k.machine with mem := mem } }

/-- The page tables are in order, and in use. -/
structure Paged (util : MemoryUtil) (k : Kernel) : Prop where
  /-- The tables lie where they should. -/
  layout : Layout util k.vmm
  /-- The tables are in order. -/
  tables : Tables util k.vmm k.machine.mem
  /-- The directory is in use. -/
  cr3 : k.machine.cr3 = k.vmm.directoryAddress util

theorem VirtualMemoryAllocator.pageNumberToAddress_toNat (vma : VirtualMemoryAllocator) (p : ℕ) :
    (vma.pageNumberToAddress (BitVec.ofNat 32 p)).toNat = (vma.startAddress.toNat + 4096 * p) % 2 ^ 32 := by
  rw [vma.pageNumberToAddress_eq_pageAt, pageAt_toNat]

/-- The window's start is that of `Init` in every state. -/
theorem startAddress_of_runs {util : MemoryUtil} {k s : Kernel} (hrun : Runs (KernelStep util) k s) :
    s.vma.startAddress = k.vma.startAddress := by
  refine hrun.invariant (P := fun t => t.vma.startAddress = k.vma.startAddress) ?_ rfl
  rintro t c u ht - hstep
  cases hstep with
  | call => rw [startAddress_apply, ht]
  | other => exact ht

section

variable {util : MemoryUtil} {k k' : Kernel}

/-- What the processor finds is what the word for the address says. -/
theorem Paged.translate_eq (h : Paged util k) (v : VirtualAddress) :
    k.translate v = decode true (k.vmm.entryAt util k.machine.mem v) := by
  rw [Kernel.translate, h.cr3, walk_eq h.layout h.tables]

/-- Nothing is found where the word is zero. -/
theorem Paged.translate_eq_none (h : Paged util k) {v : VirtualAddress} :
    k.translate v = none ↔ k.vmm.entryAt util k.machine.mem v = 0#32 := by
  rw [Kernel.translate, h.cr3, walk_eq_none_iff h.layout h.tables]

/-- The tables after `MapRange`, whether it succeeds or stops. -/
theorem Paged.afterMapRange (h : Paged util k) {v : VirtualAddress} {p : PhysicalAddress} {n : SizeT} {b : Bool}
    {machine : Machine} (hmap : k.vmm.mapRange util k.machine v p true n = (b, machine)) (hm : k'.machine = machine)
    (hvmm : k'.vmm = k.vmm) : Paged util k' := by
  have hspec := mapRange_spec h.layout h.tables v p true n
  rw [hmap] at hspec
  exact ⟨by rw [hvmm]; exact h.layout, by rw [hm, hvmm]; exact hspec.tables, by rw [hm, hvmm, hspec.cr3]; exact h.cr3⟩

/-- The tables after `UnmapRange`, whether it succeeds or stops. -/
theorem Paged.afterUnmapRange (h : Paged util k) {v : VirtualAddress} {n : SizeT} {b : Bool} {machine : Machine}
    (hunmap : k.vmm.unmapRange util k.machine v n = (b, machine)) (hm : k'.machine.mem = machine.mem)
    (hcr3 : k'.machine.cr3 = machine.cr3) (hvmm : k'.vmm = k.vmm) : Paged util k' := by
  have hspec := unmapRange_spec h.layout h.tables v n
  rw [hunmap] at hspec
  exact ⟨by rw [hvmm]; exact h.layout, by rw [hm, hvmm]; exact hspec.tables,
    by rw [hcr3, hvmm, hspec.cr3]; exact h.cr3⟩

theorem Paged.afterAllocatePages (h : Paged util k) (n : SizeT) : Paged util (allocatePages util k n).2 := by
  have houtcome := allocatePages_outcome util k n
  generalize allocatePages util k n = r at houtcome
  cases houtcome with
  | refused => exact h
  | noFrame => exact ⟨h.layout, h.tables, h.cr3⟩
  | stopped _ _ hmap => exact h.afterMapRange hmap rfl rfl
  | mapped _ _ _ _ hmap => exact h.afterMapRange hmap rfl rfl

theorem Paged.afterFreePages (h : Paged util k) (v : VirtualAddress) (n : SizeT) : Paged util (freePages util k v n).2 := by
  have houtcome := freePages_outcome util k v n
  generalize freePages util k v n = r at houtcome
  cases houtcome with
  | nothing => exact h
  | stopped hunmap => exact h.afterUnmapRange hunmap rfl rfl rfl
  | freed hunmap => exact h.afterUnmapRange hunmap rfl rfl rfl

/-- Addresses of one page are mapped alike. -/
theorem Paged.translate_congr (h : Paged util k) {v w : VirtualAddress} (hs : SamePage v w) :
    k.translate v = k.translate w := by
  rw [h.translate_eq, h.translate_eq, entryAt_congr h.layout hs]

/-- `MapRange` that succeeds: its pages were not mapped, and now they are. -/
theorem Paged.mapped (h : Paged util k) {v : VirtualAddress} {p : PhysicalAddress} {n : SizeT} {machine : Machine}
    (hmap : k.vmm.mapRange util k.machine v p true n = (true, machine)) (hm : k'.machine = machine)
    (hvmm : k'.vmm = k.vmm) :
    (∀ i < n.toNat, Aligned (pageAt v i) ∧ Aligned (pageAt p i) ∧ k.translate (pageAt v i) = none ∧
      k'.translate (pageAt v i) = some ⟨pageAt p i, true⟩) ∧
    ∀ x, ¬ InPages v n.toNat x → k'.translate x = k.translate x := by
  have hk' := h.afterMapRange hmap hm hvmm
  have hspec := mapRange_spec h.layout h.tables v p true n
  rw [hmap] at hspec
  refine ⟨fun i hi => ?_, fun x hx => ?_⟩
  · obtain ⟨hv, hp, -, h0, he⟩ := hspec.mapped rfl i hi
    refine ⟨hv, hp, h.translate_eq_none.mpr h0, ?_⟩
    rw [hk'.translate_eq, hm, hvmm, he, decode_entryFor hp]
  · rw [hk'.translate_eq, h.translate_eq, hm, hvmm]
    exact congrArg _ (hspec.frame x hx)

/-- `AllocatePages` that returns an address: its pages were not mapped, and now they are, to the frames that
the physical allocator gave. -/
theorem Paged.allocated (h : Paged util k) {n : SizeT} {v : VirtualAddress} (hv : (allocatePages util k n).1 = v)
    (hv0 : v ≠ 0#32) :
    (∀ i < n.toNat, Aligned (pageAt v i) ∧ Aligned (pageAt (k.pmm.allocatePages n).1 i) ∧ k.translate (pageAt v i) = none ∧
      (allocatePages util k n).2.translate (pageAt v i) = some ⟨pageAt (k.pmm.allocatePages n).1 i, true⟩) ∧
    ∀ x, ¬ InPages v n.toNat x → (allocatePages util k n).2.translate x = k.translate x := by
  have houtcome := allocatePages_outcome util k n
  generalize allocatePages util k n = r at houtcome hv
  subst hv
  cases houtcome with
  | refused => exact absurd rfl hv0
  | noFrame => exact absurd rfl hv0
  | stopped => exact absurd rfl hv0
  | mapped _ _ _ _ hmap => exact h.mapped hmap rfl rfl

/-- `FreePages` that succeeds: its pages were mapped, and now they are not. -/
theorem Paged.freed (h : Paged util k) {n : SizeT} {v : VirtualAddress} (hok : (freePages util k v n).1 = true)
    (hv0 : v ≠ 0#32) :
    (∀ i < n.toNat, Aligned (pageAt v i) ∧ k.translate (pageAt v i) ≠ none) ∧
    (∀ x, InPages v n.toNat x → (freePages util k v n).2.translate x = none) ∧
    ∀ x, ¬ InPages v n.toNat x → (freePages util k v n).2.translate x = k.translate x := by
  have houtcome := freePages_outcome util k v n
  have hpaged := h.afterFreePages v n
  generalize freePages util k v n = r at houtcome hpaged hok
  cases houtcome with
  | nothing h0 => exact absurd h0 hv0
  | stopped => simp at hok
  | freed hunmap =>
    have hused := unmapLoop_used h.layout n.toNat h.tables (congrArg Prod.fst hunmap)
    have hspec := unmapRange_spec h.layout h.tables v n
    rw [hunmap] at hspec
    refine ⟨fun i hi => (hused i hi).imp_right (mt h.translate_eq_none.mp), fun x hx => ?_, fun x hx => ?_⟩
    · exact hpaged.translate_eq_none.mpr (hspec.unmapped rfl x hx)
    · rw [hpaged.translate_eq, h.translate_eq]
      exact congrArg _ (hspec.frame x hx)

/-- `FreePages` succeeds when all its pages are mapped, also where they wrap around. -/
theorem Paged.freePages_succeeds_of_le (h : Paged util k) {v : VirtualAddress} {n : SizeT} (hv : Aligned v)
    (hn : n.toNat ≤ 2 ^ 20) (hused : ∀ i < n.toNat, k.translate (pageAt v i) ≠ none) :
    (freePages util k v n).1 = true := by
  have hok := unmapRange_succeeds_of_le h.layout h.tables hv hn fun i hi => mt h.translate_eq_none.mpr (hused i hi)
  have houtcome := freePages_outcome util k v n
  generalize freePages util k v n = r at houtcome
  cases houtcome with
  | nothing => rfl
  | stopped hunmap =>
    rw [hunmap] at hok
    cases hok
  | freed => rfl

/-- `FreePages` succeeds when all its pages are mapped. -/
theorem Paged.freePages_succeeds (h : Paged util k) {v : VirtualAddress} {n : SizeT} (hv : Aligned v)
    (hend : v.toNat + 4096 * n.toNat ≤ 2 ^ 32) (hused : ∀ i < n.toNat, k.translate (pageAt v i) ≠ none) :
    (freePages util k v n).1 = true := h.freePages_succeeds_of_le hv (by omega) hused

theorem Paged.step {c : KernelCall} (h : Paged util k) (hs : KernelStep util k c k') : Paged util k' := by
  cases hs with
  | @call c =>
    cases c with
    | allocatePages n => exact h.afterAllocatePages n
    | freePages v n => exact h.afterFreePages v n
    | reservePages v n => exact ⟨h.layout, h.tables, h.cr3⟩
  | other hsame => exact ⟨h.layout, hsame.tables h.tables, h.cr3⟩

/-- In every state of a run. -/
theorem Paged.runs (h : Paged util k) (hrun : Runs (KernelStep util) k k') : Paged util k' :=
  hrun.invariant (fun _ _ _ hs _ hstep => hs.step hstep) h

end

/-- When the kernel has started. -/
theorem paged_start {bootInfo : BootInfo} {vmm vmm' : VirtualMemoryManager} {m m' : Machine} {imageSize : ℕ}
    (h : InImage (MemoryUtil.init bootInfo) vmm imageSize)
    (hok : initVirtualMemoryManager (MemoryUtil.init bootInfo) vmm bootInfo m = (true, vmm', m'))
    (pmm : PhysicalMemoryManager) (vma : VirtualMemoryAllocator) :
    Paged (MemoryUtil.init bootInfo) ⟨m', vmm', pmm, vma⟩ := by
  obtain ⟨hL, hT, hcr3, -⟩ := initVirtualMemoryManager_maps h hok
  exact ⟨hL, hT, hcr3⟩

end EagleOS.Memory
