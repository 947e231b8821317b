import EagleOS.Memory.KernelTables
import EagleOS.Memory.PhysicalMemoryManager

/-!
# `VirtualMemoryAllocator`

The virtual page allocator: a bitmap of virtual pages, over the physical allocator and the page tables.
An allocation takes a run of virtual pages from the bitmap, a run of frames from the physical allocator,
and maps the one to the other.

## The model

`Kernel` is the three objects and the machine. `AllocatePages` keeps the bits of an allocation that could
not be mapped, and what was mapped of it; `FreePages` tests `address` where it means to test the frame.
Both are as in the source.

## What is proved

* `allocatePages_outcome`, `freePages_outcome` — the ways the calls end.
* `allocatePages_result`, `freePages_result` — all that they can do to the page tables.
* `allocatePages_address` — what `AllocatePages` returns.
-/

namespace EagleOS.Memory

open ESTD Boot Foundations Arch VirtualMemoryManager

/-- `VirtualMemoryAllocator`. -/
structure VirtualMemoryAllocator where
  /-- `m_PageSize`. -/
  pageSize : SizeT
  /-- `m_MemorySizeBytes`. -/
  memorySizeBytes : SizeT
  /-- `m_PageCount`. -/
  pageCount : SizeT
  /-- `m_StartAddress`. -/
  startAddress : VirtualAddress
  /-- `m_EndAddress`. -/
  endAddress : VirtualAddress
  /-- `m_Bitmap`. -/
  bitmap : Bitmap trackedPages
  /-- The page size that `Init` stores. -/
  pageSize_eq : pageSize = 4096#32

/-- The objects of the memory managers, and the machine. -/
structure Kernel where
  /-- The machine. -/
  machine : Machine
  /-- `g_KernelVMM`. -/
  vmm : VirtualMemoryManager
  /-- `g_KernelPMM`. -/
  pmm : PhysicalMemoryManager
  /-- `g_KernelVMA`. -/
  vma : VirtualMemoryAllocator

namespace VirtualMemoryAllocator

/-- `AddressToPageNumber`. -/
def addressToPageNumber (vma : VirtualMemoryAllocator) (address : VirtualAddress) : SizeT :=
  (address - vma.startAddress) / vma.pageSize

/-- `PageNumberToAddress`. -/
def pageNumberToAddress (vma : VirtualMemoryAllocator) (pageNumber : SizeT) : VirtualAddress :=
  vma.startAddress + pageNumber * vma.pageSize

/-- `Init`. -/
def init (startAddress : VirtualAddress) (size : SizeT) : Bool × VirtualMemoryAllocator :=
  let endAddress := startAddress + size
  (true,
    { pageSize := 4096#32
      memorySizeBytes := endAddress - startAddress
      pageCount := (endAddress - startAddress) / 4096#32
      startAddress
      endAddress
      bitmap := Bitmap.resetAll
      pageSize_eq := pageSize_stored })

variable (util : MemoryUtil)

/-- `AllocatePages`. -/
def allocatePages (k : Kernel) (pageCount : SizeT) : VirtualAddress × Kernel :=
  if pageCount = 0#32 then (0#32, k)
  else
    let firstPage := k.vma.bitmap.findUnsetBits pageCount
    if firstPage < 0 then (0#32, k)
    else
      match k.pmm.allocatePages pageCount with
      | (paddr, pmm) =>
        let k := { k with pmm := pmm }
        if paddr = 0#32 then (0#32, k)
        else
          let vma := { k.vma with bitmap := k.vma.bitmap.setBits (BitVec.ofInt 32 firstPage) pageCount }
          let k := { k with vma := vma }
          let vaddr := k.vma.pageNumberToAddress (BitVec.ofInt 32 firstPage)
          match k.vmm.mapRange util k.machine vaddr paddr true pageCount with
          -- the bits stay set, and what was mapped stays mapped
          | (false, machine) => (0#32, { k with machine := machine })
          | (true, machine) => (vaddr, { k with machine := machine })

/-- `FreePages`. -/
def freePages (k : Kernel) (address : VirtualAddress) (pageCount : SizeT) : Bool × Kernel :=
  if address = 0#32 then (true, k)
  else
    let physicalAddress := k.vmm.getPhysicalAddress util k.machine address
    -- the source tests `address` again, and not the frame
    if address = 0#32 then (false, k)
    else
      match k.vmm.unmapRange util k.machine address pageCount with
      | (false, machine) => (false, { k with machine := machine })
      | (true, machine) =>
        let k := { k with machine := machine.emit (.giveBack address physicalAddress pageCount) }
        let k := { k with pmm := k.pmm.freePages physicalAddress pageCount }
        let bitmap := k.vma.bitmap.clearBits (k.vma.addressToPageNumber address) pageCount
        (true, { k with vma := { k.vma with bitmap := bitmap } })

/-- `ReservePages`. -/
def reservePages (k : Kernel) (address : VirtualAddress) (pageCount : SizeT) : Kernel :=
  { k with vma := { k.vma with bitmap := k.vma.bitmap.setBits (k.vma.addressToPageNumber address) pageCount } }

end VirtualMemoryAllocator

/-- A call of the allocator. -/
inductive AllocatorCall where
  /-- `AllocatePages(pageCount)`. -/
  | allocatePages (pageCount : SizeT)
  /-- `FreePages(address, pageCount)`. -/
  | freePages (address : VirtualAddress) (pageCount : SizeT)
  /-- `ReservePages(address, pageCount)`. -/
  | reservePages (address : VirtualAddress) (pageCount : SizeT)
  deriving DecidableEq

/-- The kernel after a call. -/
def AllocatorCall.apply (util : MemoryUtil) (k : Kernel) : AllocatorCall → Kernel
  | .allocatePages n => (VirtualMemoryAllocator.allocatePages util k n).2
  | .freePages v n => (VirtualMemoryAllocator.freePages util k v n).2
  | .reservePages v n => VirtualMemoryAllocator.reservePages k v n

/-- `InitVirtualMemoryAllocator` (`Kernel.cpp`). -/
def initVirtualMemoryAllocator (bootInfo : BootInfo) : Bool × VirtualMemoryAllocator :=
  let kernelVMAStartAddress := bootInfo.kernelVirtualStartAddress + 4096#32 * 1024#32 * 4#32
  let kernelVMASize := 0xFFFFFFFF#32 - kernelVMAStartAddress
  VirtualMemoryAllocator.init kernelVMAStartAddress kernelVMASize

/-! ### What the calls can do -/

namespace VirtualMemoryAllocator

variable {util : MemoryUtil}

/-- Page `p` of the window. -/
theorem pageNumberToAddress_eq_pageAt (vma : VirtualMemoryAllocator) (p : ℕ) :
    vma.pageNumberToAddress (BitVec.ofNat 32 p) = pageAt vma.startAddress p := by
  rw [pageNumberToAddress, pageAt, vma.pageSize_eq, BitVec.mul_comm]

/-- The kernel once frames for `n` pages, and the bits of `n` pages from page `p` on, are taken. -/
def taken (k : Kernel) (p : ℕ) (n : SizeT) : Kernel :=
  { k with
    pmm := (k.pmm.allocatePages n).2
    vma := { k.vma with bitmap := k.vma.bitmap.setBits (BitVec.ofNat 32 p) n } }

/-- The ways `AllocatePages` ends. -/
inductive AllocateOutcome (util : MemoryUtil) (k : Kernel) (n : SizeT) : VirtualAddress × Kernel → Prop
  /-- No page is asked for, or the bitmap has no place. -/
  | refused : n = 0#32 ∨ (∀ q, ¬ k.vma.bitmap.UnsetFrom q n.toNat) → AllocateOutcome util k n (0#32, k)
  /-- The physical allocator returns 0. -/
  | noFrame : n ≠ 0#32 → (k.pmm.allocatePages n).1 = 0#32 →
      AllocateOutcome util k n (0#32, { k with pmm := (k.pmm.allocatePages n).2 })
  /-- A page could not be mapped: the bits stay set, and what was mapped stays mapped. -/
  | stopped {p : ℕ} {machine : Machine} : n ≠ 0#32 → (k.pmm.allocatePages n).1 ≠ 0#32 →
      k.vmm.mapRange util k.machine (k.vma.pageNumberToAddress (BitVec.ofNat 32 p)) (k.pmm.allocatePages n).1 true n =
        (false, machine) → AllocateOutcome util k n (0#32, { taken k p n with machine := machine })
  /-- The first place of the bitmap is mapped. -/
  | mapped {p : ℕ} {machine : Machine} : n ≠ 0#32 → (k.pmm.allocatePages n).1 ≠ 0#32 →
      k.vma.bitmap.UnsetFrom p n.toNat → (∀ q < p, ¬ k.vma.bitmap.UnsetFrom q n.toNat) →
      k.vmm.mapRange util k.machine (k.vma.pageNumberToAddress (BitVec.ofNat 32 p)) (k.pmm.allocatePages n).1 true n =
        (true, machine) →
      AllocateOutcome util k n (k.vma.pageNumberToAddress (BitVec.ofNat 32 p), { taken k p n with machine := machine })

theorem allocatePages_outcome (util : MemoryUtil) (k : Kernel) (n : SizeT) :
    AllocateOutcome util k n (allocatePages util k n) := by
  unfold allocatePages
  by_cases hn : n = 0#32
  · rw [if_pos hn]
    exact .refused (.inl hn)
  have hpos : 0 < n.toNat := Nat.pos_of_ne_zero fun h0 => hn (BitVec.eq_of_toNat_eq h0)
  rw [if_neg hn]
  have hfirst : _ ∨ ∃ p : ℕ, k.vma.bitmap.findUnsetBits n = p ∧ _ := Bitmap.findUnsetBits_first (by decide) hpos
  rcases hfirst with ⟨hfind, hno⟩ | ⟨p, hfind, hp, hmin⟩
  · simp only [hfind, if_pos (show (-1 : ℤ) < 0 by decide)]
    exact .refused (.inr hno)
  simp only [hfind, BitVec.ofInt_natCast, if_neg (not_lt.mpr (Int.natCast_nonneg p))]
  by_cases hframe : (k.pmm.allocatePages n).1 = 0#32
  · simp only [if_pos hframe]
    exact .noFrame hn hframe
  simp only [if_neg hframe]
  split
  · rename_i machine hmap
    exact .stopped (p := p) hn hframe hmap
  · rename_i machine hmap
    exact .mapped hn hframe hp hmin hmap

/-- All that `AllocatePages` can do to the page tables. -/
inductive AllocateResult (util : MemoryUtil) (k : Kernel) (n : SizeT) : VirtualAddress × Kernel → Prop
  /-- It does not get to map anything. -/
  | refused {k' : Kernel} : k'.machine = k.machine → k'.vmm = k.vmm → AllocateResult util k n (0#32, k')
  /-- A page could not be mapped. -/
  | stopped {v : VirtualAddress} {machine : Machine} {k' : Kernel} :
      k.vmm.mapRange util k.machine v (k.pmm.allocatePages n).1 true n = (false, machine) →
      k'.machine = machine → k'.vmm = k.vmm → AllocateResult util k n (0#32, k')
  /-- The frames that the physical allocator gave are mapped. -/
  | mapped {v : VirtualAddress} {machine : Machine} {k' : Kernel} : n ≠ 0#32 →
      k.vmm.mapRange util k.machine v (k.pmm.allocatePages n).1 true n = (true, machine) →
      k'.machine = machine → k'.vmm = k.vmm → AllocateResult util k n (v, k')

theorem allocatePages_result (util : MemoryUtil) (k : Kernel) (n : SizeT) :
    AllocateResult util k n (allocatePages util k n) := by
  have houtcome := allocatePages_outcome util k n
  generalize allocatePages util k n = r at houtcome
  cases houtcome with
  | refused => exact .refused rfl rfl
  | noFrame => exact .refused rfl rfl
  | stopped _ _ hmap => exact .stopped hmap rfl rfl
  | mapped hn _ _ _ hmap => exact .mapped hn hmap rfl rfl

/-- What `AllocatePages` has taken when it returns an address: the first place of the bitmap. -/
theorem allocatePages_taken {k : Kernel} {n : SizeT} (h : (allocatePages util k n).1 ≠ 0#32) :
    ∃ p machine, k.vma.bitmap.UnsetFrom p n.toNat ∧ (∀ q < p, ¬ k.vma.bitmap.UnsetFrom q n.toNat) ∧
      allocatePages util k n = (k.vma.pageNumberToAddress (BitVec.ofNat 32 p), { taken k p n with machine := machine }) := by
  have houtcome := allocatePages_outcome util k n
  generalize allocatePages util k n = r at houtcome h
  cases houtcome with
  | refused => exact absurd rfl h
  | noFrame => exact absurd rfl h
  | stopped => exact absurd rfl h
  | @mapped p machine _ _ hp hmin _ => exact ⟨p, machine, hp, hmin, rfl⟩

/-- What `AllocatePages` returns, when it returns an address: the page that the search found. -/
theorem allocatePages_address {k : Kernel} {n : SizeT} (h : (allocatePages util k n).1 ≠ 0#32) :
    ∃ p, k.vma.bitmap.UnsetFrom p n.toNat ∧ (∀ q < p, ¬ k.vma.bitmap.UnsetFrom q n.toNat) ∧
      (allocatePages util k n).1 = k.vma.pageNumberToAddress (BitVec.ofNat 32 p) := by
  obtain ⟨p, machine, hp, hmin, heq⟩ := allocatePages_taken h
  exact ⟨p, hp, hmin, congrArg Prod.fst heq⟩

/-- `AllocatePages` takes the first run of the bitmap when there are frames for it and its pages are not
mapped. -/
theorem allocatePages_found {k : Kernel} {n : SizeT} {p : ℕ} {v : VirtualAddress} (hL : Layout util k.vmm)
    (hT : Tables util k.vmm k.machine.mem) (hn : 0 < n.toNat) (hp : k.vma.bitmap.Unset p n.toNat)
    (hmin : ∀ q < p, ¬ k.vma.bitmap.Unset q n.toNat) (hv : k.vma.pageNumberToAddress (BitVec.ofNat 32 p) = v)
    (hframe : (k.pmm.allocatePages n).1 ≠ 0#32) (hpal : Aligned (k.pmm.allocatePages n).1) (hal : Aligned v)
    (hend : v.toNat + 4096 * n.toNat ≤ 2 ^ 32)
    (hfree : ∀ i < n.toNat, Covered (pageAt v i) ∧ k.vmm.entryAt util k.machine.mem (pageAt v i) = 0#32) :
    (allocatePages util k n).1 = v := by
  subst hv
  have hn0 : n ≠ 0#32 := by rintro rfl; exact absurd hn (by decide)
  have hmap : (k.vmm.mapRange util k.machine (k.vma.pageNumberToAddress (BitVec.ofNat 32 p)) (k.pmm.allocatePages n).1
      true n).1 = true := mapRange_succeeds hL hT hal hpal hend hfree
  rw [allocatePages, if_neg hn0, Bitmap.findUnsetBits_found (by decide) hn hp hmin]
  simp only [if_neg hframe, BitVec.ofInt_natCast, if_neg (not_lt.mpr (Int.natCast_nonneg p))]
  split
  · rename_i hmap'
    exact absurd (hmap.symm.trans (congrArg Prod.fst hmap')) (by simp)
  · rfl

/-- The kernel once `FreePages` has unmapped the pages: their frames and bits are given back. -/
def returned (util : MemoryUtil) (k : Kernel) (machine : Machine) (v : VirtualAddress) (n : SizeT) : Kernel :=
  { k with
    machine := machine.emit (.giveBack v (k.vmm.getPhysicalAddress util k.machine v) n)
    pmm := k.pmm.freePages (k.vmm.getPhysicalAddress util k.machine v) n
    vma := { k.vma with bitmap := k.vma.bitmap.clearBits (k.vma.addressToPageNumber v) n } }

/-- The ways `FreePages` ends. -/
inductive FreeOutcome (util : MemoryUtil) (k : Kernel) (v : VirtualAddress) (n : SizeT) : Bool × Kernel → Prop
  /-- There is nothing to free. -/
  | nothing : v = 0#32 → FreeOutcome util k v n (true, k)
  /-- A page could not be unmapped. -/
  | stopped {machine : Machine} : k.vmm.unmapRange util k.machine v n = (false, machine) →
      FreeOutcome util k v n (false, { k with machine := machine })
  /-- The pages are unmapped, and what they took is given back. -/
  | freed {machine : Machine} : k.vmm.unmapRange util k.machine v n = (true, machine) →
      FreeOutcome util k v n (true, returned util k machine v n)

theorem freePages_outcome (util : MemoryUtil) (k : Kernel) (v : VirtualAddress) (n : SizeT) :
    FreeOutcome util k v n (freePages util k v n) := by
  unfold freePages
  by_cases hv : v = 0#32
  · rw [if_pos hv]
    exact .nothing hv
  simp only [if_neg hv]
  split
  · rename_i machine hunmap
    exact .stopped hunmap
  · rename_i machine hunmap
    exact .freed hunmap

/-- All that `FreePages` can do to the page tables. -/
inductive FreeResult (util : MemoryUtil) (k : Kernel) (v : VirtualAddress) (n : SizeT) : Bool × Kernel → Prop
  /-- There is nothing to free. -/
  | nothing : v = 0#32 → FreeResult util k v n (true, k)
  /-- A page could not be unmapped. -/
  | stopped {machine : Machine} {k' : Kernel} : k.vmm.unmapRange util k.machine v n = (false, machine) →
      k'.machine = machine → k'.vmm = k.vmm → FreeResult util k v n (false, k')
  /-- The pages are unmapped, and then the frames are given back. -/
  | freed {machine : Machine} {k' : Kernel} : k.vmm.unmapRange util k.machine v n = (true, machine) →
      k'.machine = machine.emit (.giveBack v (k.vmm.getPhysicalAddress util k.machine v) n) → k'.vmm = k.vmm →
      FreeResult util k v n (true, k')

theorem freePages_result (util : MemoryUtil) (k : Kernel) (v : VirtualAddress) (n : SizeT) :
    FreeResult util k v n (freePages util k v n) := by
  have houtcome := freePages_outcome util k v n
  generalize freePages util k v n = r at houtcome
  cases houtcome with
  | nothing hv => exact .nothing hv
  | stopped hunmap => exact .stopped hunmap rfl rfl
  | freed hunmap => exact .freed hunmap rfl rfl

/-- The allocator's window does not move. -/
theorem startAddress_apply (k : Kernel) (c : AllocatorCall) : (c.apply util k).vma.startAddress = k.vma.startAddress := by
  cases c with
  | allocatePages n =>
    have houtcome := allocatePages_outcome util k n
    rw [AllocatorCall.apply]
    generalize allocatePages util k n = r at houtcome
    cases houtcome <;> rfl
  | freePages v n =>
    have houtcome := freePages_outcome util k v n
    rw [AllocatorCall.apply]
    generalize freePages util k v n = r at houtcome
    cases houtcome <;> rfl
  | reservePages v n => rfl

end VirtualMemoryAllocator

end EagleOS.Memory
