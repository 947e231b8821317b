import EagleOS.Memory.VirtualMemoryFailures

/-!
# Allocate, then free

An allocation takes a run of the virtual allocator's bitmap, frames of the physical allocator's, and maps the
ones to the others. `FreePages` goes another way: it reads the first frame from the page tables, unmaps the
pages, and clears ranges of both bitmaps that it computes from the two addresses. Each step undoes one of the
allocation.

## What is proved

* `freePages_allocatePages` — what the physical allocator gave is given back.
* `lt_of_mapped` — a range that could be mapped is shorter than the address space.
* `allocate_free_identity` — freeing what was just allocated leaves everything as it was.
-/

namespace EagleOS.Memory

open ESTD Boot Foundations Arch VirtualMemoryManager VirtualMemoryAllocator

/-- What `AllocatePages` gave is given back: the frames that were taken were free, and where none were taken none
are given back. -/
theorem PhysicalMemoryManager.freePages_allocatePages (pmm : PhysicalMemoryManager) (n : SizeT)
    (h : (pmm.allocatePages n).1 ≠ 0) :
    ((pmm.allocatePages n).2.freePages (pmm.allocatePages n).1 n).bitmap = pmm.bitmap := by
  have hspec := pmm.allocatePages_spec n
  generalize pmm.allocatePages n = r at hspec h
  have hT : trackedPages = 131072 := rfl
  cases hspec with
  | none => exact absurd rfl h
  | @found q _ hq _ =>
    have hq' := hq.1
    have hqn : (BitVec.ofNat 32 q).toNat = q := ofNat_toNat_of_lt (by omega)
    rw [freePages, if_neg h]
    change (pmm.bitmap.setBits _ n).clearBits (pmm.addressToPageNumber _) n = _
    rw [addressToPageNumber_pageNumberToAddress _ (by omega)]
    refine Bitmap.clearBits_setBits trackedPages_lt fun i hi hi' _ => ?_
    rw [hqn] at hi hi'
    exact hq.2 i hi hi'
  | @short q _ hq hlong _ _ =>
    have hqn : (BitVec.ofNat 32 q).toNat = q := ofNat_toNat_of_lt (by omega)
    rw [freePages, if_neg h]
    change pmm.bitmap.clearBits (pmm.addressToPageNumber _) n = _
    rw [addressToPageNumber_pageNumberToAddress _ (by omega), Bitmap.clearBits, Bitmap.forBits_of_lt]
    rwa [hqn]

/-- The page number of a page's address. -/
theorem VirtualMemoryAllocator.addressToPageNumber_pageNumberToAddress (vma : VirtualMemoryAllocator) {p : SizeT}
    (hp : p.toNat < 2 ^ 20) : vma.addressToPageNumber (vma.pageNumberToAddress p) = p := by
  apply BitVec.eq_of_toNat_eq
  rw [addressToPageNumber, pageNumberToAddress, BitVec.add_comm, BitVec.add_sub_cancel, vma.pageSize_eq,
    BitVec.toNat_udiv, BitVec.toNat_mul, show (4096#32).toNat = 4096 from rfl]
  omega

/-- The virtual allocator's bits that were set were unset, as far as the bitmap has them. -/
theorem VirtualMemoryAllocator.clearBits_taken {vma : VirtualMemoryAllocator} {p : ℕ} {n : SizeT}
    (hp : vma.bitmap.UnsetFrom p n.toNat) :
    (vma.bitmap.setBits (BitVec.ofNat 32 p) n).clearBits
      (vma.addressToPageNumber (vma.pageNumberToAddress (BitVec.ofNat 32 p))) n = vma.bitmap := by
  have hlt : p < 131072 := hp.1
  have hpn : (BitVec.ofNat 32 p).toNat = p := PhysicalMemoryManager.ofNat_toNat_of_lt (by omega)
  rw [vma.addressToPageNumber_pageNumberToAddress (by omega)]
  refine Bitmap.clearBits_setBits trackedPages_lt fun i hi hi' hiT => ?_
  rw [hpn] at hi hi'
  exact hp.2 i hi hi' hiT

section

variable {util : MemoryUtil} {k k' : Kernel} {v : VirtualAddress} {p : PhysicalAddress} {n : SizeT} {machine : Machine}

/-- A range that could be mapped does not come around to where it started: there is no table for the addresses
from 4 MB on. -/
theorem Paged.lt_of_mapped (h : Paged util k) (hmap : k.vmm.mapRange util k.machine v p true n = (true, machine)) :
    n.toNat ≤ 2 ^ 20 := by
  have hspec := mapRange_spec h.layout h.tables v p true n
  rw [hmap] at hspec
  by_contra hlong
  -- some page of the range is the one at 4 MB
  have hi : (2 ^ 32 + 0x400000 - v.toNat) % 2 ^ 32 / 4096 < n.toNat := by omega
  obtain ⟨hal, -, hc, -⟩ := hspec.mapped rfl _ hi
  rw [Aligned, pageAt_toNat] at hal
  rw [Covered, pageAt_toNat] at hc
  omega

/-- `GetPhysicalAddress` finds the frame of a page that is mapped. -/
theorem Paged.getPhysicalAddress_of_translate (h : Paged util k) (hv : Aligned v) {w : Bool}
    (hfound : k.translate v = some ⟨p, w⟩) : k.vmm.getPhysicalAddress util k.machine v = p := by
  rw [h.translate_eq] at hfound
  rw [getPhysicalAddress_eq h.layout h.tables, if_pos hv]
  rcases h.tables.entries v with he | ⟨q, hq, he⟩ <;> rw [he] at hfound ⊢
  · simp [decode_zero] at hfound
  · rw [decode_entryFor hq, Option.some.injEq, Translation.mk.injEq] at hfound
    rw [frame_entryFor hq, hfound.1]

/-- What `FreePages` leaves when it succeeds. -/
theorem freePages_eq_returned (hok : (freePages util k v n).1 = true) (hv : v ≠ 0#32) :
    ∃ machine, (freePages util k v n).2 = returned util k machine v n := by
  have houtcome := freePages_outcome util k v n
  generalize freePages util k v n = r at houtcome hok
  cases houtcome with
  | nothing h0 => exact absurd h0 hv
  | stopped => cases hok
  | @freed machine => exact ⟨machine, rfl⟩

/-- `FreePages` of what `AllocatePages` has just returned. -/
theorem Paged.free_allocated (h : Paged util k) (halloc : allocatePages util k n = (v, k')) (hv : v ≠ 0#32) :
    (freePages util k' v n).1 = true ∧ Unchanged k (freePages util k' v n).2 := by
  have hpaged := h.afterAllocatePages n
  obtain ⟨hpages, hothers⟩ := h.allocated (congrArg Prod.fst halloc) hv
  have houtcome := allocatePages_outcome util k n
  rw [halloc] at hpaged hpages hothers houtcome
  cases houtcome with
  | refused => exact absurd rfl hv
  | noFrame => exact absurd rfl hv
  | stopped => exact absurd rfl hv
  | @mapped p machine hn hframe hp _ hmap =>
    have hpos : 0 < n.toNat := Nat.pos_of_ne_zero fun h0 => hn (BitVec.eq_of_toNat_eq h0)
    obtain ⟨hal, -, -, hfirst⟩ := hpages 0 hpos
    rw [pageAt_zero] at hal hfirst
    rw [pageAt_zero] at hfirst
    have hok : (freePages util _ _ n).1 = true := hpaged.freePages_succeeds_of_le hal (h.lt_of_mapped hmap) fun i hi => by
      rw [(hpages i hi).2.2.2]
      exact Option.some_ne_none _
    refine ⟨hok, ?_⟩
    obtain ⟨-, hin, hout⟩ := hpaged.freed hok hv
    have hphysical := hpaged.getPhysicalAddress_of_translate hal hfirst
    obtain ⟨machine', hfreed⟩ := freePages_eq_returned hok hv
    refine ⟨?_, ?_, fun x => ?_⟩
    · rw [hfreed]
      exact clearBits_taken hp
    · rw [hfreed, returned, hphysical]
      exact k.pmm.freePages_allocatePages n hframe
    · by_cases hx : InPages (k.vma.pageNumberToAddress (BitVec.ofNat 32 p)) n.toNat x
      · rw [hin x hx]
        obtain ⟨i, hi, hs⟩ := hx
        rw [← h.translate_congr hs, (hpages i hi).2.2.1]
      · rw [hout x hx, hothers x hx]

end

/-- **Allocate, then free**: once the kernel has started, in every state that calls with any arguments lead to,
freeing the pages that an `AllocatePages(n)` has just returned succeeds, and leaves both bitmaps and every
translation as they were before. -/
theorem allocate_free_identity (bootInfo : BootInfo) (vmm vmm' : VirtualMemoryManager) (m m' : Machine)
    (imageSize : ℕ) (h : InImage (MemoryUtil.init bootInfo) vmm imageSize)
    (hok : initVirtualMemoryManager (MemoryUtil.init bootInfo) vmm bootInfo m = (true, vmm', m'))
    (pmm : PhysicalMemoryManager) (k : Kernel)
    (hrun : Runs (KernelStep (MemoryUtil.init bootInfo)) ⟨m', vmm', pmm, (initVirtualMemoryAllocator bootInfo).2⟩ k)
    (n : SizeT) (v : VirtualAddress) (k' : Kernel)
    (halloc : allocatePages (MemoryUtil.init bootInfo) k n = (v, k')) (hv : v ≠ 0#32) :
    (freePages (MemoryUtil.init bootInfo) k' v n).1 = true ∧
      Unchanged k (freePages (MemoryUtil.init bootInfo) k' v n).2 :=
  ((paged_start h hok pmm (initVirtualMemoryAllocator bootInfo).2).runs hrun).free_allocated halloc hv

/-- A page is allocated and freed, on the machine with 512 MB. -/
theorem allocate_free_identity_vmm512 :
    ∃ vmm' m' k', initVirtualMemoryManager (MemoryUtil.init bootInfo512) vmm512 bootInfo512
        ⟨fun _ => 0#8, 0#32, []⟩ = (true, vmm', m') ∧
      let k : Kernel := ⟨m', vmm', Client.freshAtOneMB, (initVirtualMemoryAllocator bootInfo512).2⟩
      allocatePages (MemoryUtil.init bootInfo512) k 1#32 = (0xC1000000#32, k') ∧
        (freePages (MemoryUtil.init bootInfo512) k' 0xC1000000#32 1#32).1 = true ∧
        Unchanged k (freePages (MemoryUtil.init bootInfo512) k' 0xC1000000#32 1#32).2 := by
  obtain ⟨vmm', m', hok, halloc, -⟩ := VirtualClient.exists_start_vmm512 (n := 1#32) (by decide) (by decide)
  refine ⟨vmm', m', (allocatePages (MemoryUtil.init bootInfo512)
    ⟨m', vmm', Client.freshAtOneMB, (initVirtualMemoryAllocator bootInfo512).2⟩ 1#32).2, hok, Prod.ext halloc rfl, ?_⟩
  exact allocate_free_identity bootInfo512 vmm512 vmm' _ m' _ inImage_vmm512 hok Client.freshAtOneMB _ .refl 1#32
    0xC1000000#32 _ (Prod.ext halloc rfl) (by decide)

end EagleOS.Memory
