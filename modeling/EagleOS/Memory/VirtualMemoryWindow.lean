import EagleOS.Memory.KernelCalls

/-!
# The window of the virtual allocator

`Init` is given a window of addresses, and computes its end and its page count. `AllocatePages` uses
neither: it searches a bitmap of 131072 pages, whatever the window is.

## What is proved

* `allocations_in_window_iff` — an allocation lies in the window exactly when there was a place for it
  there.
* `allocation_past_window` — a window of one page gives two.
-/

namespace EagleOS.Memory

open ESTD Boot Foundations VirtualMemoryAllocator

/-- The `n` pages at `v` lie in the window of `size` bytes at `startAddress`. -/
def InWindow (startAddress : VirtualAddress) (size : SizeT) (v : VirtualAddress) (n : SizeT) : Prop :=
  startAddress.toNat ≤ v.toNat ∧ v.toNat + 4096 * n.toNat ≤ startAddress.toNat + size.toNat

/-- There is a place for `n` pages in the window: pages that are not allocated, `n` of them or as many as
the bitmap has, none of which is past the window's last page or the end of the address space. -/
def HasPlace (startAddress : VirtualAddress) (size : SizeT) (bitmap : Bitmap trackedPages) (n : SizeT) : Prop :=
  ∃ p, bitmap.UnsetFrom p n.toNat ∧ startAddress.toNat + 4096 * p < 2 ^ 32 ∧ 4096 * (p + n.toNat) ≤ size.toNat

/-- A page of the bitmap lies in the window when its address does not wrap and it ends within the size. -/
theorem inWindow_page_iff {vma : VirtualMemoryAllocator} {size n : SizeT} {p : ℕ} (hp : p < trackedPages) :
    InWindow vma.startAddress size (vma.pageNumberToAddress (BitVec.ofNat 32 p)) n ↔
      vma.startAddress.toNat + 4096 * p < 2 ^ 32 ∧ 4096 * (p + n.toNat) ≤ size.toNat := by
  have hbound : p < 131072 := hp
  rw [InWindow, vma.pageNumberToAddress_toNat]
  omega

/-- **The window**: after `Init(startAddress, size)`, in every state that calls with any arguments lead to,
an address that `AllocatePages(n)` returns lies in the window with its `n` pages exactly when the window
had a place for them. -/
theorem allocations_in_window_iff (util : MemoryUtil) (startAddress : VirtualAddress) (size : SizeT) (k s : Kernel)
    (hinit : k.vma = (VirtualMemoryAllocator.init startAddress size).2) (hrun : Runs (KernelStep util) k s)
    (n : SizeT) (hv : (allocatePages util s n).1 ≠ 0#32) :
    InWindow startAddress size (allocatePages util s n).1 n ↔ HasPlace startAddress size s.vma.bitmap n := by
  have hstart : s.vma.startAddress = startAddress := by rw [startAddress_of_runs hrun, hinit]; rfl
  obtain ⟨p, hp, hmin, hpage⟩ := allocatePages_address hv
  rw [hpage, ← hstart, inWindow_page_iff hp.1]
  constructor
  · rintro ⟨hwrap, hend⟩
    exact ⟨p, hp, hwrap, hend⟩
  · rintro ⟨q, hq, hwrap, hend⟩
    -- the search found the first place, so this one is not before it
    have hpq : p ≤ q := Nat.le_of_not_lt fun hlt => hmin q hlt hq
    omega

/-- The kernel's own window has a place for two pages. -/
theorem allocations_in_window_iff_vmm512 :
    ∃ vmm' m', initVirtualMemoryManager (MemoryUtil.init bootInfo512) vmm512 bootInfo512
        ⟨fun _ => 0#8, 0#32, []⟩ = (true, vmm', m') ∧
      let k : Kernel := ⟨m', vmm', Client.freshAtOneMB, (VirtualMemoryAllocator.init 0xC1000000#32 0x3EFFF000#32).2⟩
      (allocatePages (MemoryUtil.init bootInfo512) k 2#32).1 ≠ 0#32 ∧
        InWindow 0xC1000000#32 0x3EFFF000#32 (allocatePages (MemoryUtil.init bootInfo512) k 2#32).1 2#32 := by
  obtain ⟨vmm', m', hok, halloc, -, -⟩ := @VirtualClient.exists_start_vmm512_of
    (VirtualMemoryAllocator.init 0xC1000000#32 0x3EFFF000#32).2 rfl rfl 2#32 (by decide) (by decide)
  refine ⟨vmm', m', hok, ?_⟩
  intro k
  have hne : (allocatePages (MemoryUtil.init bootInfo512) k 2#32).1 ≠ 0#32 := by rw [halloc]; decide
  refine ⟨hne, (allocations_in_window_iff _ 0xC1000000#32 0x3EFFF000#32 k k rfl .refl 2#32 hne).mpr ?_⟩
  exact ⟨0, ⟨by decide, fun i _ _ _ => Bitmap.bit_resetAll i⟩, by decide, by decide⟩

/-- A window of one page gives two: the second is past its end. -/
theorem allocation_past_window :
    ∃ vmm' m', initVirtualMemoryManager (MemoryUtil.init bootInfo512) vmm512 bootInfo512
        ⟨fun _ => 0#8, 0#32, []⟩ = (true, vmm', m') ∧
      let k : Kernel := ⟨m', vmm', Client.freshAtOneMB, (VirtualMemoryAllocator.init 0xC1000000#32 4096#32).2⟩
      (allocatePages (MemoryUtil.init bootInfo512) k 2#32).1 = 0xC1000000#32 ∧
        ¬ InWindow 0xC1000000#32 4096#32 (allocatePages (MemoryUtil.init bootInfo512) k 2#32).1 2#32 := by
  obtain ⟨vmm', m', hok, halloc, -, -⟩ := @VirtualClient.exists_start_vmm512_of
    (VirtualMemoryAllocator.init 0xC1000000#32 4096#32).2 rfl rfl 2#32 (by decide) (by decide)
  refine ⟨vmm', m', hok, halloc, ?_⟩
  rw [halloc, InWindow]
  decide

end EagleOS.Memory
