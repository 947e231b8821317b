import Mathlib.Data.List.Pairwise
import EagleOS.Foundations.Run
import EagleOS.Memory.PhysicalMemoryClients
import EagleOS.Memory.VirtualMemoryAllocator

/-!
# Clients of the virtual page allocator

A client allocates any count of pages, and frees what it holds, each allocation once and with its own
count. The bitmap alone does not keep its allocations apart: it returns a run that is too short when
there is no other. What keeps them apart is that `Map` refuses a page that is mapped.

## The model

`VirtualClient` is the kernel together with the live allocations, each with the frame that the physical
allocator gave for it. Between the calls anybody may store to memory outside the page tables and use the
physical allocator.

## What is proved

* `VirtualClient.Inv.step` — live allocations stay mapped page for page, apart from each other and from
  what the kernel mapped at its start.
* `virtual_allocations_exclusive` — what this says after `InitVirtualMemoryManager` and
  `InitVirtualMemoryAllocator`.
-/

namespace EagleOS.Memory

open ESTD Boot Foundations Arch VirtualMemoryManager

/-- A live allocation. -/
structure VirtualAllocation where
  /-- The address that `AllocatePages` returned. -/
  virtualAddress : VirtualAddress
  /-- The page count it was asked for. -/
  pageCount : SizeT
  /-- The frame that the physical allocator returned for it. -/
  frame : PhysicalAddress
  deriving DecidableEq

/-- The addresses of an allocation. -/
def VirtualAllocation.bytes (x : VirtualAllocation) : Set VirtualAddress := Span x.virtualAddress (4096 * x.pageCount.toNat)

/-- The kernel, and what a client holds. -/
structure VirtualClient where
  /-- The kernel. -/
  kernel : Kernel
  /-- The live allocations. -/
  live : List VirtualAllocation

/-- What happens. -/
inductive VirtualCall where
  /-- `AllocatePages(pageCount)`. -/
  | allocatePages (pageCount : SizeT)
  /-- `FreePages(virtualAddress, pageCount)`. -/
  | freePages (virtualAddress : VirtualAddress) (pageCount : SizeT)
  /-- Something else in the kernel. -/
  | other

namespace VirtualClient

/-- After `AllocatePages(n)`: a result other than 0 is live. -/
def allocated (util : MemoryUtil) (s : VirtualClient) (n : SizeT) : VirtualClient :=
  ⟨(VirtualMemoryAllocator.allocatePages util s.kernel n).2,
    if (VirtualMemoryAllocator.allocatePages util s.kernel n).1 = 0#32 then s.live
    else ⟨(VirtualMemoryAllocator.allocatePages util s.kernel n).1, n, (s.kernel.pmm.allocatePages n).1⟩ :: s.live⟩

/-- After `FreePages` of the live allocation `x`. -/
def freed (util : MemoryUtil) (s : VirtualClient) (x : VirtualAllocation) : VirtualClient :=
  ⟨(VirtualMemoryAllocator.freePages util s.kernel x.virtualAddress x.pageCount).2, s.live.erase x⟩

/-- A memory with the same page tables. -/
def SameTables (util : MemoryUtil) (vmm : VirtualMemoryManager) (mem mem' : Foundations.Memory) : Prop :=
  ∀ v, vmm.directoryWord util mem' v = vmm.directoryWord util mem v ∧ vmm.entryAt util mem' v = vmm.entryAt util mem v

/-- Then they are in order too. -/
theorem SameTables.tables {util : MemoryUtil} {vmm : VirtualMemoryManager} {mem mem' : Foundations.Memory}
    (h : SameTables util vmm mem mem') (hT : Tables util vmm mem) : Tables util vmm mem' := by
  refine ⟨fun v hv => ?_, fun v hv => ?_, fun v hv => ?_, fun v => ?_⟩
  · rw [(h v).1]; exact hT.uncovered v hv
  · rw [(h v).1]; exact hT.linked v hv
  · rw [(h v).1] at hv
    rw [(h v).2]
    exact hT.unlinked v hv
  · rw [(h v).2]; exact hT.entries v

/-- A client frees only what is live, once and with its own count; in between, anybody may store
outside the page tables and use the physical allocator. -/
inductive Step (util : MemoryUtil) : VirtualClient → VirtualCall → VirtualClient → Prop
  /-- Any count may be asked for. -/
  | allocatePages {s : VirtualClient} {n : SizeT} : Step util s (.allocatePages n) (s.allocated util n)
  /-- Only a live allocation is freed. -/
  | freePages {s : VirtualClient} {x : VirtualAllocation} : x ∈ s.live →
      Step util s (.freePages x.virtualAddress x.pageCount) (s.freed util x)
  /-- The page tables stay as they are. -/
  | other {s : VirtualClient} {mem : Foundations.Memory} {pmm : PhysicalMemoryManager} :
      SameTables util s.kernel.vmm s.kernel.machine.mem mem →
      Step util s .other ⟨{ s.kernel with machine := { s.kernel.machine with mem := mem }, pmm := pmm }, s.live⟩

/-- An allocation is mapped, page for page, to the frames it was given. -/
structure Mapped (util : MemoryUtil) (k : Kernel) (x : VirtualAllocation) : Prop where
  /-- It has a page. -/
  nonempty : 0 < x.pageCount.toNat
  /-- It starts at a page. -/
  aligned : Aligned x.virtualAddress
  /-- It does not pass the end of the address space. -/
  fits : x.virtualAddress.toNat + 4096 * x.pageCount.toNat ≤ 2 ^ 32
  /-- Its pages have the frames' entries. -/
  entries : ∀ i < x.pageCount.toNat, Aligned (pageAt x.frame i) ∧
    k.vmm.entryAt util k.machine.mem (pageAt x.virtualAddress i) = entryFor (pageAt x.frame i)

/-- What holds in every state a client reaches. -/
structure Inv (util : MemoryUtil) (s : VirtualClient) : Prop where
  /-- The tables lie where they should. -/
  layout : Layout util s.kernel.vmm
  /-- The tables are in order. -/
  tables : Tables util s.kernel.vmm s.kernel.machine.mem
  /-- The directory is in use. -/
  cr3 : s.kernel.machine.cr3 = s.kernel.vmm.directoryAddress util
  /-- What the kernel mapped at its start is mapped. -/
  start : ∀ i < 1024, s.kernel.vmm.entryAt util s.kernel.machine.mem (pageAt 0#32 i) ≠ 0#32 ∧
    s.kernel.vmm.entryAt util s.kernel.machine.mem (pageAt 0xC0000000#32 i) ≠ 0#32
  /-- Live allocations are mapped. -/
  live : ∀ x ∈ s.live, Mapped util s.kernel x
  /-- They do not meet what the kernel mapped at its start. -/
  clear : ∀ x ∈ s.live, Disjoint x.bytes (Span 0#32 0x400000) ∧ Disjoint x.bytes (Span 0xC0000000#32 0x400000)
  /-- They do not meet each other. -/
  apart : s.live.Pairwise fun x y => Disjoint x.bytes y.bytes

/-! ### Pages and bytes -/

section

variable {util : MemoryUtil} {k : Kernel} {x : VirtualAllocation}

/-- A byte of `n` pages that do not wrap lies in one of them. -/
theorem inPages_of_mem_span {v a : VirtualAddress} {n : ℕ} (hv : Aligned v) (hend : v.toNat + 4096 * n ≤ 2 ^ 32)
    (ha : a ∈ Span v (4096 * n)) : InPages v n a :=
  (inPages_iff hv hend).mpr ((mem_span_iff hend).mp ha)

/-- The word for a byte of an allocation is that of one of its frames. -/
theorem Mapped.entryAt_ne_zero (hL : Layout util k.vmm) (h : Mapped util k x) {a : VirtualAddress} (ha : a ∈ x.bytes) :
    k.vmm.entryAt util k.machine.mem a ≠ 0#32 := by
  obtain ⟨i, hi, hs⟩ := inPages_of_mem_span h.aligned h.fits ha
  rw [← entryAt_congr hL hs, (h.entries i hi).2]
  exact entryFor_ne_zero _

/-- What the kernel mapped at its start covers whole 4 MB. -/
theorem Inv.start_ne_zero {s : VirtualClient} (h : Inv util s) {a : VirtualAddress}
    (ha : a ∈ Span 0#32 0x400000 ∨ a ∈ Span 0xC0000000#32 0x400000) :
    s.kernel.vmm.entryAt util s.kernel.machine.mem a ≠ 0#32 := by
  rcases ha with ha | ha
  · obtain ⟨i, hi, hs⟩ := inPages_of_mem_span (n := 1024) (by decide) (by decide) ha
    rw [← entryAt_congr h.layout hs]
    exact (h.start i hi).1
  · obtain ⟨i, hi, hs⟩ := inPages_of_mem_span (n := 1024) (by decide) (by decide) ha
    rw [← entryAt_congr h.layout hs]
    exact (h.start i hi).2

/-- The addresses of an allocation's pages are addresses of the allocation. -/
theorem pageAt_mem_bytes (h : Mapped util k x) {i : ℕ} (hi : i < x.pageCount.toNat) :
    pageAt x.virtualAddress i ∈ x.bytes := by
  have hfits := h.fits
  rw [VirtualAllocation.bytes, mem_span_iff hfits, pageAt_toNat]
  omega

/-- Live allocations are distinct. -/
theorem Inv.nodup {s : VirtualClient} (h : Inv util s) : s.live.Nodup := by
  refine h.apart.imp_of_mem fun {y z} hy _ hdisj => ?_
  rintro rfl
  have hmem := pageAt_mem_bytes (h.live y hy) (h.live y hy).nonempty
  exact Set.disjoint_left.mp hdisj hmem hmem

/-! ### One step -/

/-- The invariant stays when some of the live allocations are left, and neither their words nor those of
the kernel's start have changed. -/
theorem Inv.keep {s : VirtualClient} (h : Inv util s) {k' : Kernel} {live' : List VirtualAllocation}
    (hsub : live'.Sublist s.live) (hvmm : k'.vmm = s.kernel.vmm) (hT : Tables util s.kernel.vmm k'.machine.mem)
    (hcr3 : k'.machine.cr3 = s.kernel.machine.cr3)
    (hstart : ∀ a, a ∈ Span 0#32 0x400000 ∨ a ∈ Span 0xC0000000#32 0x400000 →
      s.kernel.vmm.entryAt util k'.machine.mem a = s.kernel.vmm.entryAt util s.kernel.machine.mem a)
    (hlive : ∀ y ∈ live', ∀ a ∈ y.bytes,
      s.kernel.vmm.entryAt util k'.machine.mem a = s.kernel.vmm.entryAt util s.kernel.machine.mem a) :
    Inv util ⟨k', live'⟩ := by
  obtain ⟨machine, vmm, pmm, vma⟩ := k'
  obtain rfl := hvmm
  have hpage : ∀ {v : VirtualAddress}, v.toNat + 0x400000 ≤ 2 ^ 32 → ∀ i < 1024, pageAt v i ∈ Span v 0x400000 := by
    intro v hend i hi
    rw [mem_span_iff hend, pageAt_toNat]
    omega
  refine ⟨h.layout, hT, hcr3.trans h.cr3, fun i hi => ?_, fun y hy => ?_, fun y hy => h.clear y (hsub.subset hy),
    h.apart.sublist hsub⟩
  · change s.kernel.vmm.entryAt util machine.mem _ ≠ _ ∧ s.kernel.vmm.entryAt util machine.mem _ ≠ _
    rw [hstart _ (.inl (hpage (by decide) i hi)), hstart _ (.inr (hpage (by decide) i hi))]
    exact h.start i hi
  · have hy' := h.live y (hsub.subset hy)
    refine ⟨hy'.nonempty, hy'.aligned, hy'.fits, fun i hi => ⟨(hy'.entries i hi).1, ?_⟩⟩
    change s.kernel.vmm.entryAt util machine.mem _ = _
    rw [hlive y hy _ (pageAt_mem_bytes hy' hi)]
    exact (hy'.entries i hi).2

/-- The invariant stays when what is mapped stays as it is. -/
theorem Inv.keep_all {s : VirtualClient} (h : Inv util s) {k' : Kernel} (hvmm : k'.vmm = s.kernel.vmm)
    (hT : Tables util s.kernel.vmm k'.machine.mem) (hcr3 : k'.machine.cr3 = s.kernel.machine.cr3)
    (hkept : ∀ a, s.kernel.vmm.entryAt util s.kernel.machine.mem a ≠ 0#32 →
      s.kernel.vmm.entryAt util k'.machine.mem a = s.kernel.vmm.entryAt util s.kernel.machine.mem a) :
    Inv util ⟨k', s.live⟩ :=
  h.keep (List.Sublist.refl _) hvmm hT hcr3 (fun a ha => hkept a (h.start_ne_zero ha))
    fun y hy a ha => hkept a ((h.live y hy).entryAt_ne_zero h.layout ha)

/-- A range that `MapRange` could map does not pass the end of the address space: it would have come to
the page at address 0, which is mapped. -/
theorem Inv.mapped_fits {s : VirtualClient} (h : Inv util s) {v : VirtualAddress} {p : PhysicalAddress} {n : ℕ}
    {m' : Machine} (hmap : MapRangeSpec util s.kernel.vmm s.kernel.machine v p n (true, m')) (hn : 0 < n) :
    Aligned v ∧ v ≠ 0#32 ∧ v.toNat + 4096 * n ≤ 2 ^ 32 := by
  have hzero : ∀ i < n, pageAt v i ≠ 0#32 := by
    intro i hi h0
    have hfree := (hmap.mapped rfl i hi).2.2.2.1
    rw [h0] at hfree
    exact (h.start 0 (by decide)).1 (by rwa [pageAt_zero])
  have hal : Aligned v := by simpa using (hmap.mapped rfl 0 hn).1
  refine ⟨hal, by simpa using hzero 0 hn, ?_⟩
  by_contra hwrap
  rw [Aligned] at hal
  refine hzero ((2 ^ 32 - v.toNat) / 4096) (by omega) (BitVec.eq_of_toNat_eq ?_)
  rw [pageAt_toNat, show (0#32).toNat = 0 from rfl]
  omega

/-- An allocation that was mapped joins the live ones. -/
theorem Inv.mapped {s : VirtualClient} (h : Inv util s) {v : VirtualAddress} {p : PhysicalAddress} {n : SizeT}
    {k' : Kernel} (hn : n ≠ 0#32) (hvmm : k'.vmm = s.kernel.vmm)
    (hmap : MapRangeSpec util s.kernel.vmm s.kernel.machine v p n.toNat (true, k'.machine)) :
    v ≠ 0#32 ∧ Inv util ⟨k', ⟨v, n, p⟩ :: s.live⟩ := by
  have hn' : 0 < n.toNat := Nat.pos_of_ne_zero fun h0 => hn (BitVec.eq_of_toNat_eq h0)
  obtain ⟨hal, hv, hfits⟩ := h.mapped_fits hmap hn'
  have hkeep := h.keep_all hvmm hmap.tables hmap.cr3 hmap.kept
  -- its pages were not mapped, so they are not those of anything that was
  have hfree : ∀ a ∈ Span v (4096 * n.toNat), s.kernel.vmm.entryAt util s.kernel.machine.mem a = 0#32 := by
    intro a ha
    obtain ⟨i, hi, hs⟩ := inPages_of_mem_span hal hfits ha
    rw [← entryAt_congr h.layout hs]
    exact (hmap.mapped rfl i hi).2.2.2.1
  have hnew : Mapped util k' ⟨v, n, p⟩ := by
    refine ⟨hn', hal, hfits, fun i hi => ⟨(hmap.mapped rfl i hi).2.1, ?_⟩⟩
    rw [hvmm]
    exact (hmap.mapped rfl i hi).2.2.2.2
  refine ⟨hv, hkeep.layout, hkeep.tables, hkeep.cr3, hkeep.start, ?_, ?_, List.pairwise_cons.mpr ⟨fun y hy => ?_, h.apart⟩⟩
  · rintro y (_ | ⟨_, hy⟩)
    · exact hnew
    · exact hkeep.live y hy
  · rintro y (_ | ⟨_, hy⟩)
    · exact ⟨Set.disjoint_left.mpr fun a ha hin => h.start_ne_zero (.inl hin) (hfree a ha),
        Set.disjoint_left.mpr fun a ha hin => h.start_ne_zero (.inr hin) (hfree a ha)⟩
    · exact h.clear y hy
  · exact Set.disjoint_left.mpr fun a ha hin => (h.live y hy).entryAt_ne_zero h.layout hin (hfree a ha)

theorem Inv.allocated {s : VirtualClient} (h : Inv util s) (n : SizeT) : Inv util (s.allocated util n) := by
  rw [VirtualClient.allocated]
  have hresult := VirtualMemoryAllocator.allocatePages_result util s.kernel n
  generalize VirtualMemoryAllocator.allocatePages util s.kernel n = r at hresult
  have hspec := fun v => mapRange_spec h.layout h.tables v (s.kernel.pmm.allocatePages n).1 true n
  cases hresult with
  | refused hm hvmm =>
    rw [if_pos rfl]
    exact h.keep_all hvmm (by rw [hm]; exact h.tables) (by rw [hm]) fun a _ => by rw [hm]
  | @stopped v _ _ hmap hm hvmm =>
    have hs := hspec v
    rw [hmap, ← hm] at hs
    rw [if_pos rfl]
    exact h.keep_all hvmm hs.tables hs.cr3 hs.kept
  | @mapped v _ _ hn hmap hm hvmm =>
    have hs := hspec v
    rw [hmap, ← hm] at hs
    obtain ⟨hv, hinv⟩ := h.mapped hn hvmm hs
    rw [if_neg hv]
    exact hinv

/-- `FreePages` of a live allocation succeeds, and leaves the others as they are. -/
theorem Inv.freed {s : VirtualClient} (h : Inv util s) (hx : x ∈ s.live) :
    (VirtualMemoryAllocator.freePages util s.kernel x.virtualAddress x.pageCount).1 = true ∧
      Inv util (s.freed util x) := by
  have hmx := h.live x hx
  have hok : (s.kernel.vmm.unmapRange util s.kernel.machine x.virtualAddress x.pageCount).1 = true := by
    refine unmapRange_succeeds h.layout h.tables hmx.aligned hmx.fits fun i hi => ?_
    exact hmx.entryAt_ne_zero h.layout (pageAt_mem_bytes hmx hi)
  have hspec := unmapRange_spec h.layout h.tables x.virtualAddress x.pageCount
  have hout : ∀ a, a ∉ x.bytes → ¬ InPages x.virtualAddress x.pageCount.toNat a := by
    intro a ha hin
    exact ha ((mem_span_iff hmx.fits).mpr ((inPages_iff hmx.aligned hmx.fits).mp hin))
  -- what is left is apart from what is freed
  have hrest : ∀ y ∈ s.live.erase x, Disjoint y.bytes x.bytes := by
    intro y hy
    obtain ⟨hne, hmem⟩ := h.nodup.mem_erase_iff.mp hy
    exact h.apart.forall hmem hx hne
  rw [VirtualClient.freed]
  have hresult := VirtualMemoryAllocator.freePages_result util s.kernel x.virtualAddress x.pageCount
  generalize VirtualMemoryAllocator.freePages util s.kernel x.virtualAddress x.pageCount = r at hresult
  cases hresult with
  | nothing h0 =>
    have hfirst := pageAt_mem_bytes hmx hmx.nonempty
    rw [pageAt_zero, h0] at hfirst
    exact absurd (self_mem_span (by decide)) (Set.disjoint_left.mp (h.clear x hx).1 hfirst)
  | stopped hunmap => rw [hunmap] at hok; cases hok
  | freed hunmap hm hvmm =>
    rw [hunmap] at hspec
    refine ⟨rfl, h.keep List.erase_sublist hvmm ?_ ?_ ?_ ?_⟩
    · rw [hm]; exact hspec.tables
    · rw [hm]; exact hspec.cr3
    · intro a ha
      rw [hm]
      refine hspec.frame a (hout a fun hin => ?_)
      rcases ha with ha | ha
      · exact Set.disjoint_left.mp (h.clear x hx).1 hin ha
      · exact Set.disjoint_left.mp (h.clear x hx).2 hin ha
    · intro y hy a ha
      rw [hm]
      exact hspec.frame a (hout a fun hin => Set.disjoint_left.mp (hrest y hy) ha hin)

theorem Inv.step {s t : VirtualClient} {c : VirtualCall} (h : Inv util s) (hs : Step util s c t) : Inv util t := by
  cases hs with
  | allocatePages => exact h.allocated _
  | freePages hx => exact (h.freed hx).2
  | other hsame => exact h.keep_all rfl (hsame.tables h.tables) rfl fun a _ => (hsame a).2

/-- The walk finds the frames of a live allocation. -/
theorem Inv.walk {s : VirtualClient} (h : Inv util s) (hx : x ∈ s.live) {i : ℕ} (hi : i < x.pageCount.toNat) :
    walk s.kernel.machine.mem s.kernel.machine.cr3 (pageAt x.virtualAddress i) = some ⟨pageAt x.frame i, true⟩ := by
  obtain ⟨hframe, hentry⟩ := (h.live x hx).entries i hi
  rw [h.cr3, walk_eq h.layout h.tables, hentry, decode_entryFor hframe]

end

/-! ### After the kernel's start -/

/-- The invariant holds when the kernel has started, and nothing is allocated. -/
theorem inv_start {bootInfo : BootInfo} {vmm vmm' : VirtualMemoryManager} {m m' : Machine} {imageSize : ℕ}
    (h : InImage (MemoryUtil.init bootInfo) vmm imageSize)
    (hok : initVirtualMemoryManager (MemoryUtil.init bootInfo) vmm bootInfo m = (true, vmm', m'))
    (pmm : PhysicalMemoryManager) (vma : VirtualMemoryAllocator) :
    Inv (MemoryUtil.init bootInfo) ⟨⟨m', vmm', pmm, vma⟩, []⟩ := by
  obtain ⟨hL, hT, hcr3, hstart⟩ := initVirtualMemoryManager_maps h hok
  exact ⟨hL, hT, hcr3, hstart, fun _ hx => (List.not_mem_nil hx).elim, fun _ hx => (List.not_mem_nil hx).elim, .nil⟩

/-- **Virtual allocations are exclusive and stable**: after `InitVirtualMemoryManager` and
`InitVirtualMemoryAllocator` have succeeded, in every state that a client reaches, the live allocations
are apart from each other and from what the kernel mapped at its start; the walk finds for each of their
pages the frame that the physical allocator gave; and each of them can be freed. -/
theorem virtual_allocations_exclusive (bootInfo : BootInfo) (vmm vmm' : VirtualMemoryManager) (m m' : Machine)
    (imageSize : ℕ) (h : InImage (MemoryUtil.init bootInfo) vmm imageSize)
    (hok : initVirtualMemoryManager (MemoryUtil.init bootInfo) vmm bootInfo m = (true, vmm', m'))
    (pmm : PhysicalMemoryManager) (s : VirtualClient)
    (hrun : Runs (Step (MemoryUtil.init bootInfo)) ⟨⟨m', vmm', pmm, (initVirtualMemoryAllocator bootInfo).2⟩, []⟩ s) :
    s.live.Pairwise (fun x y => Disjoint x.bytes y.bytes) ∧
      ∀ x ∈ s.live, Disjoint x.bytes (Span 0#32 0x400000) ∧ Disjoint x.bytes (Span 0xC0000000#32 0x400000) ∧
        (∀ i < x.pageCount.toNat, walk s.kernel.machine.mem s.kernel.machine.cr3 (pageAt x.virtualAddress i) =
          some ⟨pageAt x.frame i, true⟩) ∧
        (VirtualMemoryAllocator.freePages (MemoryUtil.init bootInfo) s.kernel x.virtualAddress x.pageCount).1 = true := by
  have hinv : Inv (MemoryUtil.init bootInfo) s :=
    hrun.invariant (fun _ _ _ hs _ hstep => hs.step hstep) (inv_start h hok pmm _)
  refine ⟨hinv.apart, fun x hx => ⟨(hinv.clear x hx).1, (hinv.clear x hx).2, fun i hi => hinv.walk hx hi, ?_⟩⟩
  exact (hinv.freed hx).1

/-- On the machine with 512 MB, with a physical allocator at 1 MB, a virtual allocator at `0xC1000000` that has
nothing allocated allocates its first pages there, and maps them to frames from 1 MB on. -/
theorem exists_start_vmm512_of {vma : VirtualMemoryAllocator} (hstart : vma.startAddress = 0xC1000000#32)
    (hempty : vma.bitmap = Bitmap.resetAll) {n : SizeT} (hn : 0 < n.toNat) (hn' : n.toNat ≤ 2) :
    ∃ vmm' m', initVirtualMemoryManager (MemoryUtil.init bootInfo512) vmm512 bootInfo512
        ⟨fun _ => 0#8, 0#32, []⟩ = (true, vmm', m') ∧
      (VirtualMemoryAllocator.allocatePages (MemoryUtil.init bootInfo512)
        ⟨m', vmm', Client.freshAtOneMB, vma⟩ n).1 = 0xC1000000#32 ∧
      (Client.freshAtOneMB.allocatePages n).1 = 0x100000#32 ∧
      ∀ v, Aligned v → walk m'.mem m'.cr3 v = startTranslation v := by
  obtain ⟨vmm', m', hok, hwalk⟩ := initVirtualMemoryManager_walk inImage_vmm512 (by decide) (by decide) (by decide)
    ⟨fun _ => 0#8, 0#32, []⟩
  have hinv := inv_start inImage_vmm512 hok Client.freshAtOneMB vma
  have hunset : (Bitmap.resetAll : Bitmap trackedPages).Unset 0 n.toNat :=
    Bitmap.unset_resetAll (by rw [Nat.zero_add]; exact hn'.trans (by decide))
  have hfirst : ∀ q < 0, ¬ (Bitmap.resetAll : Bitmap trackedPages).Unset q n.toNat :=
    fun q hq => absurd hq (Nat.not_lt_zero q)
  have hframe : (Client.freshAtOneMB.allocatePages n).1 = 0x100000#32 :=
    congrArg Prod.fst (PhysicalMemoryManager.allocatePages_found hn hunset hfirst : Client.freshAtOneMB.allocatePages n = _)
  have hpage : vma.pageNumberToAddress 0#32 = 0xC1000000#32 := by
    rw [show 0#32 = BitVec.ofNat 32 0 from rfl, vma.pageNumberToAddress_eq_pageAt, pageAt_zero, hstart]
  have hzero : ∀ i < 2, Covered (pageAt 0xC1000000#32 i) ∧ startTranslation (pageAt 0xC1000000#32 i) = none := by decide
  have hend : (0xC1000000#32).toNat + 4096 * n.toNat ≤ 2 ^ 32 := by
    have : (0xC1000000#32).toNat = 0xC1000000 := rfl
    omega
  refine ⟨vmm', m', hok, ?_, hframe, hwalk⟩
  refine VirtualMemoryAllocator.allocatePages_found (p := 0) hinv.layout hinv.tables hn (by rwa [hempty])
    (by rwa [hempty]) hpage (by rw [hframe]; decide) (by rw [hframe]; decide) (by decide) hend
    fun i hi => ⟨(hzero i (Nat.lt_of_lt_of_le hi hn')).1, ?_⟩
  refine (walk_eq_none_iff hinv.layout hinv.tables).mp ?_
  rw [← hinv.cr3]
  exact (hwalk _ (aligned_pageAt (by decide) i)).trans (hzero i (Nat.lt_of_lt_of_le hi hn')).2

/-- So does the allocator that `InitVirtualMemoryAllocator` makes. -/
theorem exists_start_vmm512 {n : SizeT} (hn : 0 < n.toNat) (hn' : n.toNat ≤ 2) :
    ∃ vmm' m', initVirtualMemoryManager (MemoryUtil.init bootInfo512) vmm512 bootInfo512
        ⟨fun _ => 0#8, 0#32, []⟩ = (true, vmm', m') ∧
      (VirtualMemoryAllocator.allocatePages (MemoryUtil.init bootInfo512)
        ⟨m', vmm', Client.freshAtOneMB, (initVirtualMemoryAllocator bootInfo512).2⟩ n).1 = 0xC1000000#32 ∧
      (Client.freshAtOneMB.allocatePages n).1 = 0x100000#32 := by
  obtain ⟨vmm', m', hok, halloc, hframe, -⟩ := exists_start_vmm512_of
    (show (initVirtualMemoryAllocator bootInfo512).2.startAddress = _ from rfl) rfl hn hn'
  exact ⟨vmm', m', hok, halloc, hframe⟩

/-- What `AllocatePages` does when it takes the run of the bitmap at `p`. -/
theorem Inv.allocates {util : MemoryUtil} {s : VirtualClient} (h : Inv util s) {n : SizeT} {p : ℕ} {v : VirtualAddress}
    {f : PhysicalAddress} (hn : 0 < n.toNat) (hp : s.kernel.vma.bitmap.Unset p n.toNat)
    (hmin : ∀ q < p, ¬ s.kernel.vma.bitmap.Unset q n.toNat)
    (hv : s.kernel.vma.pageNumberToAddress (BitVec.ofNat 32 p) = v) (hv0 : v ≠ 0#32)
    (hframe : (s.kernel.pmm.allocatePages n).1 = f) (hf0 : f ≠ 0#32) (hfal : Aligned f) (hal : Aligned v)
    (hend : v.toNat + 4096 * n.toNat ≤ 2 ^ 32)
    (hfree : ∀ i < n.toNat, Covered (pageAt v i) ∧
      s.kernel.vmm.entryAt util s.kernel.machine.mem (pageAt v i) = 0#32) :
    let t := s.allocated util n
    t.live = ⟨v, n, f⟩ :: s.live ∧ t.kernel.vmm = s.kernel.vmm ∧ t.kernel.pmm = (s.kernel.pmm.allocatePages n).2 ∧
      t.kernel.vma = { s.kernel.vma with bitmap := s.kernel.vma.bitmap.setBits (BitVec.ofNat 32 p) n } ∧
      ∀ x, ¬ InPages v n.toNat x →
        s.kernel.vmm.entryAt util t.kernel.machine.mem x = s.kernel.vmm.entryAt util s.kernel.machine.mem x := by
  intro t
  have halloc : (VirtualMemoryAllocator.allocatePages util s.kernel n).1 = v :=
    VirtualMemoryAllocator.allocatePages_found h.layout h.tables hn hp hmin hv (by rwa [hframe]) (by rwa [hframe]) hal hend
      hfree
  have hlive : t.live = ⟨v, n, f⟩ :: s.live := by
    simp only [t, VirtualClient.allocated, halloc, hframe, if_neg hv0]
  refine ⟨hlive, ?_⟩
  simp only [t, VirtualClient.allocated]
  have houtcome := VirtualMemoryAllocator.allocatePages_outcome util s.kernel n
  generalize VirtualMemoryAllocator.allocatePages util s.kernel n = r at halloc houtcome
  cases houtcome with
  | refused => exact absurd halloc.symm hv0
  | noFrame => exact absurd halloc.symm hv0
  | stopped => exact absurd halloc.symm hv0
  | @mapped q machine _ _ hq hqmin hmap =>
    -- both are the first place of the bitmap
    have hqp : q = p := by
      rcases Nat.lt_trichotomy q p with hlt | he | hlt
      · exact absurd (hq.unset (by have := hp.1; omega)) (hmin q hlt)
      · exact he
      · refine absurd ⟨?_, fun i hi hi' _ => hp.2 i hi hi'⟩ (hqmin p hlt)
        have := hp.1
        omega
    subst hqp hv
    have hspec := mapRange_spec h.layout h.tables (s.kernel.vma.pageNumberToAddress (BitVec.ofNat 32 q))
      (s.kernel.pmm.allocatePages n).1 true n
    rw [hmap] at hspec
    exact ⟨rfl, rfl, rfl, hspec.frame⟩

/-- There a page is allocated, and then two. -/
theorem exists_two_allocations_vmm512 :
    ∃ vmm' m' s, initVirtualMemoryManager (MemoryUtil.init bootInfo512) vmm512 bootInfo512
        ⟨fun _ => 0#8, 0#32, []⟩ = (true, vmm', m') ∧
      Runs (Step (MemoryUtil.init bootInfo512))
        ⟨⟨m', vmm', Client.freshAtOneMB, (initVirtualMemoryAllocator bootInfo512).2⟩, []⟩ s ∧
      s.live = [⟨0xC1001000#32, 2#32, 0x101000#32⟩, ⟨0xC1000000#32, 1#32, 0x100000#32⟩] := by
  obtain ⟨vmm', m', hok, hwalk⟩ := initVirtualMemoryManager_walk inImage_vmm512 (by decide) (by decide) (by decide)
    ⟨fun _ => 0#8, 0#32, []⟩
  have hinv := inv_start inImage_vmm512 hok Client.freshAtOneMB (initVirtualMemoryAllocator bootInfo512).2
  have hone : (1#32).toNat = 1 := rfl
  have htwo : (2#32).toNat = 2 := rfl
  have hzero : ∀ i < 3, Covered (pageAt 0xC1000000#32 i) ∧
      vmm'.entryAt (MemoryUtil.init bootInfo512) m'.mem (pageAt 0xC1000000#32 i) = 0#32 := by
    intro i hi
    have hnone : ∀ i < 3, Covered (pageAt 0xC1000000#32 i) ∧ startTranslation (pageAt 0xC1000000#32 i) = none := by decide
    refine ⟨(hnone i hi).1, (walk_eq_none_iff hinv.layout hinv.tables).mp ?_⟩
    rw [← hinv.cr3]
    exact (hwalk _ (aligned_pageAt (by decide) i)).trans (hnone i hi).2
  have hpage : ∀ p : ℕ, (initVirtualMemoryAllocator bootInfo512).2.pageNumberToAddress (BitVec.ofNat 32 p) =
      pageAt 0xC1000000#32 p := fun p => VirtualMemoryAllocator.pageNumberToAddress_eq_pageAt _ p
  have hunset : (Bitmap.resetAll : Bitmap trackedPages).Unset 0 (1#32).toNat := Bitmap.unset_resetAll (by decide)
  have hpmm := @PhysicalMemoryManager.allocatePages_found Client.freshAtOneMB 1#32 0 (by decide) hunset
    fun q hq => absurd hq (Nat.not_lt_zero q)
  obtain ⟨hlive, hvmm, hpmm₁, hvma, hframe⟩ := hinv.allocates (n := 1#32) (p := 0) (v := 0xC1000000#32) (f := 0x100000#32)
    (by decide) hunset (fun q hq => absurd hq (Nat.not_lt_zero q)) (hpage 0) (by decide) (congrArg Prod.fst hpmm) (by decide)
    (by decide) (by decide) (by decide) fun i hi => hzero i (by omega)
  -- the bit and the frame of the first page are taken now
  have hbits : ∀ i, ((Bitmap.resetAll : Bitmap trackedPages).setBits 0#32 1#32).bit i = decide (i = 0) := by
    intro i
    rw [Bitmap.bit_setBits trackedPages_lt, Bitmap.bit_resetAll, Bool.or_false, decide_eq_decide, Bitmap.InRange]
    simp only [show (0#32).toNat = 0 from rfl, hone, trackedPages]
    omega
  have hunset₁ : ((Bitmap.resetAll : Bitmap trackedPages).setBits 0#32 1#32).Unset 1 (2#32).toNat :=
    ⟨by decide, fun i hi _ => (hbits i).trans (decide_eq_false (by omega))⟩
  have hmin₁ : ∀ q < 1, ¬ ((Bitmap.resetAll : Bitmap trackedPages).setBits 0#32 1#32).Unset q (2#32).toNat := by
    intro q hq
    exact Bitmap.not_unset_of_bit ((hbits 0).trans (decide_eq_true rfl)) (by omega) (by omega)
  rw [hpmm] at hpmm₁
  have hfound := @PhysicalMemoryManager.allocatePages_found (Client.freshAtOneMB.allocatePages 1#32).2 2#32 1 (by decide)
    (by rw [hpmm]; exact hunset₁) (by rw [hpmm]; exact hmin₁)
  have hinv₁ := hinv.allocated 1#32
  have hnext : pageAt 0xC1000000#32 1 = 0xC1001000#32 := by decide
  obtain ⟨hlive₁, -⟩ := hinv₁.allocates (n := 2#32) (p := 1) (v := 0xC1001000#32) (f := 0x101000#32)
    (by decide) (by rw [hvma]; exact hunset₁) (by rw [hvma]; exact hmin₁)
    (by rw [hvma, VirtualMemoryAllocator.pageNumberToAddress_eq_pageAt]; exact hnext) (by decide)
    (by rw [hpmm₁]; exact congrArg Prod.fst hfound) (by decide) (by decide) (by decide) (by decide) fun i hi => by
      have hshift : ∀ i < 2, pageAt 0xC1001000#32 i = pageAt 0xC1000000#32 (i + 1) ∧
        ¬ InPages 0xC1000000#32 (1#32).toNat (pageAt 0xC1001000#32 i) := by decide
      rw [hvmm, hframe _ (hshift i hi).2, (hshift i hi).1]
      exact hzero (i + 1) (by omega)
  have hrun : Runs (Step (MemoryUtil.init bootInfo512)) _ (allocated (MemoryUtil.init bootInfo512)
      ⟨⟨m', vmm', Client.freshAtOneMB, (initVirtualMemoryAllocator bootInfo512).2⟩, []⟩ 1#32) :=
    RunsWhere.single trivial .allocatePages
  exact ⟨vmm', m', _, hok, hrun.tail trivial (.allocatePages (n := 2#32)), hlive₁.trans (congrArg _ hlive)⟩

/-- They are apart, and mapped to their frames. -/
theorem virtual_allocations_exclusive_vmm512 :
    ∃ vmm' m' s, initVirtualMemoryManager (MemoryUtil.init bootInfo512) vmm512 bootInfo512
        ⟨fun _ => 0#8, 0#32, []⟩ = (true, vmm', m') ∧
      Runs (Step (MemoryUtil.init bootInfo512))
        ⟨⟨m', vmm', Client.freshAtOneMB, (initVirtualMemoryAllocator bootInfo512).2⟩, []⟩ s ∧
      s.live = [⟨0xC1001000#32, 2#32, 0x101000#32⟩, ⟨0xC1000000#32, 1#32, 0x100000#32⟩] ∧
      s.live.Pairwise (fun x y => Disjoint x.bytes y.bytes) ∧
      walk s.kernel.machine.mem s.kernel.machine.cr3 0xC1000000#32 = some ⟨0x100000#32, true⟩ ∧
      walk s.kernel.machine.mem s.kernel.machine.cr3 0xC1002000#32 = some ⟨0x102000#32, true⟩ := by
  obtain ⟨vmm', m', s, hok, hrun, hlive⟩ := exists_two_allocations_vmm512
  have hall := virtual_allocations_exclusive bootInfo512 vmm512 vmm' _ m' _ inImage_vmm512 hok Client.freshAtOneMB s hrun
  have hfirst : ⟨0xC1000000#32, 1#32, 0x100000#32⟩ ∈ s.live := by rw [hlive]; decide
  have hsecond : ⟨0xC1001000#32, 2#32, 0x101000#32⟩ ∈ s.live := by rw [hlive]; decide
  exact ⟨vmm', m', s, hok, hrun, hlive, hall.1, (hall.2 _ hfirst).2.2.1 0 (by decide), (hall.2 _ hsecond).2.2.1 1 (by decide)⟩

end VirtualClient

end EagleOS.Memory
