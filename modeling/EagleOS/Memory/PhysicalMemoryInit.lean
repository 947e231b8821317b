import EagleOS.Memory.PhysicalMemoryClients

/-!
# What `Init` reserves

`PhysicalMemoryManager::Init` reserves every page and then frees the regions that the
memory map calls available; `InitPhysicalMemoryManager` (`Kernel.cpp`) then reserves
the boot loader's image, the kernel's, and the first 16 MB. This module computes the
bitmap they leave, and says which memory a client can be given.

## The model

`ReservedByInit` and `ReservedAtBoot` state the bitmap in terms of the memory map and
the boot record alone. They keep what the source does: `SetAll` reserves only every
eighth page, a range that does not lie in the bitmap is ignored, and bases and lengths
are cut to 32 bits before they are divided into pages.

## What is proved

* `bit_init`, `bit_initPhysicalMemoryManager` — the bitmaps are as stated.
* `pages_never_twice` — live allocations share no page while every search ends
  properly, and `pages_twice` — they may otherwise.
* `allocated_is_available_iff` — what the memory map must satisfy for clients to be given
  available memory only; `allocated_unavailable` — a map that does
  not satisfy it.
* `boot_areas_kept_iff` — what the boot record must satisfy for the images and the
  first 16 MB never to be handed out; `kernel_tail_handed_out` — a record that does not.
-/

namespace EagleOS.Memory

open ESTD Boot Foundations Relation PhysicalMemoryManager

/-! ### The bitmap after `Init` -/

/-- `m_StartAddress` after `InitMemory`. -/
def startOf (memoryMap : MemoryMap) : PhysicalAddress := (memoryBounds memoryMap).1.setWidth 32

/-- The page number of an address, counted from the lowest base. -/
def pageOf (memoryMap : MemoryMap) (address : PhysicalAddress) : SizeT := (address - startOf memoryMap) / 4096#32

/-- The pages that a region of the memory map frees. -/
def RegionFrees (memoryMap : MemoryMap) (region : MemoryRegion) (i : ℕ) : Prop :=
  region.type = .available ∧ 0 < region.length ∧
    Bitmap.InRange trackedPages (pageOf memoryMap (region.baseAddress.setWidth 32))
      (region.length.setWidth 32 / 4096#32) i

instance (memoryMap : MemoryMap) (region : MemoryRegion) (i : ℕ) : Decidable (RegionFrees memoryMap region i) :=
  inferInstanceAs (Decidable (_ ∧ _ ∧ _))

/-- The pages `Init` leaves reserved: of every eighth page, those that no region frees. -/
def ReservedByInit (memoryMap : MemoryMap) (i : ℕ) : Prop :=
  i % 8 = 0 ∧ ¬ ∃ region ∈ memoryMap.regions, RegionFrees memoryMap region i

instance (memoryMap : MemoryMap) (i : ℕ) : Decidable (ReservedByInit memoryMap i) :=
  inferInstanceAs (Decidable (_ ∧ _))

/-- The loop of `InitFreeMemory` clears the bits of the regions it frees, and does not move the pages. -/
theorem initFreeMemory_spec (memoryMap : MemoryMap) (regions : List MemoryRegion) :
    ∀ pmm : PhysicalMemoryManager, pmm.startAddress = startOf memoryMap →
      (regions.foldl freeRegion pmm).startAddress = startOf memoryMap ∧
        ∀ i, (regions.foldl freeRegion pmm).bitmap.bit i = true ↔
          pmm.bitmap.bit i = true ∧ ¬ ∃ region ∈ regions, RegionFrees memoryMap region i := by
  induction regions with
  | nil => intro pmm hstart; simp [hstart]
  | cons region regions ih =>
    intro pmm hstart
    rw [List.foldl_cons]
    by_cases hav : region.type = .available ∧ 0 < region.length
    · rw [freeRegion, if_pos hav]
      obtain ⟨hs, hb⟩ := ih (pmm.setRegionState (region.baseAddress.setWidth 32) (region.length.setWidth 32) .free)
        hstart
      refine ⟨hs, fun i => ?_⟩
      have hone : (pmm.setRegionState (region.baseAddress.setWidth 32) (region.length.setWidth 32) .free).bitmap.bit i
          = true ↔ pmm.bitmap.bit i = true ∧ ¬ RegionFrees memoryMap region i := by
        simp only [setRegionState, Bitmap.bit_clearBits trackedPages_lt, addressToPageNumber, pmm.pageSize_eq, hstart,
          RegionFrees, pageOf, hav, true_and, Bool.and_eq_true, Bool.not_eq_true', decide_eq_false_iff_not]
        exact and_comm
      rw [hb, hone, and_assoc]
      simp only [List.mem_cons, exists_eq_or_imp, not_or]
    · rw [freeRegion, if_neg hav]
      obtain ⟨hs, hb⟩ := ih pmm hstart
      refine ⟨hs, fun i => ?_⟩
      have hnone : ¬ RegionFrees memoryMap region i := fun h => hav ⟨h.1, h.2.1⟩
      rw [hb]
      simp only [List.mem_cons, exists_eq_or_imp, not_or, hnone, not_false_eq_true, true_and]

/-- `Init` succeeds. -/
theorem init_fst (bootInfo : BootInfo) (bitmap : Bitmap trackedPages) : (init bootInfo bitmap).1 = true := rfl

/-- `Init` counts pages from the lowest base. -/
theorem init_startAddress (bootInfo : BootInfo) (bitmap : Bitmap trackedPages) :
    (init bootInfo bitmap).2.startAddress = startOf bootInfo.systemMemoryMap :=
  (initFreeMemory_spec bootInfo.systemMemoryMap bootInfo.systemMemoryMap.regions
    ((initMemory bootInfo bitmap).2.initBitmap).2 rfl).1

/-- The bitmap that `Init` leaves. -/
theorem bit_init (bootInfo : BootInfo) (bitmap : Bitmap trackedPages) {i : ℕ} (hi : i < trackedPages) :
    (init bootInfo bitmap).2.bitmap.bit i = true ↔ ReservedByInit bootInfo.systemMemoryMap i := by
  have h := (initFreeMemory_spec bootInfo.systemMemoryMap bootInfo.systemMemoryMap.regions
    ((initMemory bootInfo bitmap).2.initBitmap).2 rfl).2 i
  refine h.trans (and_congr_left' ?_)
  have hdiv : i / 8 < trackedPages := lt_of_le_of_lt (Nat.div_le_self i 8) hi
  simp [initBitmap, Bitmap.bit_setAll, hdiv]

/-! ### No page twice -/

/-- **No page twice**: in every run after `Init` in which each search for pages ends properly, the
live allocations are pairwise disjoint. -/
theorem pages_never_twice (bootInfo : BootInfo) (bitmap : Bitmap trackedPages) {s : Client}
    (h : RunsWhere Client.Step Client.Searchable ⟨(init bootInfo bitmap).2, []⟩ s) :
    s.live.Pairwise fun x y => Disjoint (pages x) (pages y) :=
  Client.pages_disjoint h

/-- Of the 131072 pages from 1 MB on, the map frees the 130816 that exist. -/
theorem reservedByInit_bootInfo512 (i : ℕ) :
    ReservedByInit bootInfo512.systemMemoryMap i ↔ i % 8 = 0 ∧ 130816 ≤ i := by
  have hfrees : RegionFrees bootInfo512.systemMemoryMap ⟨0x100000#64, 0x1FF00000#64, .available⟩ i ↔ i < 130816 := by
    refine ⟨fun h => ?_, fun hi => ⟨rfl, by decide, by decide, Nat.zero_le i, ?_⟩⟩
    · exact lt_of_lt_of_eq h.2.2.2.2 (by decide)
    · exact lt_of_lt_of_eq hi (by decide)
  simp only [ReservedByInit, show bootInfo512.systemMemoryMap.regions = [_] from rfl, List.mem_singleton,
    exists_eq_left, hfrees, not_lt]

/-- What `Init` leaves on that machine. -/
theorem init_bootInfo512 : ∃ start, start = (init bootInfo512 Bitmap.resetAll).2 ∧
    start.startAddress = 0x100000#32 ∧
    ∀ i < trackedPages, start.bitmap.bit i = true ↔ i % 8 = 0 ∧ 130816 ≤ i := by
  refine ⟨_, rfl, (init_startAddress _ _).trans (by decide), fun i hi => ?_⟩
  exact (bit_init _ _ hi).trans (reservedByInit_bootInfo512 i)

/-- A page and then two more, on the machine with 512 MB. -/
theorem pages_never_twice_bootInfo512 :
    let s := (Client.allocated ⟨(init bootInfo512 Bitmap.resetAll).2, []⟩ 1#32).allocated 2#32
    RunsWhere Client.Step Client.Searchable ⟨(init bootInfo512 Bitmap.resetAll).2, []⟩ s ∧
      s.live.Pairwise fun x y => Disjoint (pages x) (pages y) := by
  intro s
  obtain ⟨start, hstart, -, hbit⟩ := init_bootInfo512
  have hone : (1#32).toNat = 1 := rfl
  have htwo : (2#32).toNat = 2 := rfl
  have hT : trackedPages = 131072 := rfl
  have hfree : ∀ i < 130816, start.bitmap.bit i = false := by
    intro i hi
    rw [Bool.eq_false_iff, ne_eq, hbit i (by omega)]
    omega
  have hfirst := Client.unset_one (by decide) (hfree 0 (by decide))
  have hbits := (Client.allocated_found (s := ⟨start, []⟩) (by decide) hfirst
    (fun q hq => absurd hq (Nat.not_lt_zero q))).2
  have hsecond : (Client.allocated ⟨start, []⟩ 1#32).pmm.bitmap.Unset 1 (2#32).toNat := by
    refine ⟨by decide, fun i hi hi' => ?_⟩
    rw [hbits, decide_eq_false (by omega), Bool.false_or]
    exact hfree i (by omega)
  have hok : Client.Searchable ⟨start, []⟩ (.allocatePages 1#32) := Client.searchable_of_unset hfirst
  have hrun : RunsWhere Client.Step Client.Searchable ⟨start, []⟩ ((Client.allocated ⟨start, []⟩ 1#32).allocated 2#32) :=
    (RunsWhere.single hok .allocatePages).tail (Client.searchable_of_unset hsecond) .allocatePages
  rw [hstart] at hrun
  exact ⟨hrun, pages_never_twice bootInfo512 Bitmap.resetAll hrun⟩

/-- On that machine two requests for 130817 pages, more than there are in one piece, are both given
the seven pages that end the bitmap. -/
theorem pages_twice :
    ∃ s, Runs Client.Step ⟨(init bootInfo512 Bitmap.resetAll).2, []⟩ s ∧
      ¬ s.live.Pairwise fun x y => Disjoint (pages x) (pages y) := by
  obtain ⟨start, hstart, haddr, hbit⟩ := init_bootInfo512
  rw [← hstart]
  have hn : (130817#32).toNat = 130817 := rfl
  have hT : trackedPages = 131072 := rfl
  have hno : ∀ q, ¬ start.bitmap.Unset q (130817#32).toNat := by
    intro q hq
    have := hq.1
    exact Bitmap.not_unset_of_bit ((hbit 130816 (by decide)).mpr (by decide)) (by omega) (by omega) hq
  have hend : ∀ i, 131065 ≤ i → i < trackedPages → start.bitmap.bit i = false := by
    intro i hi hi'
    rw [Bool.eq_false_iff, ne_eq, hbit i hi']
    omega
  have halloc := allocatePages_short (by decide) hno (show 131065 < trackedPages by decide) hend
    (.inr ((hbit 131064 (by decide)).mpr (by decide)))
  have hne : start.pageNumberToAddress (BitVec.ofNat 32 131065) ≠ 0 := by
    rw [pageNumberToAddress, start.pageSize_eq, haddr]
    decide
  refine ⟨(Client.allocated ⟨start, []⟩ 130817#32).allocated 130817#32,
    (RunsWhere.single trivial .allocatePages).tail trivial .allocatePages, ?_⟩
  simp only [Client.allocated, halloc, if_neg hne]
  intro h
  have hself : ∀ a : PhysicalAddress, a ∈ pages (a, 130817#32) :=
    fun _ => self_mem_span (show 0 < 4096 * (130817#32).toNat by decide)
  exact Set.disjoint_left.mp ((List.pairwise_cons.mp h).1 _ (List.mem_singleton_self _)) (hself _) (hself _)

/-! ### Available memory only -/

/-- The lowest base is at or below every base. -/
theorem memoryBounds_le {memoryMap : MemoryMap} {region : MemoryRegion} (h : region ∈ memoryMap.regions) :
    (memoryBounds memoryMap).1.toNat ≤ region.baseAddress.toNat := by
  have hfold : ∀ (regions : List MemoryRegion) (bounds : BitVec 64 × BitVec 64),
      (regions.foldl (widenBounds memoryMap) bounds).1.toNat ≤ bounds.1.toNat ∧
        ∀ region ∈ regions, (regions.foldl (widenBounds memoryMap) bounds).1.toNat ≤ region.baseAddress.toNat := by
    intro regions
    induction regions with
    | nil => intro bounds; simp
    | cons r regions ih =>
      intro bounds
      rw [List.foldl_cons]
      obtain ⟨hlow, hall⟩ := ih (widenBounds memoryMap bounds r)
      have hmin : ∀ a b : BitVec 64, (if a < b then a else b).toNat ≤ a.toNat ∧ (if a < b then a else b).toNat ≤ b.toNat := by
        intro a b
        split <;> rename_i hab <;> rw [BitVec.lt_def] at hab <;> omega
      have hm := hmin r.baseAddress bounds.1
      refine ⟨hlow.trans hm.2, fun x hx => ?_⟩
      rcases List.mem_cons.mp hx with rfl | hx
      · exact hlow.trans hm.1
      · exact hall x hx
  exact (hfold memoryMap.regions _).2 region h

/-- No available byte lies below the first page. -/
theorem startOf_le_of_availableAt {memoryMap : MemoryMap} {x : ℕ} (h : memoryMap.AvailableAt x) :
    (startOf memoryMap).toNat ≤ x := by
  obtain ⟨region, hmem, -, hlow, -⟩ := h
  have := memoryBounds_le hmem
  have hcut : (startOf memoryMap).toNat ≤ (memoryBounds memoryMap).1.toNat := by
    rw [startOf, BitVec.toNat_setWidth]
    exact Nat.mod_le _ _
  omega

/-- The memory map lets `Init` free available memory only: the pages are aligned, do not pass 4 GB,
and each that is not left reserved is available, but for a page at address 0. -/
structure FreesOnlyAvailable (memoryMap : MemoryMap) : Prop where
  /-- The lowest base is a multiple of the page size. -/
  aligned : (startOf memoryMap).toNat % 4096 = 0
  /-- No page of the bitmap passes the end of the address space. -/
  below : (startOf memoryMap).toNat + 4096 * (trackedPages - 1) ≤ 2 ^ 32
  /-- Every page that is not left reserved is available. -/
  available : ∀ i < trackedPages, ¬ ReservedByInit memoryMap i → (startOf memoryMap).toNat + 4096 * i ≠ 0 →
    ∀ j < 4096, memoryMap.AvailableAt ((startOf memoryMap).toNat + 4096 * i + j)

/-- An allocation is aligned, and all of it is available memory. -/
def IsAvailable (memoryMap : MemoryMap) (x : PhysicalAddress × SizeT) : Prop :=
  x.1.toNat % 4096 = 0 ∧ ∀ j < 4096 * x.2.toNat, memoryMap.AvailableAt (x.1.toNat + j)

/-- The page at the top of the bitmap is never reserved by `Init`, nor is the one below it. -/
theorem not_reservedByInit_of_mod {memoryMap : MemoryMap} {i : ℕ} (h : i % 8 ≠ 0) : ¬ ReservedByInit memoryMap i :=
  fun hr => h hr.1

/-- A client can come to hold any run of pages that `Init` does not leave reserved. -/
theorem exists_run_holding_unreserved {bootInfo : BootInfo} {bitmap : Bitmap trackedPages} {k : ℕ} {n : SizeT}
    (hn : 0 < n.toNat) (hk : k + n.toNat ≤ trackedPages)
    (hfree : ∀ i, k ≤ i → i < k + n.toNat → ¬ ReservedByInit bootInfo.systemMemoryMap i)
    {a : PhysicalAddress} (ha : a.toNat = ((startOf bootInfo.systemMemoryMap).toNat + 4096 * k) % 2 ^ 32)
    (h0 : a.toNat ≠ 0) :
    ∃ s, RunsWhere Client.Step Client.Searchable ⟨(init bootInfo bitmap).2, []⟩ s ∧ (a, n) ∈ s.live := by
  have haddr : (init bootInfo bitmap).2.pageNumberToAddress (BitVec.ofNat 32 k) = a := by
    apply BitVec.eq_of_toNat_eq
    rw [pageNumberToAddress_toNat, init_startAddress, ha]
  rw [← haddr]
  refine Client.exists_run_holding hn ⟨hk, fun i hi hi' => ?_⟩ (fun hz => h0 ?_)
  · rw [Bool.eq_false_iff, ne_eq, bit_init _ _ (by omega)]
    exact hfree i hi hi'
  · rw [← haddr, hz]; rfl

/-- If clients are given available memory only, every page that is not left reserved is aligned and
available, unless it is at address 0: a client comes to hold it. -/
theorem page_available {bootInfo : BootInfo} {bitmap : Bitmap trackedPages}
    (h : ∀ s, RunsWhere Client.Step Client.Searchable ⟨(init bootInfo bitmap).2, []⟩ s →
      ∀ x ∈ s.live, IsAvailable bootInfo.systemMemoryMap x)
    {k : ℕ} {n : SizeT} (hn : 0 < n.toNat) (hk : k + n.toNat ≤ trackedPages)
    (hfree : ∀ i, k ≤ i → i < k + n.toNat → ¬ ReservedByInit bootInfo.systemMemoryMap i)
    {a : ℕ} (ha : a = ((startOf bootInfo.systemMemoryMap).toNat + 4096 * k) % 2 ^ 32) (h0 : a ≠ 0) :
    a % 4096 = 0 ∧ ∀ j < 4096 * n.toNat, bootInfo.systemMemoryMap.AvailableAt (a + j) := by
  have han : (BitVec.ofNat 32 a).toNat = a := by rw [BitVec.toNat_ofNat, ha, Nat.mod_mod]
  obtain ⟨s, hrun, hx⟩ := exists_run_holding_unreserved hn hk hfree (han.trans ha) (by rwa [han])
  have hav := h s hrun _ hx
  rw [IsAvailable, han] at hav
  exact hav

/-- If clients are given available memory only, `Init` frees available memory only. -/
theorem freesOnlyAvailable_of_clients {bootInfo : BootInfo} {bitmap : Bitmap trackedPages}
    (h : ∀ s, RunsWhere Client.Step Client.Searchable ⟨(init bootInfo bitmap).2, []⟩ s →
      ∀ x ∈ s.live, IsAvailable bootInfo.systemMemoryMap x) :
    FreesOnlyAvailable bootInfo.systemMemoryMap := by
  have hT : trackedPages = 131072 := rfl
  generalize hst : (startOf bootInfo.systemMemoryMap).toNat = start
  have hone : ∀ k < trackedPages, ¬ ReservedByInit bootInfo.systemMemoryMap k → (start + 4096 * k) % 2 ^ 32 ≠ 0 →
      (start + 4096 * k) % 2 ^ 32 % 4096 = 0 ∧
        ∀ j < 4096, bootInfo.systemMemoryMap.AvailableAt ((start + 4096 * k) % 2 ^ 32 + j) := by
    intro k hk hfree h0
    have h1 : 0 < (1#32).toNat := by decide
    refine page_available h h1 hk (fun i hi hi' => ?_) (by rw [hst]) h0
    rwa [show i = k by have : (1#32).toNat = 1 := rfl; omega]
  have hbelow : start + 4096 * (trackedPages - 1) ≤ 2 ^ 32 := by
    by_contra hgt
    have hav := hone 131071 (by decide) (not_reservedByInit_of_mod (by decide)) (by omega)
    have := startOf_le_of_availableAt (hav.2 0 (by decide))
    omega
  refine ⟨?_, hst ▸ hbelow, ?_⟩
  · rw [hst]
    by_cases h1 : (start + 4096 * 1) % 2 ^ 32 = 0
    · omega
    · have := (hone 1 (by decide) (not_reservedByInit_of_mod (by decide)) h1).1
      omega
  · intro i hi hfree h0 j hj
    rw [hst] at h0 ⊢
    by_cases htop : start + 4096 * i < 2 ^ 32
    · have hav := (hone i hi hfree (by omega)).2 j hj
      rwa [Nat.mod_eq_of_lt htop] at hav
    · -- the last page, at address 0, is reached by an allocation that starts at the page below
      have hpair : ∀ k, 131070 ≤ k → k < 131070 + (2#32).toNat → ¬ ReservedByInit bootInfo.systemMemoryMap k :=
        fun k hk hk' => not_reservedByInit_of_mod (by have : (2#32).toNat = 2 := rfl; omega)
      have hav := (page_available h (by decide) (by decide) hpair rfl (by rw [hst]; omega)).2 (4096 + j)
        (by have : (2#32).toNat = 2 := rfl; omega)
      rw [hst] at hav
      rwa [show start + 4096 * i + j = (start + 4096 * 131070) % 2 ^ 32 + (4096 + j) by omega]

/-- If `Init` frees available memory only, clients are given available memory only. -/
theorem isAvailable_of_runs {bootInfo : BootInfo} {bitmap : Bitmap trackedPages}
    (hm : FreesOnlyAvailable bootInfo.systemMemoryMap) {s : Client}
    (h : RunsWhere Client.Step Client.Searchable ⟨(init bootInfo bitmap).2, []⟩ s) :
    ∀ x ∈ s.live, IsAvailable bootInfo.systemMemoryMap x := by
  have hbelow := hm.below
  intro x hx
  have hr := Client.reached_of_runs h
  obtain ⟨a, n⟩ := x
  obtain ⟨h0, p, hp, rfl⟩ := hr.placed _ hx
  have htr := Client.tracked_of_runs h _ hx
  rw [Client.Tracked, Client.rangeOf_pageNumberToAddress _ hp] at htr
  have hstart : s.pmm.startAddress = startOf bootInfo.systemMemoryMap :=
    hr.startAddress_eq.trans (init_startAddress bootInfo bitmap)
  have haddr := s.pmm.pageNumberToAddress_toNat p
  rw [hstart] at haddr
  have hne : (s.pmm.pageNumberToAddress (BitVec.ofNat 32 p)).toNat ≠ 0 :=
    fun hz => h0 (BitVec.eq_of_toNat_eq hz)
  have hlt : (startOf bootInfo.systemMemoryMap).toNat + 4096 * p < 2 ^ 32 := by omega
  rw [Nat.mod_eq_of_lt hlt] at haddr
  have hal := hm.aligned
  refine ⟨by simp only [haddr]; omega, fun j hj => ?_⟩
  have hcell : p + j / 4096 ∈ cells (Client.rangeOf s.pmm (s.pmm.pageNumberToAddress (BitVec.ofNat 32 p), n)) := by
    rw [Client.rangeOf_pageNumberToAddress _ hp]
    exact ⟨Nat.le_add_right _ _, Nat.add_lt_add_left (Nat.div_lt_of_lt_mul hj) p⟩
  have hfree := Client.page_free_at_start h hx hcell
  have hk : p + j / 4096 < trackedPages := by
    rw [Client.rangeOf_pageNumberToAddress _ hp] at hcell
    exact lt_of_lt_of_le hcell.2 htr
  rw [Bool.eq_false_iff, ne_eq, bit_init _ _ hk] at hfree
  have hav := hm.available _ hk hfree (by omega) (j % 4096) (Nat.mod_lt _ (by decide))
  simp only [haddr]
  rwa [show (startOf bootInfo.systemMemoryMap).toNat + 4096 * p + j =
    (startOf bootInfo.systemMemoryMap).toNat + 4096 * (p + j / 4096) + j % 4096 by omega]

/-- **Available memory only**: in every run after `Init` in which each search ends properly, clients
are given aligned, available memory, if and only if the memory map lets `Init` free available memory
only. -/
theorem allocated_is_available_iff (bootInfo : BootInfo) (bitmap : Bitmap trackedPages) :
    (∀ s, RunsWhere Client.Step Client.Searchable ⟨(init bootInfo bitmap).2, []⟩ s →
        ∀ x ∈ s.live, IsAvailable bootInfo.systemMemoryMap x) ↔
      FreesOnlyAvailable bootInfo.systemMemoryMap :=
  ⟨freesOnlyAvailable_of_clients, fun hm _ h => isAvailable_of_runs hm h⟩

/-- A map of 512 MB that starts at address 0. -/
def memoryMap512 : MemoryMap := ⟨0x20000000#32, [⟨0#64, 0x20000000#64, .available⟩]⟩

example : FreesOnlyAvailable memoryMap512 := by
  have hbase : startOf memoryMap512 = 0#32 := by decide
  refine ⟨?_, ?_, fun i hi _ _ j hj => ⟨_, List.mem_singleton_self _, rfl, Nat.zero_le _, ?_⟩⟩
  · rw [hbase]; decide
  · rw [hbase]; decide
  · have hlt : i < 131072 := hi
    rw [hbase]
    exact lt_of_lt_of_le (show 0 + 4096 * i + j < 0x20000000 by omega) (by decide)

/-- On the machine with 512 MB a client that has taken all the memory there is is given one more
page, past the end of it. -/
theorem allocated_unavailable :
    ∃ s, Runs Client.Step ⟨(init bootInfo512 Bitmap.resetAll).2, []⟩ s ∧
      ∃ x ∈ s.live, ¬ IsAvailable bootInfo512.systemMemoryMap x := by
  obtain ⟨start, hstart, haddr, hbit⟩ := init_bootInfo512
  rw [← hstart]
  have hn : (130816#32).toNat = 130816 := rfl
  have hone : (1#32).toNat = 1 := rfl
  have hT : trackedPages = 131072 := rfl
  have hall : start.bitmap.Unset 0 (130816#32).toNat := by
    refine ⟨by decide, fun i _ hi => ?_⟩
    rw [Bool.eq_false_iff, ne_eq, hbit i (by omega)]
    omega
  have hbits := (Client.allocated_found (s := ⟨start, []⟩) (by decide) hall
    (fun q hq => absurd hq (Nat.not_lt_zero q))).2
  have hrun : Runs Client.Step ⟨start, []⟩ (Client.allocated ⟨start, []⟩ 130816#32) :=
    RunsWhere.single trivial .allocatePages
  have hsame := (Client.reached_of_runs hrun).startAddress_eq
  generalize Client.allocated ⟨start, []⟩ 130816#32 = s at hbits hrun hsame
  have hpast : s.pmm.bitmap.Unset 130817 (1#32).toNat := by
    refine Client.unset_one (by decide) ?_
    rw [hbits, decide_eq_false (by omega), Bool.false_or, Bool.eq_false_iff, ne_eq, hbit _ (by decide)]
    omega
  have hfirst : ∀ q < 130817, ¬ s.pmm.bitmap.Unset q (1#32).toNat := by
    intro q hq
    refine Bitmap.not_unset_of_bit (i := q) ?_ le_rfl (by omega)
    rw [hbits]
    by_cases hlt : q < 130816
    · rw [decide_eq_true (by omega), Bool.true_or]
    · rw [Bool.or_eq_true, hbit q (by omega)]
      omega
  have hpage : s.pmm.pageNumberToAddress (BitVec.ofNat 32 130817) = 0x20001000#32 := by
    rw [pageNumberToAddress, s.pmm.pageSize_eq, hsame, haddr]
    decide
  have hlive := (Client.allocated_found (by decide) hpast hfirst).1 (by rw [hpage]; decide)
  rw [hpage] at hlive
  refine ⟨s.allocated 1#32, hrun.tail trivial .allocatePages, (0x20001000#32, 1#32), ?_, fun hav => ?_⟩
  · rw [hlive]; exact List.mem_cons_self
  · obtain ⟨region, hmem, -, -, hend⟩ := hav.2 0 (by decide)
    obtain rfl := List.mem_singleton.mp hmem
    exact absurd hend (by decide)

/-! ### The images and the first 16 MB -/

/-- `InitPhysicalMemoryManager` (`Kernel.cpp`), on an object with the bitmap `bitmap`. -/
def initPhysicalMemoryManager (bootInfo : BootInfo) (bitmap : Bitmap trackedPages) : Bool × PhysicalMemoryManager :=
  match init bootInfo bitmap with
  | (false, pmm) => (false, pmm)
  | (true, pmm) =>
    -- the boot loader's last page counts, also when it is only partly used
    let bootloaderPageCount := bootInfo.bootloaderSize / 4096#32 + 1#32
    let pmm := pmm.reservePages bootInfo.bootloaderPhysicalStartAddress bootloaderPageCount
    -- the kernel's does not
    let kernelPageCount := bootInfo.kernelSize / 4096#32
    let pmm := pmm.reservePages bootInfo.kernelPhysicalStartAddress kernelPageCount
    let dma16PageCount := 0x1000000#32 / 4096#32
    let pmm := pmm.reservePages 0#32 dma16PageCount
    (true, pmm.reservePage 0#32)

/-- The pages that are reserved when `InitPhysicalMemoryManager` is done: those `Init` left reserved,
and those of each of its four reservations that lies in the bitmap. -/
def ReservedAtBoot (bootInfo : BootInfo) (i : ℕ) : Prop :=
  let memoryMap := bootInfo.systemMemoryMap
  ReservedByInit memoryMap i ∨
    Bitmap.InRange trackedPages (pageOf memoryMap bootInfo.bootloaderPhysicalStartAddress)
      (bootInfo.bootloaderSize / 4096#32 + 1#32) i ∨
    Bitmap.InRange trackedPages (pageOf memoryMap bootInfo.kernelPhysicalStartAddress)
      (bootInfo.kernelSize / 4096#32) i ∨
    Bitmap.InRange trackedPages (pageOf memoryMap 0#32) (0x1000000#32 / 4096#32) i ∨
    Bitmap.InRange trackedPages (pageOf memoryMap 0#32) 1#32 i

instance (bootInfo : BootInfo) (i : ℕ) : Decidable (ReservedAtBoot bootInfo i) :=
  inferInstanceAs (Decidable (_ ∨ _ ∨ _ ∨ _ ∨ _))

/-- `InitPhysicalMemoryManager` makes its four reservations after `Init`. -/
theorem initPhysicalMemoryManager_eq (bootInfo : BootInfo) (bitmap : Bitmap trackedPages) :
    initPhysicalMemoryManager bootInfo bitmap = (true,
      ((((init bootInfo bitmap).2.reservePages bootInfo.bootloaderPhysicalStartAddress
        (bootInfo.bootloaderSize / 4096#32 + 1#32)).reservePages bootInfo.kernelPhysicalStartAddress
        (bootInfo.kernelSize / 4096#32)).reservePages 0#32 (0x1000000#32 / 4096#32)).reservePages 0#32 1#32) := by
  have hinit : init bootInfo bitmap = (true, (init bootInfo bitmap).2) := Prod.ext (init_fst bootInfo bitmap) rfl
  rw [initPhysicalMemoryManager, hinit]
  rfl

theorem initPhysicalMemoryManager_startAddress (bootInfo : BootInfo) (bitmap : Bitmap trackedPages) :
    (initPhysicalMemoryManager bootInfo bitmap).2.startAddress = startOf bootInfo.systemMemoryMap := by
  simp only [initPhysicalMemoryManager_eq, reservePages_startAddress, init_startAddress]

/-- The bitmap that `InitPhysicalMemoryManager` leaves. -/
theorem bit_initPhysicalMemoryManager (bootInfo : BootInfo) (bitmap : Bitmap trackedPages) {i : ℕ}
    (hi : i < trackedPages) :
    (initPhysicalMemoryManager bootInfo bitmap).2.bitmap.bit i = true ↔ ReservedAtBoot bootInfo i := by
  have hpage : ∀ a, (init bootInfo bitmap).2.addressToPageNumber a = pageOf bootInfo.systemMemoryMap a := by
    intro a
    rw [addressToPageNumber, pageSize_eq, init_startAddress, pageOf]
  have hreserve : ∀ (pmm : PhysicalMemoryManager) (a : PhysicalAddress) (n : SizeT),
      (pmm.reservePages a n).bitmap.bit i = true ↔
        pmm.bitmap.bit i = true ∨ Bitmap.InRange trackedPages (pmm.addressToPageNumber a) n i := by
    intro pmm a n
    rw [reservePages, Bitmap.bit_setBits trackedPages_lt, Bool.or_eq_true, decide_eq_true_eq]
    exact or_comm
  have hsame : ∀ (pmm : PhysicalMemoryManager) (a b : PhysicalAddress) (n : SizeT),
      (pmm.reservePages a n).addressToPageNumber b = pmm.addressToPageNumber b := fun _ _ _ _ => rfl
  simp only [initPhysicalMemoryManager_eq, hreserve, hsame, hpage, bit_init bootInfo bitmap hi, or_assoc, ReservedAtBoot]

/-- The boot loader's image, the kernel's, and the first 16 MB. -/
def bootAreas (bootInfo : BootInfo) : Set PhysicalAddress :=
  Span bootInfo.bootloaderPhysicalStartAddress bootInfo.bootloaderSize.toNat ∪
    Span bootInfo.kernelPhysicalStartAddress bootInfo.kernelSize.toNat ∪ Span 0#32 0x1000000

/-- The page of every byte of the areas, if the bitmap covers it, is one of those reserved at boot. -/
def AreasReserved (bootInfo : BootInfo) : Prop :=
  ∀ b ∈ bootAreas bootInfo, (pageOf bootInfo.systemMemoryMap b).toNat < trackedPages →
    ReservedAtBoot bootInfo (pageOf bootInfo.systemMemoryMap b).toNat

theorem addressToPageNumber_initPhysicalMemoryManager (bootInfo : BootInfo) (bitmap : Bitmap trackedPages)
    (a : PhysicalAddress) : (initPhysicalMemoryManager bootInfo bitmap).2.addressToPageNumber a =
      pageOf bootInfo.systemMemoryMap a := by
  rw [addressToPageNumber, pageSize_eq, initPhysicalMemoryManager_startAddress, pageOf]

/-- `InitPhysicalMemoryManager` keeps the page at address 0. -/
theorem zeroPageKept_initPhysicalMemoryManager (bootInfo : BootInfo) (bitmap : Bitmap trackedPages) :
    Client.ZeroPageKept (initPhysicalMemoryManager bootInfo bitmap).2 := by
  intro p hp hz
  have hlt : p < 131072 := hp
  have hpage := addressToPageNumber_pageNumberToAddress (initPhysicalMemoryManager bootInfo bitmap).2
    (show (BitVec.ofNat 32 p).toNat < 2 ^ 20 by rw [ofNat_toNat_of_lt (by omega)]; omega)
  rw [hz, addressToPageNumber_initPhysicalMemoryManager] at hpage
  rw [Bitmap.test_eq_bit hp.le, bit_initPhysicalMemoryManager _ _ hp]
  have hp0 : (pageOf bootInfo.systemMemoryMap 0#32).toNat = p := by
    rw [show pageOf bootInfo.systemMemoryMap 0#32 = BitVec.ofNat 32 p from hpage, ofNat_toNat_of_lt (by omega)]
  refine .inr (.inr (.inr (.inr ⟨?_, ?_, ?_⟩))) <;> rw [hp0]
  · exact hp
  · exact Nat.lt_succ_self p

/-- If the areas are reserved at boot, no client is given a byte of them. -/
theorem disjoint_bootAreas_of_runs {bootInfo : BootInfo} {bitmap : Bitmap trackedPages}
    (hareas : AreasReserved bootInfo) {s : Client}
    (h : RunsWhere Client.Step Client.Searchable ⟨(initPhysicalMemoryManager bootInfo bitmap).2, []⟩ s) :
    ∀ x ∈ s.live, Disjoint (pages x) (bootAreas bootInfo) := by
  intro x hx
  rw [Set.disjoint_left]
  intro b hb harea
  obtain ⟨hlt, hfree⟩ := Client.byte_free_at_start h hx hb
  rw [addressToPageNumber_initPhysicalMemoryManager] at hlt hfree
  rw [Bool.eq_false_iff, ne_eq, bit_initPhysicalMemoryManager _ _ hlt] at hfree
  exact hfree (hareas b harea hlt)

/-- If no client is given a byte of the areas, they are reserved at boot: a page of theirs that is
not would come to be held by a client. -/
theorem areasReserved_of_clients {bootInfo : BootInfo} {bitmap : Bitmap trackedPages}
    (h : ∀ s, RunsWhere Client.Step Client.Searchable ⟨(initPhysicalMemoryManager bootInfo bitmap).2, []⟩ s →
      ∀ x ∈ s.live, Disjoint (pages x) (bootAreas bootInfo)) : AreasReserved bootInfo := by
  intro b hb hlt
  by_contra hres
  generalize hstart : (initPhysicalMemoryManager bootInfo bitmap).2 = start at h
  generalize hk : (pageOf bootInfo.systemMemoryMap b).toNat = k at hlt hres
  have hkn : (BitVec.ofNat 32 k).toNat = k := ofNat_toNat_of_lt (lt_trans hlt (by decide))
  have hfree : start.bitmap.bit k = false := by
    rw [← hstart, Bool.eq_false_iff, ne_eq, bit_initPhysicalMemoryManager _ _ hlt]
    exact hres
  have hunset := Client.unset_one hlt hfree
  have h0 : start.pageNumberToAddress (BitVec.ofNat 32 k) ≠ 0 := by
    have hkept := hstart ▸ zeroPageKept_initPhysicalMemoryManager bootInfo bitmap
    exact (Client.reached_init start).not_zero hkept hlt hfree
  obtain ⟨s, hrun, hx⟩ := Client.exists_run_holding (by decide) hunset h0
  refine Set.disjoint_left.mp (h s hrun _ hx) ?_ hb
  have hle : (BitVec.ofNat 32 k).toNat + 1 ≤ 2 ^ 20 := by
    have : k < 131072 := hlt
    omega
  refine (mem_span_pageNumberToAddress start hle b).mpr ?_
  rw [← hstart, addressToPageNumber_initPhysicalMemoryManager, hkn, hk]
  exact ⟨le_rfl, Nat.lt_succ_self k⟩

/-- **The images and the first 16 MB**: in every run after `InitPhysicalMemoryManager` in which each
search ends properly, clients are given no byte of the areas, if and only if the page of every byte
of the areas that the bitmap covers is reserved at boot. -/
theorem boot_areas_kept_iff (bootInfo : BootInfo) (bitmap : Bitmap trackedPages) :
    (∀ s, RunsWhere Client.Step Client.Searchable ⟨(initPhysicalMemoryManager bootInfo bitmap).2, []⟩ s →
        ∀ x ∈ s.live, Disjoint (pages x) (bootAreas bootInfo)) ↔
      AreasReserved bootInfo :=
  ⟨areasReserved_of_clients, fun hareas _ h => disjoint_bootAreas_of_runs hareas h⟩

/-- With a map that starts at address 0 the first 16 MB are reserved, and the images with them. -/
example : AreasReserved { bootInfo512 with systemMemoryMap := memoryMap512 } := by
  intro b hb _
  have hlow : b.toNat < 0x1000000 := by
    have hcut : ∀ a n, a.toNat + n ≤ 0x1000000 → b ∈ Span a n → b.toNat < 0x1000000 := by
      intro a n han hb
      have := ((mem_span_iff (by omega)).mp hb).2
      omega
    rcases hb with (hb | hb) | hb <;> exact hcut _ _ (by decide) hb
  have hbase : startOf memoryMap512 = 0#32 := by decide
  have hzero : pageOf memoryMap512 0#32 = 0#32 := by decide
  have hpage : (pageOf memoryMap512 b).toNat < 4096 := by
    rw [pageOf, hbase, BitVec.sub_zero, BitVec.toNat_udiv]
    exact Nat.div_lt_of_lt_mul hlow
  refine .inr (.inr (.inr (.inl ?_)))
  change Bitmap.InRange trackedPages (pageOf memoryMap512 0#32) (0x1000000#32 / 4096#32) (pageOf memoryMap512 b).toNat
  rw [hzero]
  exact ⟨by decide, Nat.zero_le _, by simpa using hpage⟩

/-- What is reserved on the machine with 512 MB: the boot loader's nine pages and the 272 whole pages
of the kernel, but not the page its image ends in; and nothing for the first 16 MB, since page numbers
are counted from 1 MB and those of address 0 wrap around. -/
theorem reservedAtBoot_bootInfo512 (i : ℕ) : ReservedAtBoot bootInfo512 i ↔
    (i % 8 = 0 ∧ 130816 ≤ i) ∨ i < 9 ∨ (256 ≤ i ∧ i < 528) := by
  have hloader : Bitmap.InRange trackedPages 0#32 9#32 i ↔ i < 9 :=
    ⟨fun h => h.2.2, fun h => ⟨by decide, Nat.zero_le i, h⟩⟩
  have hkernel : Bitmap.InRange trackedPages 256#32 272#32 i ↔ 256 ≤ i ∧ i < 528 :=
    ⟨fun h => h.2, fun h => ⟨by decide, h⟩⟩
  have hlow : ∀ n : SizeT, ¬ Bitmap.InRange trackedPages 1048320#32 n i :=
    fun n h => absurd ((Nat.le_add_right _ _).trans h.1) (by decide)
  rw [ReservedAtBoot, reservedByInit_bootInfo512,
    show pageOf bootInfo512.systemMemoryMap bootInfo512.bootloaderPhysicalStartAddress = 0#32 by decide,
    show bootInfo512.bootloaderSize / 4096#32 + 1#32 = 9#32 by decide,
    show pageOf bootInfo512.systemMemoryMap bootInfo512.kernelPhysicalStartAddress = 256#32 by decide,
    show bootInfo512.kernelSize / 4096#32 = 272#32 by decide,
    show pageOf bootInfo512.systemMemoryMap 0#32 = 1048320#32 by decide, hloader, hkernel]
  simp only [hlow, or_false]

/-- What `InitPhysicalMemoryManager` leaves on that machine. -/
theorem initPhysicalMemoryManager_bootInfo512 :
    ∃ start, start = (initPhysicalMemoryManager bootInfo512 Bitmap.resetAll).2 ∧ start.startAddress = 0x100000#32 ∧
      ∀ i < trackedPages, start.bitmap.bit i = true ↔ (i % 8 = 0 ∧ 130816 ≤ i) ∨ i < 9 ∨ (256 ≤ i ∧ i < 528) :=
  ⟨_, rfl, (initPhysicalMemoryManager_startAddress _ _).trans (by decide), fun i hi =>
    (bit_initPhysicalMemoryManager _ _ hi).trans (reservedAtBoot_bootInfo512 i)⟩

/-- The pages between the two images are free. -/
theorem unset_between_images {bm : Bitmap trackedPages}
    (hbit : ∀ i < trackedPages, bm.bit i = true ↔ (i % 8 = 0 ∧ 130816 ≤ i) ∨ i < 9 ∨ (256 ≤ i ∧ i < 528)) :
    bm.Unset 9 (247#32).toNat := by
  have hT : trackedPages = 131072 := rfl
  have hn : (247#32).toNat = 247 := rfl
  refine ⟨by decide, fun i hi hi' => ?_⟩
  rw [Bool.eq_false_iff, ne_eq, hbit i (by omega)]
  omega

/-- On that machine a client that has taken the pages between the two images is given the page the
kernel image ends in. -/
theorem kernel_tail_handed_out :
    ∃ s, Runs Client.Step ⟨(initPhysicalMemoryManager bootInfo512 Bitmap.resetAll).2, []⟩ s ∧
      ∃ x ∈ s.live, ¬ Disjoint (pages x) (bootAreas bootInfo512) := by
  have hT : trackedPages = 131072 := rfl
  have hn : (247#32).toNat = 247 := rfl
  have hone : (1#32).toNat = 1 := rfl
  obtain ⟨start, hstart, haddr, hbit⟩ := initPhysicalMemoryManager_bootInfo512
  rw [← hstart]
  have hgap := unset_between_images hbit
  have hbits := (Client.allocated_found (s := ⟨start, []⟩) (by decide) hgap
    (fun q hq => Bitmap.not_unset_of_bit ((hbit q (by omega)).mpr (by omega)) le_rfl (by omega))).2
  have hrun : Runs Client.Step ⟨start, []⟩ (Client.allocated ⟨start, []⟩ 247#32) :=
    RunsWhere.single trivial .allocatePages
  have hsame := (Client.reached_of_runs hrun).startAddress_eq
  generalize Client.allocated ⟨start, []⟩ 247#32 = s at hbits hrun hsame
  have htail : s.pmm.bitmap.Unset 528 (1#32).toNat := by
    refine Client.unset_one (by decide) ?_
    rw [hbits, decide_eq_false (by omega), Bool.false_or, Bool.eq_false_iff, ne_eq, hbit _ (by decide)]
    omega
  have hfirst : ∀ q < 528, ¬ s.pmm.bitmap.Unset q (1#32).toNat := by
    intro q hq
    refine Bitmap.not_unset_of_bit (i := q) ?_ le_rfl (by omega)
    rw [hbits, Bool.or_eq_true, decide_eq_true_eq, hbit q (by omega)]
    omega
  have hpage : s.pmm.pageNumberToAddress (BitVec.ofNat 32 528) = 0x310000#32 := by
    rw [pageNumberToAddress, s.pmm.pageSize_eq, hsame, haddr]
    decide
  have hlive := (Client.allocated_found (by decide) htail hfirst).1 (by rw [hpage]; decide)
  rw [hpage] at hlive
  refine ⟨s.allocated 1#32, hrun.tail trivial .allocatePages, (0x310000#32, 1#32), ?_, fun hdisj => ?_⟩
  · rw [hlive]; exact List.mem_cons_self
  · refine Set.disjoint_left.mp hdisj (self_mem_span (by decide)) (.inl (.inr ?_))
    exact mem_span.mpr (by decide)

end EagleOS.Memory
