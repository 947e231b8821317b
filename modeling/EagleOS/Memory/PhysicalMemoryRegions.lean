import Mathlib.Data.List.Perm.Basic
import EagleOS.Memory.PhysicalMemoryInit

/-!
# What `Init` makes of the memory map

Each region of type `Available` frees its pages, one region after the other. This module says what of the
memory map matters for that: not the order of its regions, but where they start and end.

## The model

A page is the 4096 bytes from its address on, as `PageNumberToAddress` computes it. `regionPages` is what a
region frees, when it frees anything: base and length are cut to 32 bits, the base is rounded down to a whole
number of pages from the lowest base, and the length is divided by the page size.

## What is proved

* `init_perm` — the order of the regions does not matter.
* `initFreeMemory_safe_iff` — when only available memory is freed; `initFreeMemory_unsafe` — where other
  memory is.
* `init_complete_iff` — when all available memory that the bitmap can hold is freed; `init_incomplete` — where
  it is not.
-/

namespace EagleOS.Memory

open ESTD Boot Foundations PhysicalMemoryManager

/-! ### The order of the regions -/

/-- One iteration of the loop of `InitMemory`, in numbers. -/
theorem widenBounds_toNat (memoryMap : MemoryMap) (bounds : BitVec 64 × BitVec 64) (r : MemoryRegion) :
    (widenBounds memoryMap bounds r).1.toNat = min r.baseAddress.toNat bounds.1.toNat ∧
      (widenBounds memoryMap bounds r).2.toNat = if r.baseAddress ≤ memoryMap.memoryAddressHigh.setWidth 64 then
        max (r.baseAddress + r.length).toNat bounds.2.toNat else bounds.2.toNat := by
  unfold widenBounds
  constructor
  · dsimp only
    split <;> rename_i h <;> rw [BitVec.lt_def] at h <;> omega
  · dsimp only
    by_cases hlow : r.baseAddress ≤ memoryMap.memoryAddressHigh.setWidth 64
    · simp only [hlow, true_and, if_true, BitVec.lt_def]
      split <;> omega
    · rw [if_neg hlow, if_neg fun h => hlow h.1]

/-- Two regions widen the bounds in either order. -/
theorem widenBounds_right_comm (memoryMap : MemoryMap) (bounds : BitVec 64 × BitVec 64) (r r' : MemoryRegion) :
    widenBounds memoryMap (widenBounds memoryMap bounds r) r' = widenBounds memoryMap (widenBounds memoryMap bounds r') r := by
  refine Prod.ext (BitVec.eq_of_toNat_eq ?_) (BitVec.eq_of_toNat_eq ?_)
  · simp only [widenBounds_toNat]
    exact Nat.min_left_comm _ _ _
  · simp only [widenBounds_toNat]
    split <;> split <;> first | rfl | exact Nat.max_left_comm _ _ _

/-- Two regions free their pages in either order. -/
theorem freeRegion_right_comm (pmm : PhysicalMemoryManager) (r r' : MemoryRegion) :
    freeRegion (freeRegion pmm r) r' = freeRegion (freeRegion pmm r') r := by
  have hclear : ∀ (bm : Bitmap trackedPages) (p n p' n' : SizeT),
      (bm.clearBits p n).clearBits p' n' = (bm.clearBits p' n').clearBits p n := fun bm p n p' n' =>
    Bitmap.ext_bit fun i => by simp only [Bitmap.bit_clearBits trackedPages_lt, Bool.and_left_comm]
  unfold freeRegion
  split <;> split <;> simp only [setRegionState, addressToPageNumber, hclear]

/-- The boot record with the regions in another order. -/
def withRegions (bootInfo : BootInfo) (regions : List MemoryRegion) : BootInfo :=
  { bootInfo with systemMemoryMap := { bootInfo.systemMemoryMap with regions } }

section

variable (bootInfo : BootInfo) (bitmap : Bitmap trackedPages)

/-- `Init` frees the regions one after the other. -/
theorem init_eq : init bootInfo bitmap =
    (true, bootInfo.systemMemoryMap.regions.foldl freeRegion ((initMemory bootInfo bitmap).2.initBitmap).2) := rfl

/-- **The order of the regions does not matter**: `Init` leaves the same object, whatever was in the bitmap. -/
theorem init_perm {regions : List MemoryRegion} (h : regions.Perm bootInfo.systemMemoryMap.regions)
    (bitmap' : Bitmap trackedPages) : init (withRegions bootInfo regions) bitmap' = init bootInfo bitmap := by
  have hwiden : RightCommutative (widenBounds bootInfo.systemMemoryMap) := ⟨widenBounds_right_comm _⟩
  have hfree : RightCommutative freeRegion := ⟨freeRegion_right_comm⟩
  have hbounds : memoryBounds (withRegions bootInfo regions).systemMemoryMap = memoryBounds bootInfo.systemMemoryMap :=
    h.foldl_eq (f := widenBounds bootInfo.systemMemoryMap) _
  have hinit : ((initMemory (withRegions bootInfo regions) bitmap').2.initBitmap).2 =
      ((initMemory bootInfo bitmap).2.initBitmap).2 := by
    simp only [initMemory, initBitmap, hbounds]
  rw [init_eq, init_eq, hinit]
  exact congrArg (Prod.mk true) (h.foldl_eq _)

end

/-- The memory above 1 MB and a reserved region below it, the one before and after the other. -/
theorem init_perm_bootInfo512 :
    init (withRegions bootInfo512 [⟨0x9FC00#64, 0x400#64, .reserved⟩, ⟨0x100000#64, 0x1FF00000#64, .available⟩])
        Bitmap.resetAll =
      init (withRegions bootInfo512 [⟨0x100000#64, 0x1FF00000#64, .available⟩, ⟨0x9FC00#64, 0x400#64, .reserved⟩])
        Bitmap.setAll :=
  init_perm (withRegions bootInfo512 [⟨0x100000#64, 0x1FF00000#64, .available⟩, ⟨0x9FC00#64, 0x400#64, .reserved⟩])
    _ (List.Perm.swap _ _ _) _

/-! ### Available memory only -/

/-- The pages that a region has by its length, cut to 32 bits. -/
def pagesOf (region : MemoryRegion) : SizeT := region.length.setWidth 32 / 4096#32

/-- The region frees pages: it is available, has some, and the last of them is in the bitmap. -/
def TakesEffect (memoryMap : MemoryMap) (region : MemoryRegion) : Prop :=
  region.type = .available ∧ 0 < (pagesOf region).toNat ∧
    (pageOf memoryMap (region.baseAddress.setWidth 32)).toNat + (pagesOf region).toNat ≤ trackedPages

instance (memoryMap : MemoryMap) (region : MemoryRegion) : Decidable (TakesEffect memoryMap region) :=
  inferInstanceAs (Decidable (_ ∧ _ ∧ _))

/-- By how much the base of a region lies past the start of a page. -/
def headOf (memoryMap : MemoryMap) (region : MemoryRegion) : ℕ :=
  (region.baseAddress.toNat - (memoryBounds memoryMap).1.toNat) % 4096

/-- The bytes of the pages that a region frees: its base, cut to 32 bits, is rounded down. -/
def regionPages (memoryMap : MemoryMap) (region : MemoryRegion) : Set PhysicalAddress :=
  Span (region.baseAddress.setWidth 32 - BitVec.ofNat 32 (headOf memoryMap region)) (4096 * (pagesOf region).toNat)

/-- The bytes are available, and none is in a region of another type. -/
def OnlyAvailable (memoryMap : MemoryMap) (bytes : Set PhysicalAddress) : Prop :=
  ∀ x ∈ bytes, memoryMap.AvailableAt x.toNat ∧
    ∀ region ∈ memoryMap.regions, region.type ≠ .available → ¬ region.bytes x.toNat

/-- What a region must satisfy for the pages that it frees to be available. -/
structure CutsRight (memoryMap : MemoryMap) (region : MemoryRegion) : Prop where
  /-- The bytes between the start of its first page and its base are available. -/
  head : region.baseAddress.toNat + 4096 * (pagesOf region).toNat ≤ 2 ^ 32 →
    ∀ x < region.baseAddress.toNat, region.baseAddress.toNat ≤ x + headOf memoryMap region → memoryMap.AvailableAt x
  /-- Where its pages do not lie below 4 GB, what they are moved to is available. -/
  moved : 2 ^ 32 < region.baseAddress.toNat + 4096 * (pagesOf region).toNat →
    ∀ x ∈ regionPages memoryMap region, memoryMap.AvailableAt x.toNat
  /-- No region of another type meets its pages. -/
  clear : ∀ x ∈ regionPages memoryMap region, ∀ other ∈ memoryMap.regions, other.type ≠ .available → ¬ other.bytes x.toNat

section

variable {memoryMap : MemoryMap} {region : MemoryRegion}

/-- The lowest base, cut to 32 bits, is as far from a base, cut to 32 bits, as before, but for whole pages. -/
theorem headOf_eq (h : region ∈ memoryMap.regions) :
    headOf memoryMap region = (region.baseAddress.setWidth 32 - startOf memoryMap).toNat % 4096 := by
  have hle := memoryBounds_le h
  rw [headOf, startOf, BitVec.toNat_sub, BitVec.toNat_setWidth, BitVec.toNat_setWidth]
  omega

theorem headOf_lt (memoryMap : MemoryMap) (region : MemoryRegion) : headOf memoryMap region < 4096 :=
  Nat.mod_lt _ (by decide)

/-- A region has no more pages than its length says. -/
theorem pagesOf_le (region : MemoryRegion) : 4096 * (pagesOf region).toNat ≤ region.length.toNat := by
  have hcut : (region.length.setWidth 32).toNat ≤ region.length.toNat := by
    rw [BitVec.toNat_setWidth]
    exact Nat.mod_le _ _
  rw [pagesOf, BitVec.toNat_udiv, show (4096#32).toNat = 4096 from rfl]
  omega

/-- The region frees the pages from that of its base on. -/
theorem regionFrees_iff {n : ℕ} : RegionFrees memoryMap region n ↔ TakesEffect memoryMap region ∧
    n ∈ cells ((pageOf memoryMap (region.baseAddress.setWidth 32)).toNat, (pagesOf region).toNat) := by
  rw [mem_cells]
  constructor
  · rintro ⟨htype, -, hend, hlow, hhigh⟩
    exact ⟨⟨htype, by rw [pagesOf]; omega, hend⟩, hlow, hhigh⟩
  · rintro ⟨⟨htype, hpos, hend⟩, hlow, hhigh⟩
    refine ⟨htype, ?_, hend, hlow, hhigh⟩
    have := pagesOf_le region
    rw [BitVec.lt_def]
    change 0 < _
    omega

/-- The pages of a region that takes effect are those with its page numbers. -/
theorem mem_regionPages (h : region ∈ memoryMap.regions) (heffect : TakesEffect memoryMap region)
    (pmm : PhysicalMemoryManager) (hstart : pmm.startAddress = startOf memoryMap) (x : PhysicalAddress) :
    x ∈ regionPages memoryMap region ↔ (pmm.addressToPageNumber x).toNat ∈
      cells ((pageOf memoryMap (region.baseAddress.setWidth 32)).toNat, (pagesOf region).toNat) := by
  have hend := heffect.2.2
  have hT : trackedPages = 131072 := rfl
  rw [← mem_span_pageNumberToAddress pmm (by omega), regionPages]
  have haddr : region.baseAddress.setWidth 32 - BitVec.ofNat 32 (headOf memoryMap region) =
      pmm.pageNumberToAddress (pageOf memoryMap (region.baseAddress.setWidth 32)) := by
    rw [pageNumberToAddress, pmm.pageSize_eq, hstart, headOf_eq h, pageOf]
    have hbase : region.baseAddress.setWidth 32 =
        startOf memoryMap + (region.baseAddress.setWidth 32 - startOf memoryMap) := by
      rw [BitVec.add_comm, BitVec.sub_add_cancel]
    generalize region.baseAddress.setWidth 32 - startOf memoryMap = d at hbase
    have hd : d / 4096#32 * 4096#32 = d - BitVec.ofNat 32 (d.toNat % 4096) := by
      apply BitVec.eq_of_toNat_eq
      rw [BitVec.toNat_mul, BitVec.toNat_udiv, BitVec.toNat_sub, show (4096#32).toNat = 4096 from rfl, BitVec.toNat_ofNat]
      omega
    rw [hbase, hd]
    bv_omega
  rw [haddr]

/-- Where the pages of a region lie below 4 GB, they are its own bytes and those between the start of the
first page and the base. -/
theorem regionPages_below (h : region ∈ memoryMap.regions)
    (hbelow : region.baseAddress.toNat + 4096 * (pagesOf region).toNat ≤ 2 ^ 32) (hpos : 0 < (pagesOf region).toNat)
    (x : PhysicalAddress) : x ∈ regionPages memoryMap region ↔ region.baseAddress.toNat ≤ x.toNat + headOf memoryMap region ∧
      x.toNat + headOf memoryMap region < region.baseAddress.toNat + 4096 * (pagesOf region).toNat := by
  have hle := memoryBounds_le h
  have hhead : headOf memoryMap region ≤ region.baseAddress.toNat :=
    (Nat.mod_le _ _).trans (Nat.sub_le _ _)
  have hstart : (region.baseAddress.setWidth 32 - BitVec.ofNat 32 (headOf memoryMap region)).toNat =
      region.baseAddress.toNat - headOf memoryMap region := by
    rw [BitVec.toNat_sub, BitVec.toNat_setWidth, BitVec.toNat_ofNat]
    omega
  rw [regionPages, mem_span_iff (by omega), hstart]
  omega

/-- The pages of a region are available and in no other region, if and only if it cuts them right. -/
theorem onlyAvailable_regionPages_iff (h : region ∈ memoryMap.regions) (heffect : TakesEffect memoryMap region) :
    OnlyAvailable memoryMap (regionPages memoryMap region) ↔ CutsRight memoryMap region := by
  obtain ⟨htype, hpos, -⟩ := heffect
  have hlength := pagesOf_le region
  constructor
  · intro hall
    refine ⟨fun hbelow x hx hhead => ?_, fun _ x hx => (hall x hx).1, fun x hx => (hall x hx).2⟩
    have hxn : (BitVec.ofNat 32 x).toNat = x := ofNat_toNat_of_lt (by omega)
    have hin : BitVec.ofNat 32 x ∈ regionPages memoryMap region := by
      rw [regionPages_below h hbelow hpos, hxn]
      have := headOf_lt memoryMap region
      omega
    have hx := (hall _ hin).1
    rwa [hxn] at hx
  · intro hcut x hx
    refine ⟨?_, hcut.clear x hx⟩
    by_cases hbelow : region.baseAddress.toNat + 4096 * (pagesOf region).toNat ≤ 2 ^ 32
    · rw [regionPages_below h hbelow hpos] at hx
      by_cases hown : region.baseAddress.toNat ≤ x.toNat
      · exact ⟨region, h, htype, hown, by omega⟩
      · exact hcut.head hbelow x.toNat (Nat.lt_of_not_le hown) hx.1
    · exact hcut.moved (Nat.lt_of_not_le hbelow) x hx

end

/-- **Only available memory is freed**: from a bitmap with every bit set, each page whose bit `InitFreeMemory`
clears is available and in no region of another type, if and only if every region that takes effect cuts its
pages right. -/
theorem initFreeMemory_safe_iff (bootInfo : BootInfo) (bitmap : Bitmap trackedPages)
    (hset : ∀ i < trackedPages, bitmap.bit i = true) :
    (∀ n < trackedPages, ((initMemory bootInfo bitmap).2.initFreeMemory bootInfo).2.bitmap.bit n = false →
        OnlyAvailable bootInfo.systemMemoryMap
          (Span ((initMemory bootInfo bitmap).2.pageNumberToAddress (BitVec.ofNat 32 n)) 4096)) ↔
      ∀ region ∈ bootInfo.systemMemoryMap.regions, TakesEffect bootInfo.systemMemoryMap region →
        CutsRight bootInfo.systemMemoryMap region := by
  have hbit := (initFreeMemory_spec bootInfo.systemMemoryMap bootInfo.systemMemoryMap.regions
    (initMemory bootInfo bitmap).2 rfl).2
  have hstart : (initMemory bootInfo bitmap).2.startAddress = startOf bootInfo.systemMemoryMap := rfl
  have hstored : (initMemory bootInfo bitmap).2.bitmap = bitmap := rfl
  have hafter : ((initMemory bootInfo bitmap).2.initFreeMemory bootInfo).2 =
      bootInfo.systemMemoryMap.regions.foldl freeRegion (initMemory bootInfo bitmap).2 := rfl
  rw [hafter]
  generalize (initMemory bootInfo bitmap).2 = pmm at hbit hstart hstored ⊢
  have hT : trackedPages = 131072 := rfl
  -- a page is freed when a region that takes effect frees it
  have hfreed : ∀ n < trackedPages, (bootInfo.systemMemoryMap.regions.foldl freeRegion pmm).bitmap.bit n = false ↔
      ∃ region ∈ bootInfo.systemMemoryMap.regions, RegionFrees bootInfo.systemMemoryMap region n := by
    intro n hn
    rw [← Bool.not_eq_true, hbit, hstored, not_and_not_right]
    exact ⟨fun h => h (hset n hn), fun h _ => h⟩
  have hpage : ∀ n < trackedPages, ∀ x, x ∈ Span (pmm.pageNumberToAddress (BitVec.ofNat 32 n)) 4096 ↔
      (pmm.addressToPageNumber x).toNat = n := by
    intro n hn x
    have hnn : (BitVec.ofNat 32 n).toNat = n := ofNat_toNat_of_lt (by omega)
    refine (mem_span_pageNumberToAddress pmm (n := 1) (by omega) x).trans ?_
    rw [hnn, mem_cells]
    omega
  constructor
  · intro hsafe region hregion heffect
    refine (onlyAvailable_regionPages_iff hregion heffect).mp fun x hx => ?_
    have hcells := (mem_regionPages hregion heffect pmm hstart x).mp hx
    have hlt : (pmm.addressToPageNumber x).toNat < trackedPages := by
      rw [mem_cells] at hcells
      have := heffect.2.2
      omega
    exact hsafe _ hlt ((hfreed _ hlt).mpr ⟨region, hregion, regionFrees_iff.mpr ⟨heffect, hcells⟩⟩) x
      ((hpage _ hlt x).mpr rfl)
  · intro hcut n hn hclear x hx
    obtain ⟨region, hregion, hfrees⟩ := (hfreed n hn).mp hclear
    obtain ⟨heffect, hcells⟩ := regionFrees_iff.mp hfrees
    refine (onlyAvailable_regionPages_iff hregion heffect).mpr (hcut region hregion heffect) x ?_
    rw [mem_regionPages hregion heffect pmm hstart, (hpage n hn x).mp hx]
    exact hcells

/-- A bitmap with every bit set. -/
def allSet : Bitmap trackedPages := ⟨Vector.replicate trackedPages 0xFF#8⟩

theorem bit_allSet {i : ℕ} (hi : i < trackedPages) : allSet.bit i = true := by
  have hbyte : ∀ j < 8, (0xFF#8).getLsbD j = true := by decide
  have hdiv : i / 8 < trackedPages := lt_of_le_of_lt (Nat.div_le_self i 8) hi
  simpa [Bitmap.bit, Bitmap.byteAt, allSet, hdiv] using hbyte (i % 8) (Nat.mod_lt _ (by decide))

/-- On the machine with 512 MB the page at 1 MB is freed, and is available. -/
theorem initFreeMemory_safe_bootInfo512 :
    ((initMemory bootInfo512 allSet).2.initFreeMemory bootInfo512).2.bitmap.bit 0 = false ∧
      OnlyAvailable bootInfo512.systemMemoryMap
        (Span ((initMemory bootInfo512 allSet).2.pageNumberToAddress (BitVec.ofNat 32 0)) 4096) := by
  have hfirst : ((initMemory bootInfo512 allSet).2.initFreeMemory bootInfo512).2.bitmap.bit 0 = false := by
    have hbit := (initFreeMemory_spec bootInfo512.systemMemoryMap bootInfo512.systemMemoryMap.regions
      (initMemory bootInfo512 allSet).2 rfl).2 0
    exact Bool.eq_false_iff.mpr fun h => (hbit.mp h).2 ⟨⟨0x100000#64, 0x1FF00000#64, .available⟩, by decide, by decide⟩
  refine ⟨hfirst, (initFreeMemory_safe_iff bootInfo512 allSet fun i => bit_allSet).mpr (fun region hregion _ => ?_) 0
    (by decide) hfirst⟩
  obtain rfl : region = ⟨0x100000#64, 0x1FF00000#64, .available⟩ := List.mem_singleton.mp hregion
  have hhead : headOf bootInfo512.systemMemoryMap ⟨0x100000#64, 0x1FF00000#64, .available⟩ = 0 := by decide
  refine ⟨fun _ x hx hle => ?_, fun hmoved => absurd hmoved (by decide), fun x _ other hother hne => ?_⟩
  · rw [hhead] at hle
    omega
  · obtain rfl : other = ⟨0x100000#64, 0x1FF00000#64, .available⟩ := List.mem_singleton.mp hother
    exact absurd rfl hne

/-- A base that is not on a page boundary is rounded down: the page from `0x1000` on is freed, and its first
half is in no region. -/
theorem initFreeMemory_unsafe :
    let bootInfo := withRegions bootInfo512 [⟨0#64, 0x1000#64, .reserved⟩, ⟨0x1800#64, 0x1000#64, .available⟩]
    (∀ i < trackedPages, allSet.bit i = true) ∧
      ((initMemory bootInfo allSet).2.initFreeMemory bootInfo).2.bitmap.bit 1 = false ∧
      ¬ OnlyAvailable bootInfo.systemMemoryMap
        (Span ((initMemory bootInfo allSet).2.pageNumberToAddress (BitVec.ofNat 32 1)) 4096) := by
  intro bootInfo
  refine ⟨fun i => bit_allSet, ?_, fun hall => ?_⟩
  · have hbit := (initFreeMemory_spec bootInfo.systemMemoryMap bootInfo.systemMemoryMap.regions
      (initMemory bootInfo allSet).2 rfl).2 1
    refine Bool.eq_false_iff.mpr fun h => (hbit.mp h).2 ?_
    exact ⟨⟨0x1800#64, 0x1000#64, .available⟩, by decide, by decide⟩
  · have haddr : (initMemory bootInfo allSet).2.pageNumberToAddress (BitVec.ofNat 32 1) = 0x1000#32 := by
      apply BitVec.eq_of_toNat_eq
      rw [pageNumberToAddress_toNat]
      decide
    rw [haddr] at hall
    obtain ⟨⟨region, hregion, htype, hlow, -⟩, -⟩ := hall 0x1000#32 (self_mem_span (by decide))
    have hcases : region = ⟨0#64, 0x1000#64, .reserved⟩ ∨ region = ⟨0x1800#64, 0x1000#64, .available⟩ :=
      (List.mem_cons.mp hregion).imp_right List.mem_singleton.mp
    rcases hcases with rfl | rfl
    · cases htype
    · exact absurd hlow (by decide)

/-! ### All available memory -/

/-- The page with number `n`, counted from the lowest base, lies in the region. -/
def PageIn (memoryMap : MemoryMap) (region : MemoryRegion) (n : ℕ) : Prop :=
  region.baseAddress.toNat ≤ (memoryBounds memoryMap).1.toNat + 4096 * n ∧
    (memoryBounds memoryMap).1.toNat + 4096 * (n + 1) ≤ region.baseAddress.toNat + region.length.toNat

/-- The page lies in an available region. -/
def InAvailable (memoryMap : MemoryMap) (n : ℕ) : Prop :=
  ∃ region ∈ memoryMap.regions, region.type = .available ∧ PageIn memoryMap region n

/-- The regions are made of whole pages and end at or below 4 GB. -/
def WholePages (memoryMap : MemoryMap) : Prop :=
  ∀ region ∈ memoryMap.regions, region.baseAddress.toNat % 4096 = 0 ∧ region.length.toNat % 4096 = 0 ∧
    region.baseAddress.toNat + region.length.toNat ≤ 2 ^ 32

/-- The region ends at or below the end of the memory that the bitmap covers. -/
def EndsInBitmap (memoryMap : MemoryMap) (region : MemoryRegion) : Prop :=
  region.baseAddress.toNat + region.length.toNat ≤ (memoryBounds memoryMap).1.toNat + 4096 * trackedPages

/-- The lowest base is one of the bases, if there are any. -/
theorem memoryBounds_mem (memoryMap : MemoryMap) :
    (memoryBounds memoryMap).1 = -1 ∨ ∃ region ∈ memoryMap.regions, region.baseAddress = (memoryBounds memoryMap).1 := by
  have hfold : ∀ (regions : List MemoryRegion) (bounds : BitVec 64 × BitVec 64),
      (regions.foldl (widenBounds memoryMap) bounds).1 = bounds.1 ∨
        ∃ region ∈ regions, region.baseAddress = (regions.foldl (widenBounds memoryMap) bounds).1 := by
    intro regions
    induction regions with
    | nil => exact fun _ => .inl rfl
    | cons r regions ih =>
      intro bounds
      rw [List.foldl_cons]
      rcases ih (widenBounds memoryMap bounds r) with he | ⟨region, hregion, he⟩
      · rw [he, widenBounds]
        dsimp only
        split
        · exact .inr ⟨r, List.mem_cons_self, rfl⟩
        · exact .inl rfl
      · exact .inr ⟨region, List.mem_cons_of_mem _ hregion, he⟩
  exact hfold memoryMap.regions (-1, 0)

/-- Of whole pages, a region frees those that lie in it, if it does not pass the end of the bitmap. -/
theorem regionFrees_iff_pageIn {memoryMap : MemoryMap} {region : MemoryRegion} (hwhole : WholePages memoryMap)
    (h : region ∈ memoryMap.regions) (n : ℕ) :
    RegionFrees memoryMap region n ↔
      region.type = .available ∧ PageIn memoryMap region n ∧ EndsInBitmap memoryMap region := by
  have hlow := memoryBounds_le h
  obtain ⟨hbase, hlength, hend⟩ := hwhole region h
  have hfirst : (memoryBounds memoryMap).1.toNat % 4096 = 0 := by
    rcases memoryBounds_mem memoryMap with he | ⟨r, hr, he⟩
    · rw [he, show (-1 : BitVec 64).toNat = 2 ^ 64 - 1 from rfl] at hlow
      omega
    · rw [← he]
      exact (hwhole r hr).1
  have hT : trackedPages = 131072 := rfl
  have hpages : (pagesOf region).toNat = region.length.toNat % 2 ^ 32 / 4096 := by
    rw [pagesOf, BitVec.toNat_udiv, BitVec.toNat_setWidth]
    rfl
  have hpage : (pageOf memoryMap (region.baseAddress.setWidth 32)).toNat =
      (2 ^ 32 - (memoryBounds memoryMap).1.toNat % 2 ^ 32 + region.baseAddress.toNat % 2 ^ 32) % 2 ^ 32 / 4096 := by
    rw [pageOf, BitVec.toNat_udiv, BitVec.toNat_sub, startOf, BitVec.toNat_setWidth, BitVec.toNat_setWidth]
    rfl
  obtain ⟨l, hl⟩ : ∃ l, region.length.toNat = 4096 * l := Nat.dvd_of_mod_eq_zero hlength
  obtain ⟨b, hb⟩ : ∃ b, region.baseAddress.toNat = (memoryBounds memoryMap).1.toNat + 4096 * b :=
    ⟨(region.baseAddress.toNat - (memoryBounds memoryMap).1.toNat) / 4096, by omega⟩
  rw [regionFrees_iff, TakesEffect, mem_cells, PageIn, EndsInBitmap, and_assoc, hT]
  refine and_congr_right fun _ => ?_
  by_cases hword : region.baseAddress.toNat < 2 ^ 32 ∧ region.length.toNat < 2 ^ 32
  · -- the page numbers do not wrap around
    have hpages' : (pagesOf region).toNat = l := by omega
    have hpage' : (pageOf memoryMap (region.baseAddress.setWidth 32)).toNat = b := by omega
    rw [hpages', hpage', hb, hl]
    dsimp only
    omega
  · -- the region is empty, or is all of the address space
    have hpages' : (pagesOf region).toNat = 0 := by omega
    rw [hpages']
    dsimp only
    omega

/-- **All available memory is freed**: of whole pages, `Init` frees each page of the bitmap that lies in an
available region, if and only if each of them that is a multiple of eight lies in one that does not pass the
end of the bitmap. -/
theorem init_complete_iff (bootInfo : BootInfo) (bitmap : Bitmap trackedPages)
    (hwhole : WholePages bootInfo.systemMemoryMap) :
    (∀ n < trackedPages, InAvailable bootInfo.systemMemoryMap n → (init bootInfo bitmap).2.bitmap.bit n = false) ↔
      ∀ n < trackedPages, n % 8 = 0 → InAvailable bootInfo.systemMemoryMap n →
        ∃ region ∈ bootInfo.systemMemoryMap.regions, region.type = .available ∧
          PageIn bootInfo.systemMemoryMap region n ∧ EndsInBitmap bootInfo.systemMemoryMap region := by
  have hfree : ∀ n < trackedPages, (init bootInfo bitmap).2.bitmap.bit n = false ↔ (n % 8 = 0 →
      ∃ region ∈ bootInfo.systemMemoryMap.regions, RegionFrees bootInfo.systemMemoryMap region n) := by
    intro n hn
    rw [← Bool.not_eq_true, bit_init bootInfo bitmap hn, ReservedByInit, not_and_not_right]
  constructor
  · intro hall n hn hmod hin
    obtain ⟨region, hregion, hfrees⟩ := (hfree n hn).mp (hall n hn hin) hmod
    exact ⟨region, hregion, (regionFrees_iff_pageIn hwhole hregion n).mp hfrees⟩
  · intro hall n hn hin
    refine (hfree n hn).mpr fun hmod => ?_
    obtain ⟨region, hregion, hends⟩ := hall n hn hmod hin
    exact ⟨region, hregion, (regionFrees_iff_pageIn hwhole hregion n).mpr hends⟩

/-- On the machine with 512 MB the page at 1 MB is in the available region, and is freed. -/
theorem init_complete_bootInfo512 : InAvailable bootInfo512.systemMemoryMap 0 ∧
    (init bootInfo512 Bitmap.resetAll).2.bitmap.bit 0 = false := by
  have hin : InAvailable bootInfo512.systemMemoryMap 0 := ⟨_, List.mem_singleton_self _, rfl, by rw [PageIn]; decide⟩
  refine ⟨hin, (init_complete_iff bootInfo512 Bitmap.resetAll fun region hregion => ?_).mpr ?_ 0 (by decide) hin⟩
  · obtain rfl : region = ⟨0x100000#64, 0x1FF00000#64, .available⟩ := List.mem_singleton.mp hregion
    decide
  · rintro n - - ⟨region, hregion, htype, hpage⟩
    obtain rfl : region = ⟨0x100000#64, 0x1FF00000#64, .available⟩ := List.mem_singleton.mp hregion
    exact ⟨_, hregion, htype, hpage, by rw [EndsInBitmap]; decide⟩

/-- On a machine with 1024 MB the region from 1 MB on passes the end of the bitmap, and its first page stays
reserved. -/
theorem init_incomplete :
    let bootInfo := withRegions bootInfo512 [⟨0x100000#64, 0x3FEE0000#64, .available⟩]
    WholePages bootInfo.systemMemoryMap ∧ InAvailable bootInfo.systemMemoryMap 0 ∧
      (init bootInfo Bitmap.resetAll).2.bitmap.bit 0 = true := by
  intro bootInfo
  refine ⟨fun region hregion => ?_, ⟨_, List.mem_singleton_self _, rfl, by rw [PageIn]; decide⟩, ?_⟩
  · obtain rfl : region = ⟨0x100000#64, 0x3FEE0000#64, .available⟩ := List.mem_singleton.mp hregion
    decide
  · rw [bit_init _ _ (by decide)]
    decide

end EagleOS.Memory
