import EagleOS.Boot.BootInfo
import EagleOS.Foundations.Ledger
import EagleOS.Foundations.Memory
import EagleOS.Foundations.Run

/-!
# `PhysicalMemoryManager`

The physical page allocator: a bitmap of 131072 pages of 4096 bytes, counted from
the lowest base address of the memory map.

## The model

`PhysicalMemoryManager` is the object; `Init` stores 4096 in `m_PageSize` and nothing
else writes it, so the structure carries that as a field. All arithmetic on
addresses and page numbers is that of 32-bit words.

## What is proved

* `addressToPageNumber_pageNumberToAddress`, `mem_span_pageNumberToAddress` — page
  numbers and addresses name each other, for the pages of the bitmap.
* `allocatePages_spec` — the ways `AllocatePages` ends (`Allocated`), from
  `findUnsetBits_spec`.
-/

namespace EagleOS.Memory

open ESTD Boot Foundations Relation

/-- `PageState`. -/
inductive PageState where
  /-- `0x0`. -/
  | free
  /-- `0x1`. -/
  | reserved
  deriving DecidableEq

/-- How many pages the bitmap covers. -/
abbrev trackedPages : ℕ := 131072

theorem trackedPages_lt : trackedPages < 2 ^ 32 := by decide

/-- The page size that both allocators' `Init` stores: the proof that their objects carry. -/
theorem pageSize_stored : (4096#32 : SizeT) = 4096#32 := rfl

/-- `PhysicalMemoryManager`. -/
structure PhysicalMemoryManager where
  /-- `m_PageSize`. -/
  pageSize : SizeT
  /-- `m_MemorySizeBytes`. -/
  memorySizeBytes : SizeT
  /-- `m_PageCount`. -/
  pageCount : SizeT
  /-- `m_StartAddress`. -/
  startAddress : PhysicalAddress
  /-- `m_EndAddress`. -/
  endAddress : PhysicalAddress
  /-- `m_Bitmap`. -/
  bitmap : Bitmap trackedPages
  /-- The page size that `Init` stores. -/
  pageSize_eq : pageSize = 4096#32

namespace PhysicalMemoryManager

/-- `AddressToPageNumber`. -/
def addressToPageNumber (pmm : PhysicalMemoryManager) (address : PhysicalAddress) : SizeT :=
  (address - pmm.startAddress) / pmm.pageSize

/-- `PageNumberToAddress`. -/
def pageNumberToAddress (pmm : PhysicalMemoryManager) (pageNumber : SizeT) : PhysicalAddress :=
  pmm.startAddress + pageNumber * pmm.pageSize

/-- `AllocatePages`. -/
def allocatePages (pmm : PhysicalMemoryManager) (pageCount : SizeT) : PhysicalAddress × PhysicalMemoryManager :=
  if pageCount = 0 then (0, pmm)
  else
    let firstPage := pmm.bitmap.findUnsetBits pageCount
    if firstPage < 0 then (0, pmm)
    else
      let pmm := { pmm with bitmap := pmm.bitmap.setBits (BitVec.ofInt 32 firstPage) pageCount }
      (pmm.pageNumberToAddress (BitVec.ofInt 32 firstPage), pmm)

/-- `AllocatePage`. -/
def allocatePage (pmm : PhysicalMemoryManager) : PhysicalAddress × PhysicalMemoryManager := pmm.allocatePages 1

/-- `FreePages`. -/
def freePages (pmm : PhysicalMemoryManager) (address : PhysicalAddress) (pageCount : SizeT) :
    PhysicalMemoryManager :=
  if address = 0 then pmm
  else { pmm with bitmap := pmm.bitmap.clearBits (pmm.addressToPageNumber address) pageCount }

/-- `FreePage`. -/
def freePage (pmm : PhysicalMemoryManager) (address : PhysicalAddress) : PhysicalMemoryManager :=
  pmm.freePages address 1

/-- `ReservePages`. -/
def reservePages (pmm : PhysicalMemoryManager) (address : PhysicalAddress) (pageCount : SizeT) :
    PhysicalMemoryManager :=
  { pmm with bitmap := pmm.bitmap.setBits (pmm.addressToPageNumber address) pageCount }

/-- `ReservePage`. -/
def reservePage (pmm : PhysicalMemoryManager) (address : PhysicalAddress) : PhysicalMemoryManager :=
  pmm.reservePages address 1

/-- `SetRegionState`. -/
def setRegionState (pmm : PhysicalMemoryManager) (address : PhysicalAddress) (sizeBytes : SizeT)
    (state : PageState) : PhysicalMemoryManager :=
  let pageNumber := pmm.addressToPageNumber address
  let pageCount := sizeBytes / pmm.pageSize
  match state with
  | .free => { pmm with bitmap := pmm.bitmap.clearBits pageNumber pageCount }
  | .reserved => { pmm with bitmap := pmm.bitmap.setBits pageNumber pageCount }

/-- One iteration of the loop of `InitMemory`: the lowest base, and the highest end of the regions
that start at or below `MemoryAddressHigh`. -/
def widenBounds (memoryMap : MemoryMap) (bounds : BitVec 64 × BitVec 64) (region : MemoryRegion) :
    BitVec 64 × BitVec 64 :=
  (if region.baseAddress < bounds.1 then region.baseAddress else bounds.1,
    if region.baseAddress ≤ memoryMap.memoryAddressHigh.setWidth 64 ∧
        bounds.2 < region.baseAddress + region.length then
      region.baseAddress + region.length
    else bounds.2)

/-- `memoryStart` and `memoryEnd` after the loop of `InitMemory`. -/
def memoryBounds (memoryMap : MemoryMap) : BitVec 64 × BitVec 64 :=
  memoryMap.regions.foldl (widenBounds memoryMap) (-1, 0)

/-- `InitMemory`, on an object with the bitmap `bitmap`. -/
def initMemory (bootInfo : BootInfo) (bitmap : Bitmap trackedPages) : Bool × PhysicalMemoryManager :=
  let bounds := memoryBounds bootInfo.systemMemoryMap
  let startAddress : PhysicalAddress := bounds.1.setWidth 32
  let endAddress : PhysicalAddress := bounds.2.setWidth 32
  (true,
    { pageSize := 4096#32
      memorySizeBytes := endAddress - startAddress
      pageCount := (endAddress - startAddress) / 4096#32
      startAddress
      endAddress
      bitmap
      pageSize_eq := pageSize_stored })

/-- `InitBitmap`. -/
def initBitmap (pmm : PhysicalMemoryManager) : Bool × PhysicalMemoryManager :=
  (true, { pmm with bitmap := Bitmap.setAll })

/-- One iteration of the loop of `InitFreeMemory`. -/
def freeRegion (pmm : PhysicalMemoryManager) (region : MemoryRegion) : PhysicalMemoryManager :=
  if region.type = .available ∧ 0 < region.length then
    pmm.setRegionState (region.baseAddress.setWidth 32) (region.length.setWidth 32) .free
  else pmm

/-- `InitFreeMemory`. -/
def initFreeMemory (pmm : PhysicalMemoryManager) (bootInfo : BootInfo) : Bool × PhysicalMemoryManager :=
  (true, bootInfo.systemMemoryMap.regions.foldl freeRegion pmm)

/-- `Init`, on an object with the bitmap `bitmap`. -/
def init (bootInfo : BootInfo) (bitmap : Bitmap trackedPages) : Bool × PhysicalMemoryManager :=
  match initMemory bootInfo bitmap with
  | (false, pmm) => (false, pmm)
  | (true, pmm) =>
    match pmm.initBitmap with
    | (false, pmm) => (false, pmm)
    | (true, pmm) => pmm.initFreeMemory bootInfo

/-! ### Pages and their addresses -/

variable (pmm : PhysicalMemoryManager)

theorem addressToPageNumber_toNat (address : PhysicalAddress) :
    (pmm.addressToPageNumber address).toNat = (address - pmm.startAddress).toNat / 4096 := by
  rw [addressToPageNumber, pmm.pageSize_eq, BitVec.toNat_udiv]; rfl

theorem pageNumberToAddress_toNat (p : ℕ) :
    (pmm.pageNumberToAddress (BitVec.ofNat 32 p)).toNat = (pmm.startAddress.toNat + 4096 * p) % 2 ^ 32 := by
  rw [pageNumberToAddress, pmm.pageSize_eq, BitVec.toNat_add, BitVec.toNat_mul]
  simp only [BitVec.toNat_ofNat]
  omega

/-- The page number of a page's address. -/
theorem addressToPageNumber_pageNumberToAddress {p : SizeT} (hp : p.toNat < 2 ^ 20) :
    pmm.addressToPageNumber (pmm.pageNumberToAddress p) = p := by
  apply BitVec.eq_of_toNat_eq
  rw [addressToPageNumber_toNat, pageNumberToAddress, BitVec.add_comm, BitVec.add_sub_cancel, pmm.pageSize_eq,
    BitVec.toNat_mul]
  simp only [BitVec.toNat_ofNat]
  omega

/-- The bytes of an allocation of `n` pages at `a`. -/
def pages (x : PhysicalAddress × SizeT) : Set PhysicalAddress := Span x.1 (4096 * x.2.toNat)

/-- A byte lies in `n` pages from page `p` on when its page number is one of theirs. -/
theorem mem_span_pageNumberToAddress {p : SizeT} {n : ℕ} (hp : p.toNat + n ≤ 2 ^ 20) (x : PhysicalAddress) :
    x ∈ Span (pmm.pageNumberToAddress p) (4096 * n) ↔ (pmm.addressToPageNumber x).toNat ∈ cells (p.toNat, n) := by
  rw [mem_span, mem_cells, addressToPageNumber_toNat, pageNumberToAddress, pmm.pageSize_eq]
  simp only [BitVec.toNat_sub, BitVec.toNat_add, BitVec.toNat_mul, BitVec.toNat_ofNat]
  omega

@[simp] theorem reservePages_startAddress (address : PhysicalAddress) (pageCount : SizeT) :
    (pmm.reservePages address pageCount).startAddress = pmm.startAddress := rfl

/-! ### What `AllocatePages` does -/

/-- The search for `n` pages ends properly, or is not made at all. -/
def Searchable (n : SizeT) : Prop := n = 0 ∨ pmm.bitmap.Searchable n.toNat

/-- The ways `AllocatePages(n)` ends. -/
inductive Allocated (n : SizeT) : PhysicalAddress × PhysicalMemoryManager → Prop
  /-- No page is asked for, or there is no run of `n` free pages and the last page is reserved. -/
  | none : (n = 0 ∨ ((∀ q, ¬ pmm.bitmap.Unset q n.toNat) ∧ pmm.bitmap.bit (trackedPages - 1) = true)) →
      Allocated n (0, pmm)
  /-- The first run of `n` free pages is reserved. -/
  | found {p : ℕ} : 0 < n.toNat → pmm.bitmap.Unset p n.toNat → (∀ q < p, ¬ pmm.bitmap.Unset q n.toNat) →
      Allocated n (pmm.pageNumberToAddress (BitVec.ofNat 32 p),
        { pmm with bitmap := pmm.bitmap.setBits (BitVec.ofNat 32 p) n })
  /-- There is no run of `n` free pages and the last page is free: the address of the run that
  ends the bitmap is returned, and nothing is reserved. -/
  | short {p : ℕ} : ¬ pmm.Searchable n → p < trackedPages → trackedPages < p + n.toNat →
      (∀ i, p ≤ i → i < trackedPages → pmm.bitmap.bit i = false) →
      (p = 0 ∨ pmm.bitmap.bit (p - 1) = true) →
      Allocated n (pmm.pageNumberToAddress (BitVec.ofNat 32 p), pmm)

theorem ofNat_toNat_of_lt {p : ℕ} (h : p < 2 ^ 32) : (BitVec.ofNat 32 p).toNat = p := by
  rw [BitVec.toNat_ofNat, Nat.mod_eq_of_lt h]

theorem ofInt_natCast (p : ℕ) : BitVec.ofInt 32 (p : ℤ) = BitVec.ofNat 32 p := by
  simp

/-- What `AllocatePages` computes when the search returns a page. -/
theorem allocatePages_of_nonneg {n : SizeT} {p : ℕ} (hn : n ≠ 0) (h : pmm.bitmap.findUnsetBits n = p) :
    pmm.allocatePages n = (pmm.pageNumberToAddress (BitVec.ofNat 32 p),
      { pmm with bitmap := pmm.bitmap.setBits (BitVec.ofNat 32 p) n }) := by
  rw [allocatePages, if_neg hn]
  simp only [h, ofInt_natCast]
  rw [if_neg (by omega)]
  rfl

/-- `AllocatePages` ends in one of the three ways. -/
theorem allocatePages_spec (n : SizeT) : pmm.Allocated n (pmm.allocatePages n) := by
  by_cases hn : n = 0
  · rw [allocatePages, if_pos hn]
    exact .none (.inl hn)
  have hpos : 0 < n.toNat := Nat.pos_of_ne_zero fun h => hn (BitVec.eq_of_toNat_eq h)
  have hspec : Bitmap.FindResult pmm.bitmap n.toNat (pmm.bitmap.findUnsetBits n) :=
    Bitmap.findUnsetBits_spec (by decide) hpos
  generalize hr : pmm.bitmap.findUnsetBits n = r at hspec
  cases hspec with
  | @found p hp hmin =>
    rw [allocatePages_of_nonneg pmm hn hr]
    exact .found hpos hp hmin
  | @short p hno hp hrun hprev =>
    have hlong : trackedPages < p + n.toNat := by
      by_contra hle
      exact hno p ⟨by omega, fun i hi hi' => hrun i hi (by omega)⟩
    have hns : ¬ pmm.Searchable n := by
      rintro (h0 | ⟨q, hq⟩ | hlast)
      · exact hn h0
      · exact hno q hq
      · rw [hrun _ (by omega) (by decide)] at hlast
        cases hlast
    have hset : pmm.bitmap.setBits (BitVec.ofNat 32 p) n = pmm.bitmap := by
      rw [Bitmap.setBits, Bitmap.forBits_of_lt]
      rwa [ofNat_toNat_of_lt (lt_trans hp (by decide))]
    rw [allocatePages_of_nonneg pmm hn hr, hset]
    exact .short hns hp hlong hrun hprev
  | none hno hlast =>
    rw [allocatePages, if_neg hn]
    simp only [hr]
    exact .none (.inr ⟨hno, hlast.resolve_left (by decide)⟩)

variable {pmm}

/-- `AllocatePages` takes the first run of free pages that is long enough. -/
theorem allocatePages_found {n : SizeT} {p : ℕ} (hn : 0 < n.toNat) (hp : pmm.bitmap.Unset p n.toNat)
    (hmin : ∀ q < p, ¬ pmm.bitmap.Unset q n.toNat) :
    pmm.allocatePages n = (pmm.pageNumberToAddress (BitVec.ofNat 32 p),
      { pmm with bitmap := pmm.bitmap.setBits (BitVec.ofNat 32 p) n }) := by
  have hspec := pmm.allocatePages_spec n
  generalize pmm.allocatePages n = r at hspec ⊢
  cases hspec with
  | none h =>
    rcases h with rfl | ⟨hno, -⟩
    · exact absurd hn (by decide)
    · exact absurd hp (hno p)
  | @found q _ hq hqmin =>
    have hpq : p = q := by
      rcases Nat.lt_trichotomy p q with hlt | he | hlt
      · exact absurd hp (hqmin p hlt)
      · exact he
      · exact absurd hq (hmin q hlt)
    rw [hpq]
  | short hns => exact absurd (.inr (.inl ⟨p, hp⟩)) hns

/-- With no run long enough and the last page free, `AllocatePages` returns the run that ends the
bitmap, and reserves nothing: a second call returns it again. -/
theorem allocatePages_short {n : SizeT} {p : ℕ} (hn : 0 < n.toNat) (hno : ∀ q, ¬ pmm.bitmap.Unset q n.toNat)
    (hp : p < trackedPages) (hrun : ∀ i, p ≤ i → i < trackedPages → pmm.bitmap.bit i = false)
    (hprev : p = 0 ∨ pmm.bitmap.bit (p - 1) = true) :
    pmm.allocatePages n = (pmm.pageNumberToAddress (BitVec.ofNat 32 p), pmm) := by
  have hlast : pmm.bitmap.bit (trackedPages - 1) = false := hrun _ (by omega) (by decide)
  have hspec := pmm.allocatePages_spec n
  generalize pmm.allocatePages n = r at hspec ⊢
  cases hspec with
  | none h =>
    rcases h with rfl | ⟨-, hset⟩
    · exact absurd hn (by decide)
    · exact absurd (hlast.symm.trans hset) (by decide)
  | found _ hq => exact absurd hq (hno _)
  | @short q _ hq _ hqrun hqprev =>
    have hpq : p = q := by
      rcases Nat.lt_trichotomy p q with hlt | he | hlt
      · rcases hqprev with rfl | hset
        · omega
        · simp [hrun (q - 1) (by omega) (by omega)] at hset
      · exact he
      · rcases hprev with rfl | hset
        · omega
        · simp [hqrun (p - 1) (by omega) (by omega)] at hset
    rw [hpq]

end PhysicalMemoryManager

end EagleOS.Memory
