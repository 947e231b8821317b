import EagleOS.Boot.BootInfo
import EagleOS.ESTD.Basic

/-!
# Two-level paging

The walk that the processor makes through the page tables, with 4 KB pages: the directory that `cr3`
points at has one word for every 4 MB of virtual addresses, and each of them may point at a table of one
word for every page. The tables are read from physical memory.

## What is proved

* `disjoint_entries` — the words of page-aligned tables do not overlap.
* `frame_entryFor`, `present_entryFor`, `writable_entryFor`, `flags_entryFor` — what an entry made for a page-aligned
  frame says.
-/

namespace EagleOS.Arch

open Foundations

/-- A page or table entry: an address in the upper 20 bits, flags in the lower 12. -/
abbrev Entry := BitVec 32

/-- Bit 0: the entry is in use. -/
def Entry.present (e : Entry) : Bool := e &&& 0x1#32 != 0#32

/-- Bit 1: writing is allowed. -/
def Entry.writable (e : Entry) : Bool := e &&& 0x2#32 != 0#32

/-- The page or table that the entry points at. -/
def Entry.frame (e : Entry) : PhysicalAddress := e &&& 0xFFFFF000#32

/-- What the processor finds for a page. -/
structure Translation where
  /-- The physical address of the page. -/
  frame : PhysicalAddress
  /-- Whether writing is allowed. -/
  writable : Bool
  deriving DecidableEq

/-- The word of the directory that covers a virtual address. -/
def directoryIndex (v : VirtualAddress) : BitVec 32 := v / 0x400000#32

/-- The word of the table that covers a virtual address. -/
def tableIndex (v : VirtualAddress) : BitVec 32 := v % 0x400000#32 / 0x1000#32

/-- The address of word `i` of the table at `base`. -/
def entryAddress (base i : BitVec 32) : BitVec 32 := base + 4#32 * i

/-- What a table's entry says, under a directory entry that does or does not allow writing. -/
def decode (writable : Bool) (e : Entry) : Option Translation :=
  if e.present then some ⟨e.frame, writable && e.writable⟩ else none

/-- The walk through the tables at `cr3`. -/
def walk (mem : Memory) (cr3 : PhysicalAddress) (v : VirtualAddress) : Option Translation :=
  let directoryEntry : Entry := mem.load32 (entryAddress cr3 (directoryIndex v))
  if directoryEntry.present then
    decode directoryEntry.writable (mem.load32 (entryAddress directoryEntry.frame (tableIndex v)))
  else none

/-! ### Entries -/

/-- The entry for a frame that is present and writable. -/
def entryFor (frame : PhysicalAddress) : Entry := frame ||| 0x3#32

theorem and_frameMask {p : BitVec 32} (hp : p.toNat % 4096 = 0) : p &&& 0xFFFFF000#32 = p := by
  refine BitVec.eq_of_getLsbD_eq fun i hi => ?_
  have hmask : ∀ i < 32, (0xFFFFF000#32).getLsbD i = decide (12 ≤ i) := by decide
  rw [BitVec.getLsbD_and, hmask i hi]
  by_cases h12 : 12 ≤ i
  · simp [h12]
  · have hbit : (p.toNat % 2 ^ 12).testBit i = p.getLsbD i := by
      rw [Nat.testBit_mod_two_pow, BitVec.testBit_toNat, decide_eq_true (by omega), Bool.true_and]
    rw [show p.toNat % 2 ^ 12 = 0 from hp, Nat.zero_testBit] at hbit
    simp [← hbit]

theorem frame_entryFor {p : PhysicalAddress} (hp : p.toNat % 4096 = 0) : (entryFor p).frame = p := by
  rw [Entry.frame, entryFor, BitVec.and_or_distrib_right, and_frameMask hp]
  exact BitVec.or_zero

/-- An address of a page has none of the bits below its own. -/
theorem and_of_aligned {p mask : BitVec 32} (hp : p.toNat % 4096 = 0) (hmask : 0xFFFFF000#32 &&& mask = 0#32) :
    p &&& mask = 0#32 := by
  rw [← and_frameMask hp, BitVec.and_assoc, hmask]
  exact BitVec.and_zero

/-- The flags of an entry that is made for a page-aligned frame. -/
theorem flags_entryFor {p : PhysicalAddress} (hp : p.toNat % 4096 = 0) : entryFor p &&& 0xFFF#32 = 0x3#32 := by
  rw [entryFor, BitVec.and_or_distrib_right, and_of_aligned hp rfl]
  rfl

/-- An address of a page has no flags. -/
theorem present_of_aligned {p : PhysicalAddress} (hp : p.toNat % 4096 = 0) : Entry.present p = false := by
  rw [Entry.present, and_of_aligned hp rfl]
  rfl

/-- An address of a page with the flag for writing is not present. -/
theorem present_or_writable {p : PhysicalAddress} (hp : p.toNat % 4096 = 0) : Entry.present (p ||| 0x2#32) = false := by
  rw [Entry.present, BitVec.and_or_distrib_right, and_of_aligned hp rfl]
  rfl

theorem present_entryFor (p : PhysicalAddress) : (entryFor p).present = true := by
  rw [Entry.present, entryFor, bne_iff_ne, ne_eq, BitVec.and_or_distrib_right, BitVec.or_eq_zero_iff]
  exact fun h => absurd h.2 (by decide)

theorem entryFor_ne_zero (p : PhysicalAddress) : entryFor p ≠ 0#32 := by
  intro h
  have hpresent := present_entryFor p
  rw [h] at hpresent
  cases hpresent

theorem writable_entryFor (p : PhysicalAddress) : (entryFor p).writable = true := by
  rw [Entry.writable, entryFor, bne_iff_ne, ne_eq, BitVec.and_or_distrib_right, BitVec.or_eq_zero_iff]
  exact fun h => absurd h.2 (by decide)

theorem decode_zero (w : Bool) : decode w 0#32 = none := rfl

theorem decode_entryFor {p : PhysicalAddress} (hp : p.toNat % 4096 = 0) :
    decode true (entryFor p) = some ⟨p, true⟩ := by
  rw [decode, present_entryFor, frame_entryFor hp, writable_entryFor]
  rfl

/-! ### Indices and words -/

theorem directoryIndex_toNat (v : VirtualAddress) : (directoryIndex v).toNat = v.toNat / 0x400000 := by
  rw [directoryIndex, BitVec.toNat_udiv]; rfl

theorem tableIndex_toNat (v : VirtualAddress) : (tableIndex v).toNat = v.toNat % 0x400000 / 0x1000 := by
  rw [tableIndex, BitVec.toNat_udiv, BitVec.toNat_umod]; rfl

theorem directoryIndex_lt (v : VirtualAddress) : (directoryIndex v).toNat < 1024 := by
  rw [directoryIndex_toNat]; have := v.isLt; omega

theorem tableIndex_lt (v : VirtualAddress) : (tableIndex v).toNat < 1024 := by
  rw [tableIndex_toNat]; omega

theorem entryAddress_toNat {base i : BitVec 32} (hb : base.toNat % 4096 = 0) (hi : i.toNat < 1024) :
    (entryAddress base i).toNat = base.toNat + 4 * i.toNat := by
  rw [entryAddress, BitVec.toNat_add, BitVec.toNat_mul, show (4#32).toNat = 4 from rfl]
  omega

/-- The words of page-aligned tables do not overlap. -/
theorem disjoint_entries {base base' i j : BitVec 32} (hb : base.toNat % 4096 = 0) (hb' : base'.toNat % 4096 = 0)
    (hi : i.toNat < 1024) (hj : j.toNat < 1024) (h : base ≠ base' ∨ i ≠ j) :
    Disjoint (Span (entryAddress base i) 4) (Span (entryAddress base' j) 4) := by
  have ha := entryAddress_toNat hb hi
  have ha' := entryAddress_toNat hb' hj
  have hne : ¬ (base.toNat = base'.toNat ∧ i.toNat = j.toNat) := by
    rw [BitVec.toNat_inj, BitVec.toNat_inj]
    rintro ⟨rfl, rfl⟩
    simp at h
  rw [Set.disjoint_left]
  intro x hx hx'
  rw [mem_span_iff (by omega)] at hx hx'
  omega

end EagleOS.Arch
