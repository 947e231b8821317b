import EagleOS.Memory.PagePermissions

/-!
# How far a range call comes

`MapRange` and `UnmapRange` go page by page and return `false` at the first page that they cannot map or
unmap. They do not undo what they have done by then.

## The model

What is translated is what the processor finds in the tables for an address. `RangeMapped` and `RangeUnmapped`
say that the first pages of a range have changed, and nothing else.

## What is proved

* `range_calls_change` — what a range call has changed, when it succeeds and when it fails, after any calls.
* `failed_mapRange_maps` — a call that fails, and has mapped a page.
-/

namespace EagleOS.Memory

open ESTD Boot Foundations Arch VirtualMemoryManager

/-- Of the range from `v` on the first `i` pages were not mapped, and are now, to frames from `p` on. -/
structure RangeMapped (found found' : VirtualAddress → Option Translation) (v : VirtualAddress) (p : PhysicalAddress)
    (i : ℕ) : Prop where
  /-- The pages. -/
  pages : ∀ j < i, found (pageAt v j) = none ∧ found' (pageAt v j) = some ⟨pageAt p j, true⟩
  /-- Other pages are as they were. -/
  others : ∀ x, ¬ InPages v i x → found' x = found x

/-- Of the range from `v` on the first `i` pages were mapped, and are not any more. -/
structure RangeUnmapped (found found' : VirtualAddress → Option Translation) (v : VirtualAddress) (i : ℕ) : Prop where
  /-- The pages. -/
  pages : ∀ j < i, found (pageAt v j) ≠ none ∧ found' (pageAt v j) = none
  /-- Other pages are as they were. -/
  others : ∀ x, ¬ InPages v i x → found' x = found x

/-- A page cannot be mapped: it is mapped already, or there is no table for it, or it or its frame is not aligned. -/
def Unmappable (found : VirtualAddress → Option Translation) (v : VirtualAddress) (p : PhysicalAddress) : Prop :=
  found v ≠ none ∨ ¬ Covered v ∨ ¬ Aligned v ∨ ¬ Aligned p

/-- What the processor finds in the tables. -/
def translation (util : MemoryUtil) (vmm : VirtualMemoryManager) (m : Machine) (v : VirtualAddress) : Option Translation :=
  walk m.mem (vmm.directoryAddress util) v

section

variable {util : MemoryUtil} {vmm : VirtualMemoryManager} {m m' : Machine} {v : VirtualAddress} {p : PhysicalAddress}
  {writable : Bool}

theorem translation_eq (hL : Layout util vmm) (hT : Tables util vmm m.mem) (v : VirtualAddress) :
    translation util vmm m v = decode true (vmm.entryAt util m.mem v) := walk_eq hL hT v

/-- Nothing is found where the word is zero. -/
theorem translation_eq_none (hL : Layout util vmm) (hT : Tables util vmm m.mem) {v : VirtualAddress} :
    translation util vmm m v = none ↔ vmm.entryAt util m.mem v = 0#32 := walk_eq_none_iff hL hT

/-- Pages that could be mapped one after the other. -/
theorem rangeMapped_of_mapLoop (hL : Layout util vmm) (hT : Tables util vmm m.mem) {n : ℕ}
    (h : vmm.mapLoop util writable n m v p = (true, m')) :
    Tables util vmm m'.mem ∧ RangeMapped (translation util vmm m) (translation util vmm m') v p n := by
  have hspec : MapRangeSpec util vmm m v p n (vmm.mapLoop util writable n m v p) := mapLoop_spec hL n hT
  rw [h] at hspec
  refine ⟨hspec.tables, fun j hj => ?_, fun x hx => ?_⟩
  · obtain ⟨-, hp, -, h0, he⟩ := hspec.mapped rfl j hj
    exact ⟨(translation_eq_none hL hT).mpr h0, by rw [translation_eq hL hspec.tables, he, decode_entryFor hp]⟩
  · rw [translation_eq hL hspec.tables, hspec.frame x hx, translation_eq hL hT]

/-- Pages that could be unmapped one after the other. -/
theorem rangeUnmapped_of_unmapLoop (hL : Layout util vmm) (hT : Tables util vmm m.mem) {n : ℕ}
    (h : vmm.unmapLoop util n m v = (true, m')) :
    Tables util vmm m'.mem ∧ RangeUnmapped (translation util vmm m) (translation util vmm m') v n := by
  have hused := unmapLoop_used (v := v) hL n hT (by rw [h])
  have hspec := unmapLoop_spec (v := v) hL n hT
  rw [h] at hspec
  refine ⟨hspec.tables, fun j hj => ⟨mt (translation_eq_none hL hT).mp (hused j hj).2, ?_⟩, fun x hx => ?_⟩
  · exact (translation_eq_none hL hspec.tables).mpr (hspec.unmapped rfl _ ⟨j, hj, rfl⟩)
  · rw [translation_eq hL hspec.tables, hspec.frame x hx, translation_eq hL hT]

/-- How far `MapRange` comes. -/
theorem mapRange_changes (hL : Layout util vmm) (hT : Tables util vmm m.mem) {n : SizeT} {b : Bool}
    (h : vmm.mapRange util m v p writable n = (b, m')) :
    (b = true → RangeMapped (translation util vmm m) (translation util vmm m') v p n.toNat) ∧
      (b = false → ∃ i < n.toNat, RangeMapped (translation util vmm m) (translation util vmm m') v p i ∧
        Unmappable (translation util vmm m') (pageAt v i) (pageAt p i)) := by
  refine ⟨?_, ?_⟩ <;> rintro rfl
  · exact (rangeMapped_of_mapLoop hL hT h).2
  · obtain ⟨i, hi, hloop, hno⟩ := mapLoop_stops hL n.toNat hT h
    obtain ⟨hT', hmapped⟩ := rangeMapped_of_mapLoop hL hT hloop
    refine ⟨i, hi, hmapped, ?_⟩
    by_contra hnext
    simp only [Unmappable, not_or, not_not] at hnext
    obtain ⟨hnone, hc, hv, hp⟩ := hnext
    exact hno ⟨hp, hv, hc, (translation_eq_none hL hT').mp hnone⟩

/-- How far `UnmapRange` comes. -/
theorem unmapRange_changes (hL : Layout util vmm) (hT : Tables util vmm m.mem) {n : SizeT} {b : Bool}
    (h : vmm.unmapRange util m v n = (b, m')) :
    (b = true → RangeUnmapped (translation util vmm m) (translation util vmm m') v n.toNat) ∧
      (b = false → ∃ i < n.toNat, RangeUnmapped (translation util vmm m) (translation util vmm m') v i ∧
        (translation util vmm m' (pageAt v i) = none ∨ ¬ Aligned (pageAt v i))) := by
  refine ⟨?_, ?_⟩ <;> rintro rfl
  · exact (rangeUnmapped_of_unmapLoop hL hT h).2
  · obtain ⟨i, hi, hloop, hno⟩ := unmapLoop_stops hL n.toNat hT h
    obtain ⟨hT', hunmapped⟩ := rangeUnmapped_of_unmapLoop hL hT hloop
    refine ⟨i, hi, hunmapped, ?_⟩
    by_contra hnext
    rw [not_or, not_not] at hnext
    exact hno ⟨hnext.2, fun h0 => hnext.1 ((translation_eq_none hL hT').mpr h0)⟩

end

/-- After `Init` and any calls the tables have the frames that were asked for. -/
theorem granted_after_calls {bootInfo : BootInfo} {vmm : VirtualMemoryManager}
    (h : InImage (MemoryUtil.init bootInfo) vmm bootInfo.kernelSize.toNat) (m : Machine) (calls : List PermissionCall) :
    let util := MemoryUtil.init bootInfo
    let start := (vmm.init util bootInfo m).2
    Layout util start.1 ∧ Granted util start.1 (answers (PermissionCall.step util start.1) start.2 calls).2
      (answers PermissionMap.step (fun _ => none) calls).2 := by
  intro util start
  obtain ⟨hL, hstart⟩ := represents_init h m
  have hgranted : Granted util start.1 start.2 fun _ => none := hstart
  exact ⟨hL, (answers_refine (f := PermissionCall.step util start.1) (g := PermissionMap.step)
    (fun _ _ c hr => Granted.step hL hr c) calls hgranted).2⟩

/-- **Range calls**: after `Init` and any list of calls with any arguments, `MapRange` that returns `true` has
mapped exactly its pages, and `UnmapRange` has unmapped exactly its pages; one that returns `false` has done so
with the pages before the first that could not be mapped, or unmapped, and has changed nothing else. -/
theorem range_calls_change (bootInfo : BootInfo) (vmm : VirtualMemoryManager) (m : Machine)
    (h : InImage (MemoryUtil.init bootInfo) vmm bootInfo.kernelSize.toNat) (calls : List PermissionCall) :
    let util := MemoryUtil.init bootInfo
    let start := (vmm.init util bootInfo m).2
    let tables := (answers (PermissionCall.step util start.1) start.2 calls).2
    let found := translation util start.1 tables
    (∀ v p writable n,
      let r := start.1.mapRange util tables v p writable n
      (r.1 = true → RangeMapped found (translation util start.1 r.2) v p n.toNat) ∧
        (r.1 = false → ∃ i < n.toNat, RangeMapped found (translation util start.1 r.2) v p i ∧
          Unmappable (translation util start.1 r.2) (pageAt v i) (pageAt p i))) ∧
      ∀ v n,
        let r := start.1.unmapRange util tables v n
        (r.1 = true → RangeUnmapped found (translation util start.1 r.2) v n.toNat) ∧
          (r.1 = false → ∃ i < n.toNat, RangeUnmapped found (translation util start.1 r.2) v i ∧
            (translation util start.1 r.2 (pageAt v i) = none ∨ ¬ Aligned (pageAt v i))) := by
  intro util start tables found
  obtain ⟨hL, hgranted⟩ := granted_after_calls h m calls
  exact ⟨fun v p writable n => mapRange_changes hL hgranted.tables rfl,
    fun v n => unmapRange_changes hL hgranted.tables rfl⟩

/-- Two pages of which the second is mapped already: the call fails. -/
theorem granted_second_mapped :
    let util := MemoryUtil.init bootInfo512
    let start := (vmm512.init util bootInfo512 ⟨fun _ => 0#8, 0#32, []⟩).2
    let tables := (answers (PermissionCall.step util start.1) start.2 [.map 0xD0001000#32 0x8000#32 true]).2
    let asked := (answers PermissionMap.step (fun _ => none) [.map 0xD0001000#32 0x8000#32 true]).2
    let r := start.1.mapRange util tables 0xD0000000#32 0x5000#32 true 2#32
    Layout util start.1 ∧ Granted util start.1 tables asked ∧ r.1 = false ∧
      Granted util start.1 r.2 (asked.step (.mapRange 0xD0000000#32 0x5000#32 true 2#32)).2 := by
  intro util start tables asked r
  have hall : Layout util start.1 ∧ Granted util start.1 tables asked :=
    granted_after_calls inImage_vmm512 ⟨fun _ => 0#8, 0#32, []⟩ [.map 0xD0001000#32 0x8000#32 true]
  have hrefused : (asked.step (.mapRange 0xD0000000#32 0x5000#32 true 2#32)).1 = false := by decide
  clear_value asked tables start
  obtain ⟨hanswer, hgranted⟩ := hall.2.step hall.1 (.mapRange 0xD0000000#32 0x5000#32 true 2#32)
  exact ⟨hall.1, hall.2, hanswer.trans hrefused, hgranted⟩

/-- No more than the first of the two is mapped. -/
theorem range_calls_change_vmm512 :
    let util := MemoryUtil.init bootInfo512
    let start := (vmm512.init util bootInfo512 ⟨fun _ => 0#8, 0#32, []⟩).2
    let tables := (answers (PermissionCall.step util start.1) start.2 [.map 0xD0001000#32 0x8000#32 true]).2
    let r := start.1.mapRange util tables 0xD0000000#32 0x5000#32 true 2#32
    r.1 = false ∧ ∃ i < (2#32).toNat, RangeMapped (translation util start.1 tables) (translation util start.1 r.2)
      0xD0000000#32 0x5000#32 i := by
  have hsecond := granted_second_mapped
  have hrange := (range_calls_change bootInfo512 vmm512 ⟨fun _ => 0#8, 0#32, []⟩ inImage_vmm512
    [.map 0xD0001000#32 0x8000#32 true]).1 0xD0000000#32 0x5000#32 true 2#32
  dsimp only at hsecond hrange ⊢
  generalize (vmm512.init (MemoryUtil.init bootInfo512) bootInfo512 ⟨fun _ => 0#8, 0#32, []⟩).2 = start at hsecond hrange ⊢
  obtain ⟨i, hi, hmapped, -⟩ := hrange.2 hsecond.2.2.1
  exact ⟨hsecond.2.2.1, i, hi, hmapped⟩

/-- The first of them is. -/
theorem failed_mapRange_maps :
    let util := MemoryUtil.init bootInfo512
    let start := (vmm512.init util bootInfo512 ⟨fun _ => 0#8, 0#32, []⟩).2
    let tables := (answers (PermissionCall.step util start.1) start.2 [.map 0xD0001000#32 0x8000#32 true]).2
    let r := start.1.mapRange util tables 0xD0000000#32 0x5000#32 true 2#32
    r.1 = false ∧ translation util start.1 tables 0xD0000000#32 = none ∧
      translation util start.1 r.2 0xD0000000#32 = some ⟨0x5000#32, true⟩ := by
  have hsecond := granted_second_mapped
  dsimp only at hsecond ⊢
  generalize (vmm512.init (MemoryUtil.init bootInfo512) bootInfo512 ⟨fun _ => 0#8, 0#32, []⟩).2 = start at hsecond ⊢
  obtain ⟨hL, hgranted, hfalse, hgranted'⟩ := hsecond
  exact ⟨hfalse, (hgranted.walk hL (by decide)).trans (by decide), (hgranted'.walk hL (by decide)).trans (by decide)⟩

end EagleOS.Memory
