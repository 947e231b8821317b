import EagleOS.Foundations.Run
import EagleOS.Memory.MapCalls

/-!
# The page tables refine a map

What the manager is for: a partial map from virtual pages to physical ones. `PageMap` is that map, with
the rules for when a page may be mapped and unmapped; this module shows that the tables behave like it,
over every list of calls after `Init`.

## The model

`PageMap.step` answers a call on the map, `MapCall.step` answers it on the tables. The map's keys are
page-aligned addresses.

## What is proved

* `page_tables_refine_map` — every call has the same answer on the tables as on the map, the walk finds
  what the map says, and so does `GetPhysicalAddress`.
-/

namespace EagleOS.Memory

open ESTD Boot Foundations Arch VirtualMemoryManager

/-- A partial map from virtual pages to physical ones, by their addresses. -/
abbrev PageMap := VirtualAddress → Option PhysicalAddress

/-- The calls that change the map. -/
inductive MapCall where
  /-- `Map(virtualAddress, physicalAddress, writable)`. -/
  | map (virtualAddress : VirtualAddress) (physicalAddress : PhysicalAddress) (writable : Bool)
  /-- `Unmap(virtualAddress)`. -/
  | unmap (virtualAddress : VirtualAddress)
  deriving DecidableEq

/-- A page may be mapped when it is not, its address and the frame's are aligned, and there is a table
for it; it may be unmapped when it is mapped. A call that may not happen answers `false`. -/
def PageMap.step (pages : PageMap) : MapCall → Bool × PageMap
  | .map v p _ =>
    if Aligned v ∧ Aligned p ∧ (v.toNat / 0x400000 = 0 ∨ 768 ≤ v.toNat / 0x400000) ∧ pages v = none then
      (true, Function.update pages v (some p))
    else (false, pages)
  | .unmap v =>
    if Aligned v ∧ pages v ≠ none then (true, Function.update pages v none) else (false, pages)

/-- The call on the tables. -/
def MapCall.step (util : MemoryUtil) (vmm : VirtualMemoryManager) (m : Machine) : MapCall → Bool × Machine
  | .map v p writable => vmm.map util m v p writable
  | .unmap v => vmm.unmap util m v

/-- What a word of a table says of the map. -/
def frameOf (e : Entry) : Option PhysicalAddress := (decode true e).map Translation.frame

theorem frameOf_zero : frameOf 0#32 = none := rfl

theorem frameOf_entryFor {p : PhysicalAddress} (hp : Aligned p) : frameOf (entryFor p) = some p := by
  rw [frameOf, decode_entryFor hp]
  rfl

/-- The tables represent the map. -/
structure Represents (util : MemoryUtil) (vmm : VirtualMemoryManager) (m : Machine) (pages : PageMap) : Prop where
  /-- The tables are in order. -/
  tables : Tables util vmm m.mem
  /-- The words of the tables say what the map says. -/
  frames : ∀ v, Aligned v → frameOf (vmm.entryAt util m.mem v) = pages v

section

variable {util : MemoryUtil} {vmm : VirtualMemoryManager} {m : Machine} {pages : PageMap}

/-- A word is zero when the map has nothing for it. -/
theorem Represents.entryAt_eq_zero (h : Represents util vmm m pages) {v : VirtualAddress} (hv : Aligned v) :
    vmm.entryAt util m.mem v = 0#32 ↔ pages v = none := by
  rw [← h.frames v hv]
  rcases h.tables.entries v with he | ⟨p, hp, he⟩ <;> rw [he]
  · simp [frameOf_zero]
  · simp [frameOf_entryFor hp, entryFor_ne_zero]

/-- A call that changes the word for the aligned page `v` from one that says `old` to one that says
`new` changes the map there. -/
theorem Represents.update (h : Represents util vmm m pages) {m' : Machine} {v : VirtualAddress} {e : Entry} {b : Bool}
    (hv : b = true → Aligned v) (hT : Tables util vmm m'.mem)
    (he : ∀ w, vmm.entryAt util m'.mem w = if b = true ∧ SamePage v w then e else vmm.entryAt util m.mem w) :
    Represents util vmm m' (if b = true then Function.update pages v (frameOf e) else pages) := by
  refine ⟨hT, fun w hw => ?_⟩
  rw [he]
  by_cases hb : b = true
  · rw [if_pos hb]
    by_cases hvw : v = w
    · rw [if_pos ⟨hb, (samePage_iff_eq (hv hb) hw).mpr hvw⟩, hvw, Function.update_self]
    · rw [if_neg fun hs => hvw ((samePage_iff_eq (hv hb) hw).mp hs.2), Function.update_of_ne (Ne.symm hvw)]
      exact h.frames w hw
  · rw [if_neg hb, if_neg fun hs => hb hs.1]
    exact h.frames w hw

/-- One call: the tables answer as the map does, and keep representing it. -/
theorem Represents.step (hL : Layout util vmm) (h : Represents util vmm m pages) (call : MapCall) :
    (call.step util vmm m).1 = (pages.step call).1 ∧
      Represents util vmm (call.step util vmm m).2 (pages.step call).2 := by
  cases call with
  | map v p writable =>
    obtain ⟨hT, hok, he⟩ := (map_result hL h.tables v p writable).spec hL h.tables
    have hiff : (vmm.map util m v p writable).1 = true ↔
        Aligned v ∧ Aligned p ∧ (v.toNat / 0x400000 = 0 ∨ 768 ≤ v.toNat / 0x400000) ∧ pages v = none := by
      rw [hok, Mappable]
      constructor
      · rintro ⟨hp, hv, hc, h0⟩
        exact ⟨hv, hp, hc, (h.entryAt_eq_zero hv).mp h0⟩
      · rintro ⟨hv, hp, hc, h0⟩
        exact ⟨hp, hv, hc, (h.entryAt_eq_zero hv).mpr h0⟩
    have hnext := h.update (fun hb => (hiff.mp hb).1) hT he
    rw [MapCall.step, PageMap.step]
    by_cases hb : (vmm.map util m v p writable).1 = true
    · have hcond := hiff.mp hb
      rw [if_pos hb, frameOf_entryFor hcond.2.1] at hnext
      rw [if_pos hcond]
      exact ⟨hb, hnext⟩
    · rw [if_neg hb] at hnext
      rw [if_neg (mt hiff.mpr hb)]
      exact ⟨Bool.eq_false_iff.mpr hb, hnext⟩
  | unmap v =>
    obtain ⟨hT, hok, he⟩ := (unmap_result hL h.tables v).spec hL h.tables
    have hiff : (vmm.unmap util m v).1 = true ↔ Aligned v ∧ pages v ≠ none := by
      rw [hok]
      exact and_congr_right fun hv => not_congr (h.entryAt_eq_zero hv)
    have hnext := h.update (fun hb => (hiff.mp hb).1) hT he
    rw [MapCall.step, PageMap.step]
    by_cases hb : (vmm.unmap util m v).1 = true
    · rw [if_pos hb, frameOf_zero] at hnext
      rw [if_pos (hiff.mp hb)]
      exact ⟨hb, hnext⟩
    · rw [if_neg hb] at hnext
      rw [if_neg (mt hiff.mpr hb)]
      exact ⟨Bool.eq_false_iff.mpr hb, hnext⟩

/-- What the walk finds is what the map says. -/
theorem Represents.walk_frame (hL : Layout util vmm) (h : Represents util vmm m pages) {v : VirtualAddress}
    (hv : Aligned v) : (walk m.mem (vmm.directoryAddress util) v).map Translation.frame = pages v := by
  rw [walk_eq hL h.tables, ← h.frames v hv]
  rfl

/-- `GetPhysicalAddress` returns what the map says, or zero. -/
theorem Represents.getPhysicalAddress (hL : Layout util vmm) (h : Represents util vmm m pages) (v : VirtualAddress) :
    vmm.getPhysicalAddress util m v = if Aligned v then (pages v).getD 0#32 else 0#32 := by
  rw [getPhysicalAddress_eq hL h.tables]
  by_cases hv : Aligned v
  · rw [if_pos hv, if_pos hv, ← h.frames v hv]
    rcases h.tables.entries v with he | ⟨p, hp, he⟩ <;> rw [he]
    · rfl
    · rw [frameOf_entryFor hp, frame_entryFor hp]
      rfl
  · rw [if_neg hv, if_neg hv]

end

/-- After `Init` the tables represent the empty map. -/
theorem represents_init {bootInfo : BootInfo} {vmm : VirtualMemoryManager} {imageSize : ℕ}
    (h : InImage (MemoryUtil.init bootInfo) vmm imageSize) (m : Machine) :
    Layout (MemoryUtil.init bootInfo) (vmm.init (MemoryUtil.init bootInfo) bootInfo m).2.1 ∧
      Represents (MemoryUtil.init bootInfo) (vmm.init (MemoryUtil.init bootInfo) bootInfo m).2.1
        (vmm.init (MemoryUtil.init bootInfo) bootInfo m).2.2 fun _ => none := by
  obtain ⟨hL, hT, hzero⟩ := tables_init h (show bootInfo.kernelVirtualStartAddress = _ from h.virtualStart) m
  exact ⟨hL, hT, fun v _ => by rw [hzero v, frameOf_zero]⟩

/-- **The page tables are a map**: after `Init`, for every list of `Map` and `Unmap` calls with any
arguments, each call has the same answer on the tables as on the map that starts empty; then the walk
through the tables finds for every page the frame that the map has for it, and `GetPhysicalAddress`
returns it, or 0 for an address that is unmapped or not aligned. -/
theorem page_tables_refine_map (bootInfo : BootInfo) (vmm : VirtualMemoryManager) (m : Machine)
    (h : InImage (MemoryUtil.init bootInfo) vmm bootInfo.kernelSize.toNat) (calls : List MapCall) :
    let util := MemoryUtil.init bootInfo
    let start := (vmm.init util bootInfo m).2
    let tables := answers (MapCall.step util start.1) start.2 calls
    let map := answers PageMap.step (fun _ => none) calls
    tables.1 = map.1 ∧
      (∀ v, Aligned v → (walk tables.2.mem (start.1.directoryAddress util) v).map Translation.frame = map.2 v) ∧
      ∀ v, start.1.getPhysicalAddress util tables.2 v = if Aligned v then (map.2 v).getD 0#32 else 0#32 := by
  intro util start tables map
  obtain ⟨hL, hstart⟩ := represents_init h m
  obtain ⟨hanswers, hend⟩ := answers_refine (f := MapCall.step util start.1) (g := PageMap.step)
    (fun _ _ c hr => Represents.step hL hr c) calls hstart
  exact ⟨hanswers, fun v hv => hend.walk_frame hL hv, fun v => hend.getPhysicalAddress hL v⟩

/-- A page is mapped to a frame above 2 GB, and mapped a second time. -/
theorem page_tables_refine_map_vmm512 :
    let util := MemoryUtil.init bootInfo512
    let start := (vmm512.init util bootInfo512 ⟨fun _ => 0#8, 0#32, []⟩).2
    let tables := answers (MapCall.step util start.1) start.2
      [.map 0xD0000000#32 0x80001000#32 true, .map 0xD0000000#32 0x5000#32 true]
    tables.1 = [true, false] ∧ start.1.getPhysicalAddress util tables.2 0xD0000000#32 = 0x80001000#32 ∧
      start.1.getPhysicalAddress util tables.2 0xD0001000#32 = 0#32 := by
  obtain ⟨hanswers, -, hget⟩ := page_tables_refine_map bootInfo512 vmm512 ⟨fun _ => 0#8, 0#32, []⟩ inImage_vmm512
    [.map 0xD0000000#32 0x80001000#32 true, .map 0xD0000000#32 0x5000#32 true]
  refine ⟨hanswers.trans (by decide), (hget _).trans (by decide), (hget _).trans (by decide)⟩

end EagleOS.Memory
