import EagleOS.Memory.MapRanges
import EagleOS.Memory.PageMap

/-!
# What may be written to

`Map` is told whether the page may be written to, and hands this on to `SetWritable`, of the table's entry
and of the directory's when it makes one. `SetWritable` sets its flag whatever it is given. So every page
that is mapped may be written to.

## The model

`PermissionMap` is what was asked for: the frame of every page, and the `writable` of the `Map` that
mapped it. The range calls make their calls one after the other up to the first that is refused, on the
map (`PermissionMap.step`) as on the tables (`PermissionCall.step`).

## What is proved

* `Granted.step` — a call is answered on the tables as on the map; the tables have the frames that the map
  has.
* `permissions_as_asked_iff` — a page has the permission that was asked for exactly when writing was.
-/

namespace EagleOS.Memory

open ESTD Boot Foundations Arch VirtualMemoryManager

/-- What was asked for: the frame of a page, and whether writing was to be allowed. -/
abbrev PermissionMap := VirtualAddress → Option Translation

/-- The calls that change the page tables. -/
inductive PermissionCall where
  /-- `Map(virtualAddress, physicalAddress, writable)`. -/
  | map (virtualAddress : VirtualAddress) (physicalAddress : PhysicalAddress) (writable : Bool)
  /-- `MapRange(virtualAddress, physicalAddress, writable, count)`. -/
  | mapRange (virtualAddress : VirtualAddress) (physicalAddress : PhysicalAddress) (writable : Bool) (count : SizeT)
  /-- `Unmap(virtualAddress)`. -/
  | unmap (virtualAddress : VirtualAddress)
  /-- `UnmapRange(virtualAddress, count)`. -/
  | unmapRange (virtualAddress : VirtualAddress) (count : SizeT)
  deriving DecidableEq

/-- The call on the tables. -/
def PermissionCall.step (util : MemoryUtil) (vmm : VirtualMemoryManager) (m : Machine) : PermissionCall → Bool × Machine
  | .map v p writable => vmm.map util m v p writable
  | .mapRange v p writable count => vmm.mapRange util m v p writable count
  | .unmap v => vmm.unmap util m v
  | .unmapRange v count => vmm.unmapRange util m v count

namespace PermissionMap

/-- The frames alone. -/
def frames (pages : PermissionMap) : PageMap := fun v => (pages v).map Translation.frame

/-- One page is mapped or unmapped, under the rules of `PageMap.step`. -/
def page (pages : PermissionMap) (call : MapCall) : Bool × PermissionMap :=
  if (pages.frames.step call).1 then
    (true, match call with
      | .map v p writable => Function.update pages v (some ⟨p, writable⟩)
      | .unmap v => Function.update pages v none)
  else (false, pages)

/-- The calls of `MapRange`. -/
def mapCalls (v : VirtualAddress) (p : PhysicalAddress) (writable : Bool) : ℕ → List MapCall
  | 0 => []
  | count + 1 => .map v p writable :: mapCalls (v + pageSize) (p + pageSize) writable count

/-- The calls of `UnmapRange`. -/
def unmapCalls (v : VirtualAddress) : ℕ → List MapCall
  | 0 => []
  | count + 1 => .unmap v :: unmapCalls (v + pageSize) count

/-- The call on the map. -/
def step (pages : PermissionMap) : PermissionCall → Bool × PermissionMap
  | .map v p writable => pages.page (.map v p writable)
  | .mapRange v p writable count => untilRefused page pages (mapCalls v p writable count.toNat)
  | .unmap v => pages.page (.unmap v)
  | .unmapRange v count => untilRefused page pages (unmapCalls v count.toNat)

/-- The frames change as those of a map of frames. -/
theorem frames_page (pages : PermissionMap) (call : MapCall) :
    (pages.page call).1 = (pages.frames.step call).1 ∧ (pages.page call).2.frames = (pages.frames.step call).2 := by
  have hupdate : ∀ v t, frames (Function.update pages v t) = Function.update pages.frames v (t.map Translation.frame) := by
    intro v t
    funext w
    by_cases hw : w = v
    · subst hw
      simp [frames]
    · simp [frames, hw]
  cases call with
  | map v p writable =>
    simp only [page, PageMap.step]
    split <;> simp [hupdate]
  | unmap v =>
    simp only [page, PageMap.step]
    split <;> simp [hupdate]

end PermissionMap

section

variable {util : MemoryUtil} {vmm : VirtualMemoryManager} {m : Machine} {pages : PermissionMap}

/-- The tables have the frames that were asked for. -/
def Granted (util : MemoryUtil) (vmm : VirtualMemoryManager) (m : Machine) (pages : PermissionMap) : Prop :=
  Represents util vmm m pages.frames

/-- One page. -/
theorem Granted.page (hL : Layout util vmm) (h : Granted util vmm m pages) (call : MapCall) :
    (call.step util vmm m).1 = (pages.page call).1 ∧ Granted util vmm (call.step util vmm m).2 (pages.page call).2 := by
  obtain ⟨hanswer, hframes⟩ := PermissionMap.frames_page pages call
  rw [Granted, hanswer, hframes]
  exact Represents.step hL h call

/-- A call on one page, as the loop of `UnmapRange` makes it. -/
def MapCall.flushed (util : MemoryUtil) (vmm : VirtualMemoryManager) (m : Machine) : MapCall → Bool × Machine
  | .map v p writable => vmm.map util m v p writable
  | .unmap v =>
    match vmm.unmap util m v with
    | (false, m) => (false, m)
    | (true, m) => (true, flushTLB m v)

/-- The cache is not in memory. -/
theorem Granted.flushed (hL : Layout util vmm) (h : Granted util vmm m pages) (call : MapCall) :
    (call.flushed util vmm m).1 = (pages.page call).1 ∧
      Granted util vmm (call.flushed util vmm m).2 (pages.page call).2 := by
  obtain ⟨hanswer, hgranted⟩ := h.page hL call
  cases call with
  | map v p writable => exact ⟨hanswer, hgranted⟩
  | unmap v =>
    simp only [MapCall.flushed, MapCall.step] at hanswer hgranted ⊢
    generalize vmm.unmap util m v = r at hanswer hgranted
    obtain ⟨b, m'⟩ := r
    cases b with
    | false => exact ⟨hanswer, hgranted⟩
    | true => exact ⟨hanswer, hgranted.tables, hgranted.frames⟩

/-- `MapRange` is its calls up to the first that is refused. -/
theorem mapLoop_eq_untilRefused (writable : Bool) (count : ℕ) :
    ∀ (m : Machine) (v : VirtualAddress) (p : PhysicalAddress), vmm.mapLoop util writable count m v p =
      untilRefused (MapCall.step util vmm) m (PermissionMap.mapCalls v p writable count) := by
  induction count with
  | zero => exact fun _ _ _ => rfl
  | succ count ih =>
    intro m v p
    simp only [mapLoop, PermissionMap.mapCalls, untilRefused, MapCall.step]
    generalize vmm.map util m v p writable = r
    obtain ⟨b, m'⟩ := r
    cases b with
    | false => rfl
    | true => exact ih _ _ _

/-- `UnmapRange` is its calls up to the first that is refused. -/
theorem unmapLoop_eq_untilRefused (count : ℕ) :
    ∀ (m : Machine) (v : VirtualAddress), vmm.unmapLoop util count m v =
      untilRefused (MapCall.flushed util vmm) m (PermissionMap.unmapCalls v count) := by
  induction count with
  | zero => exact fun _ _ => rfl
  | succ count ih =>
    intro m v
    simp only [unmapLoop, PermissionMap.unmapCalls, untilRefused, MapCall.flushed]
    generalize vmm.unmap util m v = r
    obtain ⟨b, m'⟩ := r
    cases b with
    | false => rfl
    | true => exact ih _ _

/-- One call: the tables answer as the map does, and keep its frames. -/
theorem Granted.step (hL : Layout util vmm) (h : Granted util vmm m pages) (call : PermissionCall) :
    (call.step util vmm m).1 = (pages.step call).1 ∧ Granted util vmm (call.step util vmm m).2 (pages.step call).2 := by
  cases call with
  | map v p writable => exact h.page hL (.map v p writable)
  | mapRange v p writable count =>
    rw [PermissionCall.step, mapRange, mapLoop_eq_untilRefused, PermissionMap.step]
    exact untilRefused_refine (R := Granted util vmm) (fun _ _ c hr => Granted.page hL hr c) _ h
  | unmap v => exact h.page hL (.unmap v)
  | unmapRange v count =>
    rw [PermissionCall.step, unmapRange, unmapLoop_eq_untilRefused, PermissionMap.step]
    exact untilRefused_refine (R := Granted util vmm) (fun _ _ c hr => Granted.flushed hL hr c) _ h

/-- What the walk finds: the frame that was asked for, and writing is allowed. -/
theorem Granted.walk (hL : Layout util vmm) (h : Granted util vmm m pages) {v : VirtualAddress} (hv : Aligned v) :
    Arch.walk m.mem (vmm.directoryAddress util) v = (pages v).map fun t => ⟨t.frame, true⟩ := by
  have hframe : frameOf (vmm.entryAt util m.mem v) = (pages v).map Translation.frame := h.frames v hv
  rw [walk_eq hL h.tables]
  rcases h.tables.entries v with he | ⟨p, hp, he⟩ <;> rw [he] at hframe ⊢
  · rw [frameOf_zero, eq_comm, Option.map_eq_none_iff] at hframe
    rw [hframe, decode_zero]
    rfl
  · rw [frameOf_entryFor hp, eq_comm, Option.map_eq_some_iff] at hframe
    obtain ⟨t, ht, rfl⟩ := hframe
    rw [ht, decode_entryFor hp]
    rfl

end

/-- **Permissions**: after `Init`, for every list of calls with any arguments, a page is mapped when the map
of what was asked for has it, and to the frame that was asked for; whether it may be written to is what was
asked for exactly when writing was. -/
theorem permissions_as_asked_iff (bootInfo : BootInfo) (vmm : VirtualMemoryManager) (m : Machine)
    (h : InImage (MemoryUtil.init bootInfo) vmm bootInfo.kernelSize.toNat) (calls : List PermissionCall) :
    let util := MemoryUtil.init bootInfo
    let start := (vmm.init util bootInfo m).2
    let tables := answers (PermissionCall.step util start.1) start.2 calls
    let asked := answers PermissionMap.step (fun _ => none) calls
    tables.1 = asked.1 ∧
      ∀ v, Aligned v → (walk tables.2.mem (start.1.directoryAddress util) v = none ↔ asked.2 v = none) ∧
        ∀ t, walk tables.2.mem (start.1.directoryAddress util) v = some t →
          ∃ t', asked.2 v = some t' ∧ t.frame = t'.frame ∧
            ((t.writable = true ↔ t'.writable = true) ↔ t'.writable = true) := by
  intro util start tables asked
  obtain ⟨hL, hstart⟩ := represents_init h m
  have hgranted : Granted util start.1 start.2 fun _ => none := hstart
  obtain ⟨hanswers, hend⟩ := answers_refine (f := PermissionCall.step util start.1) (g := PermissionMap.step)
    (fun _ _ c hr => Granted.step hL hr c) calls hgranted
  refine ⟨hanswers, fun v hv => ?_⟩
  have hwalk : walk tables.2.mem (start.1.directoryAddress util) v = (asked.2 v).map fun t => ⟨t.frame, true⟩ :=
    hend.walk hL hv
  rw [hwalk]
  refine ⟨Option.map_eq_none_iff, fun t ht => ?_⟩
  obtain ⟨t', ht', rfl⟩ := Option.map_eq_some_iff.mp ht
  exact ⟨t', ht', rfl, by simp⟩

/-- A page for reading and a page for writing are mapped in the same 4 MB. -/
theorem permissions_as_asked_iff_vmm512 :
    let util := MemoryUtil.init bootInfo512
    let start := (vmm512.init util bootInfo512 ⟨fun _ => 0#8, 0#32, []⟩).2
    let asked := answers PermissionMap.step (fun _ => none)
      [.map 0xD0000000#32 0x5000#32 false, .mapRange 0xD0001000#32 0x8000#32 true 2#32]
    let tables := answers (PermissionCall.step util start.1) start.2
      [.map 0xD0000000#32 0x5000#32 false, .mapRange 0xD0001000#32 0x8000#32 true 2#32]
    tables.1 = [true, true] ∧ asked.2 0xD0002000#32 = some ⟨0x9000#32, true⟩ ∧
      walk tables.2.mem (start.1.directoryAddress util) 0xD0002000#32 ≠ none := by
  obtain ⟨hanswers, hpages⟩ := permissions_as_asked_iff bootInfo512 vmm512 ⟨fun _ => 0#8, 0#32, []⟩ inImage_vmm512
    [.map 0xD0000000#32 0x5000#32 false, .mapRange 0xD0001000#32 0x8000#32 true 2#32]
  refine ⟨hanswers.trans (by decide), by decide, fun hnone => ?_⟩
  exact absurd ((hpages 0xD0002000#32 (by decide)).1.mp hnone) (by decide)

/-- A page that was mapped for reading only may be written to. -/
theorem read_only_page_writable :
    let util := MemoryUtil.init bootInfo512
    let start := (vmm512.init util bootInfo512 ⟨fun _ => 0#8, 0#32, []⟩).2
    let tables := answers (PermissionCall.step util start.1) start.2 [.map 0xD0000000#32 0x5000#32 false]
    tables.1 = [true] ∧ walk tables.2.mem (start.1.directoryAddress util) 0xD0000000#32 = some ⟨0x5000#32, true⟩ := by
  intro util start tables
  obtain ⟨hL, hstart⟩ := represents_init inImage_vmm512 ⟨fun _ => 0#8, 0#32, []⟩
  have hgranted : Granted util start.1 start.2 fun _ => none := hstart
  obtain ⟨hanswers, hend⟩ := answers_refine (f := PermissionCall.step util start.1) (g := PermissionMap.step)
    (fun _ _ c hr => Granted.step hL hr c) [.map 0xD0000000#32 0x5000#32 false] hgranted
  refine ⟨hanswers.trans (by decide), (hend.walk hL (by decide)).trans (by decide)⟩

end EagleOS.Memory
