import EagleOS.Foundations.Run
import EagleOS.Foundations.TranslationCache
import EagleOS.Memory.PhysicalMemoryClients
import EagleOS.Memory.VirtualMemoryAllocator

/-!
# The translations that the processor has cached

The processor walks the tables whenever it likes, between any two stores of the kernel, and caches what
it finds; `invlpg` removes one page. The calls that change the tables are careful: `Map` makes an entry
present with its last store, `UnmapRange` invalidates every page right after it has cleared the entry,
and `FreePages` gives frames back only when their pages are unmapped and invalidated.

## The model

`PagingEvent.toEvent` reads the record that the machine keeps as events of a program with a cache.
`Mmu` is the kernel with the cached translations, `During` the moments within a call.

## What is proved

* `carefulTo_mapRange`, `carefulTo_unmapRange`, `carefulTo_allocatePages`, `carefulTo_freePages` — the
  calls are careful, also when they stop midway.
* `tlb_never_stale` — so the cache agrees with the tables after every call, and what is given back is
  neither cached nor mapped.
-/

namespace EagleOS.Memory

open ESTD Boot Foundations Arch VirtualMemoryManager Relation

/-- The number of a virtual page. -/
abbrev PageNumber := BitVec 20

/-- The page of an address. -/
def pageNumber (v : VirtualAddress) : PageNumber := v.extractLsb' 12 20

/-- Where a page starts. -/
def pageAddress (page : PageNumber) : VirtualAddress := page ++ 0#12

/-- The walk, for a page. -/
def walkPage (cr3 : PhysicalAddress) (mem : Foundations.Memory) (page : PageNumber) : Option Translation :=
  walk mem cr3 (pageAddress page)

/-- The word for a page is zero. -/
def Unused (util : MemoryUtil) (vmm : VirtualMemoryManager) (mem : Foundations.Memory) (page : PageNumber) : Prop :=
  vmm.entryAt util mem (pageAddress page) = 0#32

/-- What the event is to the memory and the cache. -/
def PagingEvent.toEvent : PagingEvent → Event Foundations.Memory PageNumber
  | .store a e => .store fun mem => mem.store32 a e
  | .invlpg v => .invalidate (pageNumber v)
  | .giveBack v _ n => .release {page | InPages v n.toNat (pageAddress page)}

/-! ### Pages -/

theorem pageNumber_toNat (v : VirtualAddress) : (pageNumber v).toNat = v.toNat / 4096 := by
  rw [pageNumber, BitVec.extractLsb'_toNat, Nat.shiftRight_eq_div_pow, Nat.mod_eq_of_lt (by omega)]

theorem pageAddress_toNat (page : PageNumber) : (pageAddress page).toNat = 4096 * page.toNat := by
  rw [pageAddress, BitVec.toNat_append, show (0#12).toNat = 0 from rfl, Nat.or_zero, Nat.shiftLeft_eq, Nat.mul_comm]

/-- A page has the addresses that share its number. -/
theorem samePage_pageAddress {v : VirtualAddress} {page : PageNumber} :
    SamePage v (pageAddress page) ↔ pageNumber v = page := by
  rw [SamePage, ← BitVec.toNat_inj, pageNumber_toNat, pageAddress_toNat]
  omega

/-! ### What a store does to the walk -/

section

variable {util : MemoryUtil} {vmm : VirtualMemoryManager} {mem mem' : Foundations.Memory} {m m' : Machine}
  {v w : VirtualAddress} {p : PhysicalAddress} {writable : Bool}

/-- Where the directory is in order, the walk finds what the table's word says. -/
theorem walk_of_directory (hL : Layout util vmm) (hT : Tables util vmm mem)
    (hd : vmm.directoryWord util mem' w = vmm.directoryWord util mem w) :
    walk mem' (vmm.directoryAddress util) w =
      if vmm.directoryWord util mem w = 0#32 then none else decode true (vmm.entryAt util mem' w) := by
  split
  · rename_i h0
    exact walk_of_not_present (by rw [hd, h0]; rfl)
  · rename_i h0
    have hw : Covered w := by
      by_contra hw
      exact h0 (hT.uncovered w hw)
    exact walk_of_linked hL hw (hd.trans ((hT.linked w hw).resolve_left h0))

/-- A store to a word of the directory matters to the addresses under it. -/
theorem walk_store_directory (hL : Layout util vmm) (hT : Tables util vmm mem) (x : Entry)
    (hw : directoryIndex v ≠ directoryIndex w) :
    walk (mem.store32 (entryAddress (vmm.directoryAddress util) (directoryIndex v)) x) (vmm.directoryAddress util) w =
      walk mem (vmm.directoryAddress util) w := by
  rw [walk_of_directory hL hT ((directoryWord_store_directory hL v w x).trans (if_neg hw)), entryAt_store_directory hL,
    ← walk_of_directory hL hT rfl]

/-- Under a word of the directory that is not present the walk finds nothing. -/
theorem walk_store_directory_self (hL : Layout util vmm) {x : Entry} (hx : x.present = false)
    (hw : directoryIndex v = directoryIndex w) :
    walk (mem.store32 (entryAddress (vmm.directoryAddress util) (directoryIndex v)) x) (vmm.directoryAddress util) w =
      none :=
  walk_of_not_present (by rw [directoryWord_store_directory hL, if_pos hw, hx])

/-- A store to a word of a table matters to its page. -/
theorem walk_store_entry (hL : Layout util vmm) (hT : Tables util vmm mem) (hv : Covered v) (x : Entry)
    (hw : ¬ SamePage v w) :
    walk (mem.store32 (entryAddress (vmm.tableAddress util v) (tableIndex v)) x) (vmm.directoryAddress util) w =
      walk mem (vmm.directoryAddress util) w := by
  rw [walk_of_directory hL hT (directoryWord_store_entry hL hv w x), entryAt_store_entry hL hv, if_neg hw,
    ← walk_of_directory hL hT rfl]

/-- For the page of a word that is not present the walk finds nothing. -/
theorem walk_store_entry_self (hL : Layout util vmm) (hT : Tables util vmm mem) (hv : Covered v) {x : Entry}
    (hx : x.present = false) (hw : SamePage v w) :
    walk (mem.store32 (entryAddress (vmm.tableAddress util v) (tableIndex v)) x) (vmm.directoryAddress util) w = none := by
  rw [walk_of_directory hL hT (directoryWord_store_entry hL hv w x), entryAt_store_entry hL hv, if_pos hw, decode, hx]
  simp

/-! ### Careful calls -/

/-- The events between two machines are those of a careful program. -/
def CarefulTo (util : MemoryUtil) (vmm : VirtualMemoryManager) (m m' : Machine) : Prop :=
  ∃ es, m'.trace = m.trace ++ es ∧
    Careful (walkPage (vmm.directoryAddress util)) (Unused util vmm) m.mem (es.map PagingEvent.toEvent) m'.mem

theorem CarefulTo.refl (util : MemoryUtil) (vmm : VirtualMemoryManager) (m : Machine) : CarefulTo util vmm m m :=
  ⟨[], (List.append_nil _).symm, .done⟩

theorem CarefulTo.trans {m'' : Machine} (h : CarefulTo util vmm m m') (h' : CarefulTo util vmm m' m'') :
    CarefulTo util vmm m m'' := by
  obtain ⟨es, hes, hcare⟩ := h
  obtain ⟨es', hes', hcare'⟩ := h'
  refine ⟨es ++ es', by rw [hes', hes, List.append_assoc], ?_⟩
  rw [List.map_append]
  exact hcare.append hcare'

/-- The translations of the one memory are those of the other. -/
def Keeps (util : MemoryUtil) (vmm : VirtualMemoryManager) (mem mem' : Foundations.Memory) : Prop :=
  ∀ w t, walk mem (vmm.directoryAddress util) w = some t → walk mem' (vmm.directoryAddress util) w = some t

/-- The translations stay when those that may change are not there yet. -/
theorem keeps_of_hidden {changed : VirtualAddress → Prop}
    (hhidden : ∀ w, changed w → walk mem (vmm.directoryAddress util) w = none)
    (hsame : ∀ w, ¬ changed w → walk mem' (vmm.directoryAddress util) w = walk mem (vmm.directoryAddress util) w) :
    Keeps util vmm mem mem' := by
  intro w t ht
  by_cases hw : changed w
  · rw [hhidden w hw] at ht
    cases ht
  · rw [hsame w hw, ht]

/-- Three stores to one word, each of which keeps the translations. -/
theorem carefulTo_stores {address : PhysicalAddress} {x y z : Entry}
    (hx : Keeps util vmm m.mem (m.mem.store32 address x))
    (hy : Keeps util vmm (m.mem.store32 address x) (m.mem.store32 address y))
    (hz : Keeps util vmm (m.mem.store32 address y) (m.mem.store32 address z)) :
    CarefulTo util vmm m (m.stores address [x, y, z]) := by
  refine ⟨[x, y, z].map (PagingEvent.store address), rfl, .publish (fun page => hx _) (.publish (fun page => ?_)
    (.publish (fun page => ?_) ?_))⟩
  · rw [Memory.store32_store32]
    exact hy _
  · rw [Memory.store32_store32, Memory.store32_store32]
    exact hz _
  · rw [Machine.mem_stores_three, Memory.store32_store32, Memory.store32_store32]
    exact .done

/-- The directory is made to point at an empty table: the address and a flag first, `Present` last. -/
theorem carefulTo_linkTable (hL : Layout util vmm) (hT : Tables util vmm m.mem) (hv : Covered v) :
    CarefulTo util vmm m (vmm.linkTable util m v) := by
  rw [linkTable]
  split
  · rename_i h0
    have hal := hL.table_aligned v hv
    have hsame : ∀ (x : Entry) w, ¬ directoryIndex v = directoryIndex w →
        walk (m.mem.store32 (entryAddress (vmm.directoryAddress util) (directoryIndex v)) x) (vmm.directoryAddress util) w =
          walk m.mem (vmm.directoryAddress util) w := fun x w hw => walk_store_directory hL hT x hw
    refine carefulTo_stores (keeps_of_hidden (fun w hw => walk_of_not_present ?_) (hsame _))
      (keeps_of_hidden (fun w hw => walk_store_directory_self hL (present_of_aligned hal) hw)
        fun w hw => (hsame _ w hw).trans (hsame _ w hw).symm)
      (keeps_of_hidden (fun w hw => walk_store_directory_self hL (present_or_writable hal) hw)
        fun w hw => (hsame _ w hw).trans (hsame _ w hw).symm)
    rw [directoryWord, ← hw, ← directoryWord, h0]
    rfl
  · exact .refl _ _ _

/-- An entry is made for a page that has none: a flag and the address first, `Present` last. -/
theorem carefulTo_storeEntry (hL : Layout util vmm) (hT : Tables util vmm m.mem) (hv : Covered v) (hp : Aligned p)
    (h0 : vmm.entryAt util m.mem v = 0#32) : CarefulTo util vmm m (vmm.storeEntry util m v p) := by
  have hsame : ∀ (x : Entry) w, ¬ SamePage v w →
      walk (m.mem.store32 (entryAddress (vmm.tableAddress util v) (tableIndex v)) x) (vmm.directoryAddress util) w =
        walk m.mem (vmm.directoryAddress util) w := fun x w hw => walk_store_entry hL hT hv x hw
  have hflag : Entry.present (0x2#32 ||| p) = false := by
    rw [BitVec.or_comm]
    exact present_or_writable hp
  refine carefulTo_stores (keeps_of_hidden (fun w hw => ?_) (hsame _))
    (keeps_of_hidden (fun w hw => walk_store_entry_self hL hT hv rfl hw)
      fun w hw => (hsame _ w hw).trans (hsame _ w hw).symm)
    (keeps_of_hidden (fun w hw => walk_store_entry_self hL hT hv hflag hw)
      fun w hw => (hsame _ w hw).trans (hsame _ w hw).symm)
  rw [walk_eq hL hT, ← entryAt_congr hL hw, h0, decode_zero]

/-- `Map` is careful. -/
theorem carefulTo_map (hL : Layout util vmm) (hT : Tables util vmm m.mem) (v : VirtualAddress) (p : PhysicalAddress)
    (writable : Bool) : CarefulTo util vmm m (vmm.map util m v p writable).2 := by
  have hresult := map_result hL hT v p writable
  generalize vmm.map util m v p writable = r at hresult
  cases hresult with
  | refused => exact .refl _ _ _
  | mapped hok =>
    obtain ⟨hp, -, hv, h0⟩ := hok
    exact (carefulTo_linkTable hL hT hv).trans
      (carefulTo_storeEntry hL (hT.linkTable hL hv) hv hp (by rw [entryAt_linkTable hL, h0]))

/-- Clearing an entry and invalidating its page is careful. -/
theorem carefulTo_unmap_flushTLB (hL : Layout util vmm) (hT : Tables util vmm m.mem) (hv : Covered v) :
    CarefulTo util vmm m (flushTLB (m.stores (entryAddress (vmm.tableAddress util v) (tableIndex v)) [0#32]) v) := by
  refine ⟨[.store (entryAddress (vmm.tableAddress util v) (tableIndex v)) 0#32, .invlpg v], ?_, .retire ?_ .done⟩
  · simp [flushTLB, Machine.emit, Machine.stores]
  · intro page t hpage ht
    rw [walkPage, walk_store_entry hL hT hv _ fun hs => hpage (samePage_pageAddress.mp hs).symm]
    exact ht

theorem carefulTo_mapLoop (hL : Layout util vmm) (n : ℕ) :
    ∀ {m : Machine} {v : VirtualAddress} {p : PhysicalAddress}, Tables util vmm m.mem →
      CarefulTo util vmm m (vmm.mapLoop util writable n m v p).2 := by
  induction n with
  | zero => exact fun _ => .refl _ _ _
  | succ n ih =>
    intro m v p hT
    have hcare := carefulTo_map hL hT v p writable
    have hT' := ((map_result hL hT v p writable).spec hL hT).1
    rw [mapLoop]
    generalize vmm.map util m v p writable = r at hcare hT'
    obtain ⟨_ | _, m'⟩ := r
    · exact hcare
    · exact hcare.trans (ih hT')

/-- `MapRange` is careful. -/
theorem carefulTo_mapRange (hL : Layout util vmm) (hT : Tables util vmm m.mem) (v : VirtualAddress)
    (p : PhysicalAddress) (writable : Bool) (count : SizeT) :
    CarefulTo util vmm m (vmm.mapRange util m v p writable count).2 := carefulTo_mapLoop hL count.toNat hT

theorem carefulTo_unmapLoop (hL : Layout util vmm) (n : ℕ) :
    ∀ {m : Machine} {v : VirtualAddress}, Tables util vmm m.mem → CarefulTo util vmm m (vmm.unmapLoop util n m v).2 := by
  induction n with
  | zero => exact fun _ => .refl _ _ _
  | succ n ih =>
    intro m v hT
    have hresult := unmap_result hL hT v
    have hT' := (hresult.spec hL hT).1
    rw [unmapLoop]
    generalize vmm.unmap util m v = r at hresult hT'
    cases hresult with
    | refused => exact .refl _ _ _
    | unmapped _ hv _ => exact (carefulTo_unmap_flushTLB hL hT hv).trans (ih hT')

/-- `UnmapRange` is careful. -/
theorem carefulTo_unmapRange (hL : Layout util vmm) (hT : Tables util vmm m.mem) (v : VirtualAddress) (count : SizeT) :
    CarefulTo util vmm m (vmm.unmapRange util m v count).2 := carefulTo_unmapLoop hL count.toNat hT

/-- `VirtualMemoryAllocator::AllocatePages` is careful. -/
theorem carefulTo_allocatePages {k : Kernel} (hL : Layout util k.vmm) (hT : Tables util k.vmm k.machine.mem) (n : SizeT) :
    CarefulTo util k.vmm k.machine (VirtualMemoryAllocator.allocatePages util k n).2.machine := by
  have hresult := VirtualMemoryAllocator.allocatePages_result util k n
  generalize VirtualMemoryAllocator.allocatePages util k n = r at hresult
  have hcare := fun v => carefulTo_mapRange hL hT v (k.pmm.allocatePages n).1 true n
  cases hresult with
  | refused hm _ =>
    rw [hm]
    exact .refl _ _ _
  | @stopped v _ _ hmap hm _ =>
    have hv := hcare v
    rwa [hmap, ← hm] at hv
  | @mapped v _ _ _ hmap hm _ =>
    have hv := hcare v
    rwa [hmap, ← hm] at hv

/-- `VirtualMemoryAllocator::FreePages` is careful: when it gives the frames back, no page of the range is
mapped. -/
theorem carefulTo_freePages {k : Kernel} (hL : Layout util k.vmm) (hT : Tables util k.vmm k.machine.mem)
    (v : VirtualAddress) (n : SizeT) :
    CarefulTo util k.vmm k.machine (VirtualMemoryAllocator.freePages util k v n).2.machine := by
  have hresult := VirtualMemoryAllocator.freePages_result util k v n
  generalize VirtualMemoryAllocator.freePages util k v n = r at hresult
  have hcare := carefulTo_unmapRange hL hT v n
  have hspec := unmapRange_spec hL hT v n
  cases hresult with
  | nothing => exact .refl _ _ _
  | stopped hunmap hm _ => rwa [hunmap, ← hm] at hcare
  | freed hunmap hm _ =>
    rw [hunmap] at hcare hspec
    rw [hm]
    refine hcare.trans ⟨[_], rfl, .release (fun page hpage => ⟨?_, ?_⟩) .done⟩
    · exact hspec.unmapped rfl _ hpage
    · rw [walkPage, walk_eq hL hspec.tables, hspec.unmapped rfl _ hpage, decode_zero]

end

/-! ### The kernel and the processor -/

/-- The calls that change the tables. -/
inductive PagingCall where
  /-- `MapRange(virtualAddress, physicalAddress, writable, pageCount)`. -/
  | mapRange (virtualAddress : VirtualAddress) (physicalAddress : PhysicalAddress) (writable : Bool) (pageCount : SizeT)
  /-- `UnmapRange(virtualAddress, pageCount)`. -/
  | unmapRange (virtualAddress : VirtualAddress) (pageCount : SizeT)
  /-- `VirtualMemoryAllocator::AllocatePages(pageCount)`. -/
  | allocatePages (pageCount : SizeT)
  /-- `VirtualMemoryAllocator::FreePages(address, pageCount)`. -/
  | freePages (address : VirtualAddress) (pageCount : SizeT)

/-- The kernel after the call. -/
def PagingCall.run (util : MemoryUtil) (k : Kernel) : PagingCall → Kernel
  | .mapRange v p writable n => { k with machine := (k.vmm.mapRange util k.machine v p writable n).2 }
  | .unmapRange v n => { k with machine := (k.vmm.unmapRange util k.machine v n).2 }
  | .allocatePages n => (VirtualMemoryAllocator.allocatePages util k n).2
  | .freePages v n => (VirtualMemoryAllocator.freePages util k v n).2

/-- The kernel, and the translations that the processor has cached. -/
structure Mmu where
  /-- The kernel. -/
  kernel : Kernel
  /-- The cached translations. -/
  cached : Set (PageNumber × Translation)

namespace Mmu

/-- A moment within the call: the processor has cached what it liked between the events of the call. -/
def During (util : MemoryUtil) (s : Mmu) (call : PagingCall) (c : Config Foundations.Memory PageNumber Translation) : Prop :=
  ∃ es, (call.run util s.kernel).machine.trace = s.kernel.machine.trace ++ es ∧
    ReflTransGen (Config.Step (walkPage s.kernel.machine.cr3))
      ⟨s.kernel.machine.mem, s.cached, es.map PagingEvent.toEvent⟩ c

/-- A call, until its events are over. -/
inductive Step (util : MemoryUtil) : Mmu → PagingCall → Mmu → Prop
  /-- The call happens. -/
  | call {s : Mmu} {call : PagingCall} {mem : Foundations.Memory} {cached : Set (PageNumber × Translation)} :
      During util s call ⟨mem, cached, []⟩ → Step util s call ⟨call.run util s.kernel, cached⟩

/-- What holds between the calls. -/
structure Inv (util : MemoryUtil) (s : Mmu) : Prop where
  /-- The tables lie where they should. -/
  layout : Layout util s.kernel.vmm
  /-- The tables are in order. -/
  tables : Tables util s.kernel.vmm s.kernel.machine.mem
  /-- The directory is in use. -/
  cr3 : s.kernel.machine.cr3 = s.kernel.vmm.directoryAddress util
  /-- The cache agrees with the tables. -/
  consistent : Consistent (walkPage s.kernel.machine.cr3) s.kernel.machine.mem s.cached

/-- What a call does to the kernel: the manager and the directory in use stay, the tables stay in order,
and the events are careful. -/
theorem run_spec {util : MemoryUtil} {k : Kernel} (hL : Layout util k.vmm) (hT : Tables util k.vmm k.machine.mem)
    (call : PagingCall) : (call.run util k).vmm = k.vmm ∧ (call.run util k).machine.cr3 = k.machine.cr3 ∧
      Tables util k.vmm (call.run util k).machine.mem ∧ CarefulTo util k.vmm k.machine (call.run util k).machine := by
  cases call with
  | mapRange v p writable n =>
    have hspec := mapRange_spec hL hT v p writable n
    exact ⟨rfl, hspec.cr3, hspec.tables, carefulTo_mapRange hL hT v p writable n⟩
  | unmapRange v n =>
    have hspec := unmapRange_spec hL hT v n
    exact ⟨rfl, hspec.cr3, hspec.tables, carefulTo_unmapRange hL hT v n⟩
  | allocatePages n =>
    have hcare := carefulTo_allocatePages hL hT n
    have hresult := VirtualMemoryAllocator.allocatePages_result util k n
    rw [PagingCall.run]
    generalize VirtualMemoryAllocator.allocatePages util k n = r at hcare hresult
    have hspec := fun v => mapRange_spec hL hT v (k.pmm.allocatePages n).1 true n
    cases hresult with
    | refused hm hvmm => exact ⟨hvmm, by rw [hm], by rw [hm]; exact hT, hcare⟩
    | @stopped v _ _ hmap hm hvmm =>
      have hs := hspec v
      rw [hmap, ← hm] at hs
      exact ⟨hvmm, hs.cr3, hs.tables, hcare⟩
    | @mapped v _ _ _ hmap hm hvmm =>
      have hs := hspec v
      rw [hmap, ← hm] at hs
      exact ⟨hvmm, hs.cr3, hs.tables, hcare⟩
  | freePages v n =>
    have hcare := carefulTo_freePages hL hT v n
    have hresult := VirtualMemoryAllocator.freePages_result util k v n
    rw [PagingCall.run]
    generalize VirtualMemoryAllocator.freePages util k v n = r at hcare hresult
    have hspec := unmapRange_spec hL hT v n
    cases hresult with
    | nothing => exact ⟨rfl, rfl, hT, hcare⟩
    | stopped hunmap hm hvmm =>
      rw [hunmap, ← hm] at hspec
      exact ⟨hvmm, hspec.cr3, hspec.tables, hcare⟩
    | freed hunmap hm hvmm =>
      rw [hunmap] at hspec
      exact ⟨hvmm, by rw [hm]; exact hspec.cr3, by rw [hm]; exact hspec.tables, hcare⟩

/-- **Within a call**: when the events are over the memory is that of the kernel and the cache agrees with
it, and pages that are released are unused and not cached. -/
theorem Inv.during {util : MemoryUtil} {s : Mmu} (h : Inv util s) {call : PagingCall}
    {c : Config Foundations.Memory PageNumber Translation} (hc : During util s call c) :
    (c.rest = [] → c.mem = (call.run util s.kernel).machine.mem ∧
        Consistent (walkPage s.kernel.machine.cr3) c.mem c.cached) ∧
      ∀ pages rest, c.rest = .release pages :: rest →
        ∀ page ∈ pages, Unused util s.kernel.vmm c.mem page ∧ ∀ t, (page, t) ∉ c.cached := by
  obtain ⟨-, -, -, es, hes, hcare⟩ := run_spec h.layout h.tables call
  obtain ⟨es', hes', hrun⟩ := hc
  obtain rfl : es' = es := List.append_cancel_left (hes'.symm.trans hes)
  rw [← h.cr3] at hcare
  exact hcare.safe h.consistent hrun

theorem Inv.step {util : MemoryUtil} {s t : Mmu} {call : PagingCall} (h : Inv util s) (hs : Step util s call t) :
    Inv util t := by
  obtain ⟨hduring⟩ := hs
  obtain ⟨hvmm, hcr3, hT, -⟩ := run_spec h.layout h.tables call
  obtain ⟨hmem, hcons⟩ := (h.during hduring).1 rfl
  refine ⟨by rw [hvmm]; exact h.layout, by rw [hvmm]; exact hT, by rw [hvmm, hcr3]; exact h.cr3, ?_⟩
  rw [hcr3]
  simp only at hmem hcons
  rwa [hmem] at hcons

/-- The state in which the kernel has loaded its directory, which empties the cache. -/
theorem inv_start {bootInfo : BootInfo} {vmm vmm' : VirtualMemoryManager} {m m' : Machine} {imageSize : ℕ}
    (h : InImage (MemoryUtil.init bootInfo) vmm imageSize)
    (hok : initVirtualMemoryManager (MemoryUtil.init bootInfo) vmm bootInfo m = (true, vmm', m'))
    (pmm : PhysicalMemoryManager) (vma : VirtualMemoryAllocator) :
    Inv (MemoryUtil.init bootInfo) ⟨⟨m', vmm', pmm, vma⟩, ∅⟩ := by
  obtain ⟨hL, hT, hcr3, -⟩ := initVirtualMemoryManager_maps h hok
  exact ⟨hL, hT, hcr3, fun _ he => he.elim⟩

/-- **The cache never goes stale**: after `InitVirtualMemoryManager`, for every sequence of calls with any
arguments, and whatever the processor caches between their stores: after every call, each cached
translation is what the walk finds; and at the moment when `FreePages` gives frames back, no page of the
range has an entry or is cached. -/
theorem tlb_never_stale (bootInfo : BootInfo) (vmm vmm' : VirtualMemoryManager) (m m' : Machine) (imageSize : ℕ)
    (h : InImage (MemoryUtil.init bootInfo) vmm imageSize)
    (hok : initVirtualMemoryManager (MemoryUtil.init bootInfo) vmm bootInfo m = (true, vmm', m'))
    (pmm : PhysicalMemoryManager) (vma : VirtualMemoryAllocator) (s : Mmu)
    (hrun : Runs (Step (MemoryUtil.init bootInfo)) ⟨⟨m', vmm', pmm, vma⟩, ∅⟩ s) :
    (∀ e ∈ s.cached, walk s.kernel.machine.mem s.kernel.machine.cr3 (pageAddress e.1) = some e.2) ∧
      ∀ call c v p n rest, During (MemoryUtil.init bootInfo) s call c →
        c.rest = (PagingEvent.giveBack v p n).toEvent :: rest →
        ∀ x, InPages v n.toNat x → s.kernel.vmm.entryAt (MemoryUtil.init bootInfo) c.mem x = 0#32 ∧
          ∀ t, (pageNumber x, t) ∉ c.cached := by
  have hinv : Inv (MemoryUtil.init bootInfo) s :=
    hrun.invariant (fun _ _ _ hs _ hstep => hs.step hstep) (inv_start h hok pmm vma)
  refine ⟨hinv.consistent, fun call c v p n rest hc hrest x ⟨i, hi, hx⟩ => ?_⟩
  have hpage : SamePage x (pageAddress (pageNumber x)) := samePage_pageAddress.mpr rfl
  obtain ⟨hunused, hcached⟩ := (hinv.during hc).2 _ rest hrest (pageNumber x) ⟨i, hi, hx.trans hpage⟩
  exact ⟨(entryAt_congr hinv.layout hpage).trans hunused, hcached⟩

/-- Every call can end with any translation that the tables then have in the cache. -/
theorem Inv.exists_step {util : MemoryUtil} {s : Mmu} (h : Inv util s) (call : PagingCall) {page : PageNumber}
    {t : Translation} (hw : walkPage s.kernel.machine.cr3 (call.run util s.kernel).machine.mem page = some t) :
    ∃ cached, (page, t) ∈ cached ∧ Step util s call ⟨call.run util s.kernel, cached⟩ := by
  obtain ⟨-, -, -, es, hes, -⟩ := run_spec h.layout h.tables call
  obtain ⟨mem, cached, -, hrun⟩ := Config.finishes (walkPage s.kernel.machine.cr3) (es.map PagingEvent.toEvent)
    s.kernel.machine.mem s.cached
  obtain ⟨hmem, -⟩ := (h.during ⟨es, hes, hrun⟩).1 rfl
  simp only at hmem
  rw [← hmem] at hw
  exact ⟨insert (page, t) cached, .inl rfl, .call ⟨es, hes, hrun.tail (.fill hw)⟩⟩

/-- On the machine with 512 MB a page is mapped at `0xD0000000`, and the processor caches it. -/
theorem tlb_never_stale_vmm512 :
    ∃ vmm' m' cached, initVirtualMemoryManager (MemoryUtil.init bootInfo512) vmm512 bootInfo512
        ⟨fun _ => 0#8, 0#32, []⟩ = (true, vmm', m') ∧
      let start : Kernel := ⟨m', vmm', Client.freshAtOneMB, (initVirtualMemoryAllocator bootInfo512).2⟩
      let k := (PagingCall.mapRange 0xD0000000#32 0x5000#32 true 1#32).run (MemoryUtil.init bootInfo512) start
      Runs (Step (MemoryUtil.init bootInfo512)) ⟨start, ∅⟩ ⟨k, cached⟩ ∧ (0xD0000#20, ⟨0x5000#32, true⟩) ∈ cached ∧
        walk k.machine.mem k.machine.cr3 0xD0000000#32 = some ⟨0x5000#32, true⟩ := by
  obtain ⟨vmm', m', hok, hwalk⟩ := initVirtualMemoryManager_walk inImage_vmm512 (by decide) (by decide) (by decide)
    ⟨fun _ => 0#8, 0#32, []⟩
  have hinv := inv_start inImage_vmm512 hok Client.freshAtOneMB (initVirtualMemoryAllocator bootInfo512).2
  have hfree : ∀ i < (1#32).toNat, Covered (pageAt 0xD0000000#32 i) ∧
      vmm'.entryAt (MemoryUtil.init bootInfo512) m'.mem (pageAt 0xD0000000#32 i) = 0#32 := by
    intro i hi
    obtain rfl : i = 0 := Nat.lt_one_iff.mp hi
    refine ⟨by decide, (walk_eq_none_iff hinv.layout hinv.tables).mp ?_⟩
    rw [← hinv.cr3]
    exact (hwalk _ (by decide)).trans (by decide)
  have hsucceeds : (vmm'.mapRange (MemoryUtil.init bootInfo512) m' 0xD0000000#32 0x5000#32 true 1#32).1 = true :=
    mapRange_succeeds hinv.layout hinv.tables (by decide) (by decide) (by decide) hfree
  have hspec := mapRange_spec hinv.layout hinv.tables 0xD0000000#32 0x5000#32 true 1#32
  have hentry := (hspec.mapped hsucceeds 0 (by decide)).2.2.2.2
  have hpage : pageAddress 0xD0000#20 = 0xD0000000#32 := by decide
  have hw : walkPage m'.cr3 (vmm'.mapRange (MemoryUtil.init bootInfo512) m' 0xD0000000#32 0x5000#32 true 1#32).2.mem
      0xD0000#20 = some ⟨0x5000#32, true⟩ := by
    rw [pageAt_zero, pageAt_zero] at hentry
    rw [walkPage, hpage, show m'.cr3 = _ from hinv.cr3]
    refine (walk_eq hinv.layout hspec.tables _).trans ?_
    rw [hentry]
    exact decode_entryFor (by decide)
  obtain ⟨cached, hcached, hstep⟩ := hinv.exists_step (.mapRange 0xD0000000#32 0x5000#32 true 1#32) hw
  have hrun : Runs (Step (MemoryUtil.init bootInfo512)) _ _ := .single trivial hstep
  have hwalk' := (tlb_never_stale bootInfo512 vmm512 vmm' _ m' _ inImage_vmm512 hok _ _ _ hrun).1 _ hcached
  rw [hpage] at hwalk'
  exact ⟨vmm', m', cached, hok, hrun, hcached, hwalk'⟩

end Mmu

end EagleOS.Memory
