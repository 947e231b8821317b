import EagleOS.Memory.HeapClients
import EagleOS.Memory.VirtualMemoryContents

/-!
# The heap behind the page tables

`Heap` is about a flat memory: what the kernel's addresses hold. The kernel reaches it through the page tables, and the
frames of the heap's region are in the same physical memory as everything else. This module runs the two side by side.

## The model

The stores of a call are a list of addresses and bytes. `storeBytes` makes them in the flat memory, and
`Kernel.storeBytes` makes them where the page tables say, or stops at a page fault. `HeapSystem.Step` is a call on the heap, with
any stores in the heap's region that have its effect, or a step of the other clients.

## What is proved

* `HeapClient.Inv.changes_region` — a call on the heap changes bytes of its region only.
* `PageClient.Guarded.storeBytes` — stores at live addresses meet no page fault, and have the same effect in both.
* `heap_in_pages` — so the heap behind the page tables is the heap of the flat memory, in every run.
-/

namespace EagleOS.Memory

open ESTD Boot Foundations Arch VirtualMemoryManager VirtualMemoryAllocator HeapNode

/-- The stores of a list, one after the other. -/
def storeBytes (mem : Foundations.Memory) (bytes : List (VirtualAddress × BitVec 8)) : Foundations.Memory :=
  bytes.foldl (fun mem p => mem.store8 p.1 p.2) mem

/-- The same through the page tables; `none` for a page fault. -/
def Kernel.storeBytes (k : Kernel) (bytes : List (VirtualAddress × BitVec 8)) : Option Kernel :=
  bytes.foldlM (fun k p => (k.physicalAddress p.1).map fun x => k.store x p.2) k

/-- Stores of one byte each at the addresses of a list. -/
theorem storeBytes_map (f : VirtualAddress → BitVec 8) {a : VirtualAddress} {addresses : List VirtualAddress} :
    ∀ {mem : Foundations.Memory}, (a ∈ addresses → storeBytes mem (addresses.map fun x => (x, f x)) a = f a) ∧
      (a ∉ addresses → storeBytes mem (addresses.map fun x => (x, f x)) a = mem a) := by
  induction addresses with
  | nil => exact ⟨fun h => absurd h List.not_mem_nil, fun _ => rfl⟩
  | cons x addresses ih =>
    intro mem
    change (_ → storeBytes (mem.store8 x (f x)) (addresses.map fun x => (x, f x)) a = f a) ∧
      (_ → storeBytes (mem.store8 x (f x)) (addresses.map fun x => (x, f x)) a = mem a)
    by_cases ha : a ∈ addresses
    · exact ⟨fun _ => ih.1 ha, fun hno => absurd (List.mem_cons_of_mem x ha) hno⟩
    · rw [ih.2 ha]
      refine ⟨fun h => ?_, fun h => Memory.store8_of_ne (List.ne_of_not_mem_cons h)⟩
      rw [(List.mem_cons.mp h).resolve_right ha, Memory.store8_self]

/-- The addresses of the heap. -/
def region (heap : Heap) : Set VirtualAddress :=
  {a | heap.startAddress.toNat ≤ a.toNat ∧ a.toNat < heap.endAddress.toNat}

/-- Changes in the region can be made by stores in the region. -/
theorem exists_bytes {heap : Heap} {mem mem' : Foundations.Memory} (h : ∀ a ∉ region heap, mem' a = mem a) :
    ∃ bytes : List (VirtualAddress × BitVec 8), (∀ p ∈ bytes, p.1 ∈ region heap) ∧ storeBytes mem bytes = mem' := by
  -- one for each address of the region
  let addresses := (List.range (heap.endAddress.toNat - heap.startAddress.toNat)).map fun i =>
    heap.startAddress + BitVec.ofNat 32 i
  have hmem : ∀ a, a ∈ addresses ↔ a ∈ region heap := by
    intro a
    have hlt := heap.endAddress.isLt
    rw [List.mem_map]
    constructor
    · rintro ⟨i, hi, rfl⟩
      rw [List.mem_range] at hi
      have hadd : (heap.startAddress + BitVec.ofNat 32 i).toNat = heap.startAddress.toNat + i := by
        rw [BitVec.toNat_add, BitVec.toNat_ofNat]
        omega
      exact ⟨by omega, by omega⟩
    · rintro ⟨hlow, hhigh⟩
      refine ⟨a.toNat - heap.startAddress.toNat, List.mem_range.mpr (by omega), ?_⟩
      apply BitVec.eq_of_toNat_eq
      rw [BitVec.toNat_add, BitVec.toNat_ofNat]
      omega
  refine ⟨addresses.map fun a => (a, mem' a), fun p hp => ?_, ?_⟩
  · obtain ⟨a, ha, rfl⟩ := List.mem_map.mp hp
    exact (hmem a).mp ha
  · funext a
    by_cases ha : a ∈ region heap
    · exact (storeBytes_map mem').1 ((hmem a).mpr ha)
    · rw [h a ha]
      exact (storeBytes_map mem').2 (mt (hmem a).mp ha)

/-- The addresses of a set hold what they hold in the flat memory. -/
def Backs (s : Set VirtualAddress) (mem : Foundations.Memory) (pages : PageClient) : Prop :=
  ∀ a ∈ s, pages.cells a = some (mem a)

/-! ### The region of the heap -/

namespace HeapClient

variable {s t : HeapClient} {nodes : List VirtualAddress} {n : SizeT}

/-- The headers lie in the region. -/
theorem Inv.header_region (h : Inv s nodes) {y a : VirtualAddress} (hy : y ∈ nodes) (ha : a ∈ Span y 13) :
    a ∈ region s.heap := by
  obtain ⟨hlow, hhigh⟩ := h.blocks.within hy
  have hend := h.blocks.inside (List.ne_nil_of_mem hy)
  have hlt := s.heap.currentAddress.isLt
  rw [mem_span_iff (by omega)] at ha
  exact ⟨by omega, by omega⟩

/-- So does the header that is made where there is room. -/
theorem Inv.current_region (h : Inv s nodes) (hroom : RoomAtEnd s.heap n) {a : VirtualAddress}
    (ha : a ∈ Span s.heap.currentAddress 13) : a ∈ region s.heap := by
  have hlow : s.heap.startAddress.toNat ≤ s.heap.currentAddress.toNat := by
    cases nodes with
    | nil => exact le_of_eq h.blocks.tiles
    | cons x nodes =>
      obtain ⟨hlow, hhigh⟩ := h.blocks.within (List.mem_cons_self (l := nodes))
      omega
  have hlt := s.heap.endAddress.isLt
  rw [RoomAtEnd] at hroom
  rw [mem_span_iff (by omega)] at ha
  exact ⟨by omega, by omega⟩

/-- So do the live allocations. -/
theorem Inv.payload_region (h : Inv s nodes) {x : VirtualAddress × SizeT} (hx : x ∈ s.live) : payload x ⊆ region s.heap := by
  intro a ha
  obtain ⟨hlow, hhigh⟩ := h.within hx
  obtain ⟨y, hy, -⟩ := h.live x hx
  have hend := h.blocks.inside (List.ne_nil_of_mem hy)
  have hlt := s.heap.currentAddress.isLt
  rw [payload, mem_span_iff (by omega)] at ha
  exact ⟨by omega, by omega⟩

/-- A call that fits and does not merge changes bytes of the region only. -/
theorem Inv.changes_region (h : Inv s nodes) {c : HeapCall} (hfits : s.Fits c) (hun : s.Unmerged c) (hs : Step s c t)
    {a : VirtualAddress} (ha : a ∉ region s.heap) : t.heap.mem a = s.heap.mem a := by
  cases c with
  | allocate n =>
    rw [Step, HeapClient.step] at hs
    have hresult := allocate_result h.blocks n
    generalize s.heap.allocate n = r at hresult hs
    cases hresult with
    | zero =>
      cases hs
      rfl
    | reused hy =>
      cases hs
      exact setState_of_notMem fun hin => ha (h.header_region hy hin)
    | @appended last hn hno hlast =>
      cases hs
      have hroom := (hfits.resolve_left hn).atEnd h.blocks hno
      refine appendNode_of_notMem (fun hin => ha (h.current_region hroom hin)) fun h0 hin => ha (h.header_region ?_ hin)
      exact hlast.resolve_right fun hl => h0 hl.2
  | free p n =>
    obtain ⟨hlive, rfl⟩ := hs.of_free
    obtain ⟨y, hy, hp, hstate, -⟩ := h.live _ hlive
    simp only at hp
    have hno : NoFreeNeighbour s.heap.mem (p - sizeOf) := hun
    rw [hp, BitVec.add_sub_cancel] at hno
    simp only [hp, free_result h.blocks hy hstate hno]
    exact setState_of_notMem fun hin => ha (h.header_region hy hin)
  | write b value =>
    obtain ⟨⟨x, hx, hb⟩, rfl⟩ := hs.of_write
    refine Memory.store8_of_ne ?_
    rintro rfl
    exact ha (h.payload_region hx hb)

end HeapClient

/-! ### Stores through the page tables -/

namespace PageClient

variable {util : MemoryUtil} {pages : Set ℕ} {s : PageClient}

/-- **Stores in both memories**: stores at live addresses meet no page fault, leave every translation as it is, and have the
same effect on what live addresses hold as they have in a flat memory. -/
theorem Guarded.storeBytes (bytes : List (VirtualAddress × BitVec 8)) :
    ∀ {s : PageClient}, Guarded util pages s → (∀ p ∈ bytes, p.1 ∈ s.live) → ∃ k', s.kernel.storeBytes bytes = some k' ∧
      Guarded util pages ⟨k', s.live⟩ ∧ (∀ v, k'.translate v = s.kernel.translate v) ∧
      ∀ set ⊆ s.live, ∀ mem, Backs set mem s → Backs set (Memory.storeBytes mem bytes) ⟨k', s.live⟩ := by
  induction bytes with
  | nil => exact fun h _ => ⟨_, rfl, h, fun _ => rfl, fun _ _ _ hb => hb⟩
  | cons p bytes ih =>
    intro s h hlive
    have hp := hlive p List.mem_cons_self
    obtain ⟨x, hx⟩ := h.exists_place hp
    obtain ⟨hstored, hsame⟩ := h.agree (h.store_agrees hp hx p.2)
    obtain ⟨k', hk', hg, htr, hback⟩ := ih hstored fun q hq => hlive q (List.mem_cons_of_mem p hq)
    refine ⟨k', ?_, hg, fun v => (htr v).trans (hsame v), fun set hset mem hmem => hback set hset _ fun a ha => ?_⟩
    · rw [Kernel.storeBytes, List.foldlM_cons, hx]
      exact hk'
    · have hstep : CellStep s.cells (.write p.1 p.2) (PageClient.cells ⟨s.kernel.store _ p.2, s.live⟩) :=
        h.cells (c := .store p.1 p.2) trivial (.store hp hx)
      change PageClient.cells ⟨s.kernel.store _ p.2, s.live⟩ a = _
      by_cases hap : a = p.1
      · rw [hap, hstep.2.1]
        exact congrArg some (Memory.store8_self ..).symm
      · rw [hstep.2.2 a hap, hmem a ha]
        exact congrArg some (Memory.store8_of_ne hap).symm

end PageClient

/-! ### The heap among other clients -/

/-- The memory holds what lies at the places of the addresses. Where nothing is mapped, it may hold anything. -/
def Shows (k : Kernel) (mem : Foundations.Memory) : Prop :=
  ∀ a x, k.physicalAddress a = some x → mem a = k.machine.mem x

/-- The heap, with this in memory. -/
def HeapClient.seeing (s : HeapClient) (mem : Foundations.Memory) : HeapClient := ⟨{ s.heap with mem := mem }, s.live⟩

/-- The blocks of a heap are what its region says. -/
theorem HeapClient.Inv.seeing {s : HeapClient} {nodes : List VirtualAddress} (h : Inv s nodes)
    (hroom : s.heap.startAddress.toNat + 13 ≤ s.heap.endAddress.toNat) {mem : Foundations.Memory}
    (hmem : ∀ a ∈ region s.heap, mem a = s.heap.mem a) : Inv (s.seeing mem) nodes := by
  have hsame : ∀ y ∈ nodes, ∀ a ∈ Span y 13, mem a = s.heap.mem a := fun y hy a ha => hmem a (h.header_region hy ha)
  have hsize : ∀ y ∈ nodes, size mem y = size s.heap.mem y := fun y hy => size_congr (hsame y hy)
  refine ⟨h.blocks.congr hsize (fun y hy => ⟨next_congr (hsame y hy), prev_congr (hsame y hy)⟩) fun _ => ?_,
    fun x hx => ?_, h.once⟩
  · -- there is no block yet: the first header is in the region all the same
    have hlt := s.heap.endAddress.isLt
    refine prev_congr fun a ha => hmem a ?_
    rw [mem_span_iff (by omega)] at ha
    exact ⟨ha.1, by omega⟩
  · obtain ⟨y, hy, hp, hstate, hle⟩ := h.live x hx
    exact ⟨y, hy, hp, (hasState_congr (hsame y hy) _).mpr hstate, by rw [HeapClient.seeing, hsize y hy]; exact hle⟩

/-- The heap and who holds what of it, and the pages and who holds what of them. -/
structure HeapSystem where
  /-- The heap. Its memory is what it finds at the next call. -/
  client : HeapClient
  /-- The pages. -/
  pages : PageClient

/-- What happens. -/
inductive SystemCall where
  /-- A call on the heap, or a byte that is written to an allocation of it. -/
  | heap (c : HeapCall)
  /-- Something else. -/
  | page (c : DataCall)

namespace HeapSystem

/-- What the heap and the others do. -/
inductive Step (util : MemoryUtil) : HeapSystem → SystemCall → HeapSystem → Prop
  /-- A call on the heap: its stores are made where the page tables say. -/
  | heap {s : HeapSystem} {c : HeapCall} {client : HeapClient} {bytes : List (VirtualAddress × BitVec 8)} {k : Kernel}
      {mem : Foundations.Memory} : HeapClient.Step s.client c client → (∀ p ∈ bytes, p.1 ∈ region s.client.heap) →
      storeBytes s.client.heap.mem bytes = client.heap.mem → s.pages.kernel.storeBytes bytes = some k → Shows k mem →
      Step util s (.heap c) ⟨client.seeing mem, ⟨k, s.pages.live⟩⟩
  /-- A step of the others. -/
  | page {s : HeapSystem} {c : DataCall} {pages : PageClient} {mem : Foundations.Memory} :
      PageClient.DataStep util s.pages c pages → Shows pages.kernel mem → Step util s (.page c) ⟨s.client.seeing mem, pages⟩

/-- The conditions on the calls; and the others leave the heap's region alone. -/
def Careful (util : MemoryUtil) (s : HeapSystem) : SystemCall → Prop
  | .heap c => s.client.Fits c ∧ s.client.Unmerged c
  | .page c => s.pages.Careful c ∧ ∀ a ∈ region s.client.heap, ¬ (s.pages.event util c).Touches a

/-- What holds in every state. -/
structure Inv (util : MemoryUtil) (pages : Set ℕ) (s : HeapSystem) : Prop where
  /-- The pages are in order. -/
  guarded : PageClient.Guarded util pages s.pages
  /-- The region of the heap is allocated. -/
  region_live : region s.client.heap ⊆ s.pages.live
  /-- It has room for a header. -/
  room : s.client.heap.startAddress.toNat + 13 ≤ s.client.heap.endAddress.toNat
  /-- The heap finds what is there. -/
  shows : Shows s.pages.kernel s.client.heap.mem
  /-- The heap is in order. -/
  client : ∃ nodes, HeapClient.Inv s.client nodes

variable {util : MemoryUtil} {pages : Set ℕ} {s t : HeapSystem}

/-- What a kernel can find: nothing but zeros where nothing is mapped. -/
theorem exists_shows (k : Kernel) : ∃ mem, Shows k mem := by
  refine ⟨fun a => ((k.physicalAddress a).map k.machine.mem).getD 0#8, fun a x hx => ?_⟩
  simp [hx]

/-- Live addresses hold what is found there. -/
theorem backs_of_shows {s : PageClient} (h : PageClient.Guarded util pages s) {set : Set VirtualAddress} (hset : set ⊆ s.live)
    {mem : Foundations.Memory} (hshows : Shows s.kernel mem) : Backs set mem s := by
  intro a ha
  obtain ⟨x, hx⟩ := h.exists_place (hset ha)
  rw [PageClient.cells, view_of_mem (hset ha) hx, hshows a x hx]

/-- What is found there is what they hold. -/
theorem eq_of_backs {s : PageClient} {set : Set VirtualAddress} {mem mem' : Foundations.Memory} (h : Backs set mem s)
    (hshows : Shows s.kernel mem') {a : VirtualAddress} (ha : a ∈ set) : mem' a = mem a := by
  have hseen := h a ha
  obtain ⟨hlive, hplace⟩ : a ∈ s.live ∧ s.kernel.physicalAddress a ≠ none :=
    view_ne_none.mp (show s.cells a ≠ none by simp [hseen])
  obtain ⟨x, hx⟩ := Option.ne_none_iff_exists'.mp hplace
  rw [PageClient.cells, view_of_mem hlive hx] at hseen
  exact (hshows a x hx).trans (Option.some.inj hseen)

/-- The heap finds in its region what the call has left there. -/
theorem Inv.heap_finds (h : Inv util pages s) {mem₁ mem : Foundations.Memory} {bytes : List (VirtualAddress × BitVec 8)}
    {k : Kernel} (hbytes : ∀ p ∈ bytes, p.1 ∈ region s.client.heap) (heffect : storeBytes s.client.heap.mem bytes = mem₁)
    (hk : s.pages.kernel.storeBytes bytes = some k) (hshows : Shows k mem) :
    PageClient.Guarded util pages ⟨k, s.pages.live⟩ ∧ ∀ a ∈ region s.client.heap, mem a = mem₁ a := by
  obtain ⟨k', hk', hg, -, hback⟩ := h.guarded.storeBytes bytes fun p hp => h.region_live (hbytes p hp)
  obtain rfl := Option.some.inj (hk.symm.trans hk')
  refine ⟨hg, fun a ha => ?_⟩
  rw [← heffect]
  exact eq_of_backs (hback _ h.region_live _ (backs_of_shows h.guarded h.region_live h.shows)) hshows ha

/-- The others leave in its region what was there. -/
theorem Inv.page_finds (h : Inv util pages s) {c : DataCall} (hok : s.Careful util (.page c)) {p : PageClient}
    (hstep : PageClient.DataStep util s.pages c p) {mem : Foundations.Memory} (hshows : Shows p.kernel mem) :
    region s.client.heap ⊆ p.live ∧ ∀ a ∈ region s.client.heap, mem a = s.client.heap.mem a := by
  have hkept : Backs (region s.client.heap) s.client.heap.mem p := fun a ha =>
    ((h.guarded.cells hok.1 hstep).kept (hok.2 a ha)).trans (backs_of_shows h.guarded h.region_live h.shows a ha)
  refine ⟨fun a ha => ?_, fun a ha => eq_of_backs hkept hshows ha⟩
  exact (view_ne_none.mp (show p.cells a ≠ none by simp [hkept a ha])).1

/-- **One step**, of the heap or of the others. -/
theorem Inv.step (h : Inv util pages s) {c : SystemCall} (hok : s.Careful util c) (hstep : Step util s c t) :
    Inv util pages t ∧ t.client.heap.startAddress = s.client.heap.startAddress ∧
      t.client.heap.endAddress = s.client.heap.endAddress := by
  obtain ⟨nodes, hclient⟩ := h.client
  have hroom := h.room
  cases hstep with
  | @heap c client bytes k mem hs hbytes heffect hk hshows =>
    obtain ⟨⟨nodes', hclient'⟩, hstart, hend, -⟩ := hclient.step hok.1 hok.2 hs
    obtain ⟨hg, hmem⟩ := h.heap_finds hbytes heffect hk hshows
    have hregion : region client.heap = region s.client.heap := by rw [region, region, hstart, hend]
    have hroom' : client.heap.startAddress.toNat + 13 ≤ client.heap.endAddress.toNat := by rwa [hstart, hend]
    exact ⟨⟨hg, hregion.subset.trans h.region_live, hroom', hshows, nodes',
      hclient'.seeing hroom' fun a ha => hmem a (hregion.subset ha)⟩, hstart, hend⟩
  | @page c p mem hs hshows =>
    obtain ⟨hlive, hmem⟩ := h.page_finds hok hs hshows
    exact ⟨⟨h.guarded.step hok.1 hs, hlive, hroom, hshows, nodes, hclient.seeing hroom hmem⟩, rfl, rfl⟩

/-- **No page fault**: a call on the heap that fits and does not merge can be made through the page tables. -/
theorem Inv.proceeds (h : Inv util pages s) {c : HeapCall} (hok : s.Careful util (.heap c)) {client : HeapClient}
    (hs : HeapClient.Step s.client c client) : ∃ t, Step util s (.heap c) t := by
  obtain ⟨nodes, hclient⟩ := h.client
  have houtside : ∀ a ∉ region s.client.heap, client.heap.mem a = s.client.heap.mem a := fun a ha =>
    hclient.changes_region hok.1 hok.2 hs ha
  obtain ⟨bytes, hbytes, heffect⟩ := exists_bytes houtside
  obtain ⟨k, hk, -⟩ := h.guarded.storeBytes bytes fun p hp => h.region_live (hbytes p hp)
  obtain ⟨mem, hshows⟩ := exists_shows k
  exact ⟨_, .heap hs hbytes heffect hk hshows⟩

/-! ### `Init` -/

/-- `Init` on the pages of `s`: its stores are made where the page tables say, too. -/
inductive Starts (util : MemoryUtil) (s : PageClient) (sizeBytes : SizeT) : HeapSystem → Prop
  /-- It succeeds. -/
  | init {mem mem' : Foundations.Memory} {heap : Heap} {k k' : Kernel} {bytes : List (VirtualAddress × BitVec 8)} :
      Heap.init util s.kernel mem sizeBytes = (some heap, k) → Shows k mem → (∀ p ∈ bytes, p.1 ∈ region heap) →
      storeBytes mem bytes = heap.mem → k.storeBytes bytes = some k' → Shows k' mem' →
      Starts util s sizeBytes ⟨HeapClient.seeing ⟨heap, []⟩ mem', ⟨k', s.live ∪ region heap⟩⟩

/-- The pages that `Init` asks for. -/
def pageCount (sizeBytes : SizeT) : SizeT := alignDown sizeBytes 4096#32 / 4096#32

/-- What `Init` makes when it succeeds. -/
theorem init_eq {k k' : Kernel} {mem : Foundations.Memory} {sizeBytes : SizeT} {heap : Heap}
    (hinit : Heap.init util k mem sizeBytes = (some heap, k')) :
    (VirtualMemoryAllocator.allocatePages util k (pageCount sizeBytes)).1 ≠ 0#32 ∧
      k' = (VirtualMemoryAllocator.allocatePages util k (pageCount sizeBytes)).2 ∧
      heap.startAddress = (VirtualMemoryAllocator.allocatePages util k (pageCount sizeBytes)).1 ∧
      heap.endAddress = heap.startAddress + alignDown sizeBytes 4096#32 ∧
      heap.mem = memset mem heap.startAddress 0#8 sizeOf.toNat := by
  unfold Heap.init at hinit
  rw [k.vma.pageSize_eq] at hinit
  split at hinit
  · simp at hinit
  simp only at hinit
  change (if (VirtualMemoryAllocator.allocatePages util k (pageCount sizeBytes)).1 = 0#32 then _ else _) = _ at hinit
  split at hinit
  · simp at hinit
  rename_i hne
  simp only [Prod.mk.injEq, Option.some.injEq] at hinit
  obtain ⟨rfl, rfl⟩ := hinit
  exact ⟨hne, rfl, rfl, rfl, rfl⟩

/-- It succeeds whatever is in memory. -/
theorem init_seeing {k k' : Kernel} {mem : Foundations.Memory} {sizeBytes : SizeT} {heap : Heap}
    (hinit : Heap.init util k mem sizeBytes = (some heap, k')) (mem₁ : Foundations.Memory) :
    Heap.init util k mem₁ sizeBytes = (some { heap with mem := memset mem₁ heap.startAddress 0#8 sizeOf.toNat }, k') := by
  unfold Heap.init at hinit ⊢
  split at hinit
  · simp at hinit
  rename_i hne
  simp only at hinit
  split at hinit
  · simp at hinit
  rename_i hv
  simp only [Prod.mk.injEq, Option.some.injEq] at hinit
  obtain ⟨rfl, rfl⟩ := hinit
  rw [if_neg hne]
  simp only
  rw [if_neg hv]

/-- The region that it gets. -/
theorem region_of_init {k k' : Kernel} {mem : Foundations.Memory} {sizeBytes : SizeT} {heap : Heap}
    (hinit : Heap.init util k mem sizeBytes = (some heap, k')) (hlt : heap.startAddress < heap.endAddress) :
    region heap = Span heap.startAddress (4096 * (pageCount sizeBytes).toNat) ∧
      heap.startAddress.toNat + 4096 ≤ heap.endAddress.toNat := by
  obtain ⟨-, -, -, hend, -⟩ := init_eq hinit
  have hdown := alignDown_page sizeBytes
  have hcount : (pageCount sizeBytes).toNat = (alignDown sizeBytes 4096#32).toNat / 4096 := by
    rw [pageCount, BitVec.toNat_udiv]
    rfl
  rw [BitVec.lt_def] at hlt
  -- so the end has not wrapped
  have hsum : heap.endAddress.toNat = heap.startAddress.toNat + (alignDown sizeBytes 4096#32).toNat := by
    rw [hend, BitVec.toNat_add] at hlt ⊢
    omega
  refine ⟨?_, by omega⟩
  ext a
  have hlast := heap.endAddress.isLt
  rw [mem_span_iff (by omega), show 4096 * (pageCount sizeBytes).toNat = (alignDown sizeBytes 4096#32).toNat by omega,
    ← hsum]
  rfl

/-- `Init` leaves the heap in order, with no blocks. -/
theorem inv_of_starts {s : PageClient} (h : PageClient.Guarded util pages s) {sizeBytes : SizeT}
    (hs : s.kernel.pmm.Searchable (pageCount sizeBytes)) (ht : Starts util s sizeBytes t)
    (hlt : t.client.heap.startAddress < t.client.heap.endAddress) : Inv util pages t := by
  cases ht with
  | @init mem mem' heap k k' bytes hinit hshows hbytes heffect hk hshows' =>
    obtain ⟨hv, rfl, hstart, -, -⟩ := init_eq hinit
    obtain ⟨hregion, hroom⟩ := region_of_init hinit hlt
    have hg := h.allocatePages hs
    rw [PageClient.liveAfter, if_neg hv, ← hstart, ← hregion] at hg
    have hlive : region heap ⊆ s.live ∪ region heap := Set.subset_union_right
    obtain ⟨k'', hk'', hg', -, hback⟩ := hg.storeBytes bytes fun p hp => hlive (hbytes p hp)
    obtain rfl := Option.some.inj (hk.symm.trans hk'')
    have hmem : ∀ a ∈ region heap, mem' a = heap.mem a := by
      intro a ha
      rw [← heffect]
      exact eq_of_backs (hback _ hlive _ (backs_of_shows hg hlive hshows)) hshows' ha
    have hroom' : heap.startAddress.toNat + 13 ≤ heap.endAddress.toNat := by omega
    exact ⟨hg', hlive, hroom', hshows', [], (HeapClient.inv_init hinit).seeing hroom' hmem⟩

/-- Nor does `Init` meet a page fault. -/
theorem exists_starts {s : PageClient} (h : PageClient.Guarded util pages s) {sizeBytes : SizeT}
    (hs : s.kernel.pmm.Searchable (pageCount sizeBytes)) {mem : Foundations.Memory} {heap : Heap} {k : Kernel}
    (hinit : Heap.init util s.kernel mem sizeBytes = (some heap, k)) (hlt : heap.startAddress < heap.endAddress) :
    ∃ t, Starts util s sizeBytes t ∧ t.client.live = [] ∧ t.client.heap.startAddress = heap.startAddress ∧
      t.client.heap.endAddress = heap.endAddress ∧ t.client.heap.currentAddress = heap.currentAddress := by
  obtain ⟨hv, rfl, hstart, -, -⟩ := init_eq hinit
  obtain ⟨hregion, hroom⟩ := region_of_init hinit hlt
  have hg := h.allocatePages hs
  rw [PageClient.liveAfter, if_neg hv, ← hstart, ← hregion] at hg
  obtain ⟨mem₁, hshows⟩ := exists_shows (VirtualMemoryAllocator.allocatePages util s.kernel (pageCount sizeBytes)).2
  have hheader : ∀ a ∉ region heap, memset mem₁ heap.startAddress 0#8 sizeOf.toNat a = mem₁ a := by
    intro a ha
    refine (memset_apply (by decide) mem₁ a).2 fun hin => ha ?_
    have hlast := heap.endAddress.isLt
    rw [show sizeOf.toNat = 13 from rfl, mem_span_iff (by omega)] at hin
    exact ⟨hin.1, by omega⟩
  obtain ⟨bytes, hbytes, heffect⟩ := exists_bytes hheader
  obtain ⟨k', hk', -⟩ := hg.storeBytes bytes fun p hp => .inr (hbytes p hp)
  obtain ⟨mem', hshows'⟩ := exists_shows k'
  exact ⟨_, .init (init_seeing hinit mem₁) hshows hbytes heffect hk' hshows', rfl, rfl, rfl, rfl⟩

/-- Which region it gets does not depend on what is in memory. -/
theorem Starts.registers {s : PageClient} {sizeBytes : SizeT} (ht : Starts util s sizeBytes t) {mem : Foundations.Memory}
    {heap : Heap} {k : Kernel} (hinit : Heap.init util s.kernel mem sizeBytes = (some heap, k)) :
    t.client.heap.startAddress = heap.startAddress ∧ t.client.heap.endAddress = heap.endAddress := by
  cases ht with
  | @init mem₁ _ heap₁ _ _ _ hinit₁ =>
    have hsame := (init_seeing hinit mem₁).symm.trans hinit₁
    obtain ⟨rfl, -⟩ := Prod.mk.inj hsame |>.imp_left Option.some.inj
    exact ⟨rfl, rfl⟩

/-- Live allocations lie in the region, apart from each other and from all their headers. -/
theorem Inv.apart (h : Inv util pages s) : s.client.live.Pairwise (fun x y => Disjoint (payload x) (payload y)) ∧
    ∀ x ∈ s.client.live, payload x ⊆ region s.client.heap ∧ ∀ y ∈ s.client.live, Disjoint (payload x) (header y) := by
  obtain ⟨nodes, hclient⟩ := h.client
  refine ⟨hclient.once.imp_of_mem fun hx hy hne => hclient.payload_apart hx hy hne,
    fun x hx => ⟨hclient.payload_region hx, fun y hy => ?_⟩⟩
  obtain ⟨w, hw, hp, -, -⟩ := hclient.live y hy
  rw [header, hp, BitVec.add_sub_cancel]
  exact hclient.payload_header hx hw

/-- In every state of a run. -/
theorem Inv.runs (h : Inv util pages s) (hrun : RunsWhere (Step util) (Careful util) s t) :
    Inv util pages t ∧ t.client.heap.startAddress = s.client.heap.startAddress ∧
      t.client.heap.endAddress = s.client.heap.endAddress := by
  refine hrun.invariant (P := fun u => Inv util pages u ∧ u.client.heap.startAddress = s.client.heap.startAddress ∧
    u.client.heap.endAddress = s.client.heap.endAddress) ?_ ⟨h, rfl, rfl⟩
  rintro u c w ⟨hu, hstart, hend⟩ hok hstep
  obtain ⟨hw, hstart', hend'⟩ := hu.step hok hstep
  exact ⟨hw, hstart'.trans hstart, hend'.trans hend⟩

/-- Nothing happens to the byte: it is not written, what it is part of is not freed, and it is not stored to from outside. -/
def Spares (a : VirtualAddress) : SystemCall → Prop
  | .heap (.allocate _) => True
  | .heap (.free p n) => a ∉ payload (p, n)
  | .heap (.write b _) => b ≠ a
  | .page _ => True

/-- A byte of an allocation to which nothing happens is kept. -/
theorem Inv.kept (h : Inv util pages s) {c : SystemCall} (hok : s.Careful util c) (hstep : Step util s c t)
    {a : VirtualAddress} (hspares : Spares a c) (ha : ∃ x ∈ s.client.live, a ∈ payload x) :
    (∃ x ∈ t.client.live, a ∈ payload x) ∧ t.client.heap.mem a = s.client.heap.mem a := by
  obtain ⟨nodes, hclient⟩ := h.client
  obtain ⟨x, hx, hax⟩ := ha
  have hregion := hclient.payload_region hx hax
  cases hstep with
  | @page c p mem hs hshows => exact ⟨⟨x, hx, hax⟩, (h.page_finds hok hs hshows).2 a hregion⟩
  | @heap c client bytes k mem hs hbytes heffect hk hshows =>
    obtain ⟨-, -, -, huntouched⟩ := hclient.step hok.1 hok.2 hs
    have hfinds := (h.heap_finds hbytes heffect hk hshows).2 a hregion
    refine ⟨?_, hfinds.trans ?_⟩
    all_goals rw [HeapClient.Step, HeapClient.step.eq_def] at hs
    · cases c with
      | allocate n =>
        simp only at hs
        split at hs
        · cases hs
        · cases hs
          refine ⟨x, ?_, hax⟩
          simp only [HeapClient.seeing]
          split
          · exact hx
          · exact List.mem_cons_of_mem _ hx
      | free p n =>
        simp only at hs
        split at hs
        · cases hs
          refine ⟨x, (List.mem_erase_of_ne ?_).mpr hx, hax⟩
          rintro rfl
          exact hspares hax
        · cases hs
      | write b value =>
        simp only at hs
        split at hs
        · cases hs
          exact ⟨x, hx, hax⟩
        · cases hs
    · cases c with
      | allocate n => exact huntouched x hx a hax
      | free p n => exact huntouched x hx a hax
      | write b value =>
        simp only at hs
        split at hs
        · cases hs
          exact Memory.store8_of_ne (Ne.symm hspares)
        · cases hs

/-- Over a run. -/
theorem Inv.kept_of_runs (h : Inv util pages s) {a : VirtualAddress}
    (hrun : RunsWhere (Step util) (fun s c => s.Careful util c ∧ Spares a c) s t)
    (ha : ∃ x ∈ s.client.live, a ∈ payload x) :
    Inv util pages t ∧ (∃ x ∈ t.client.live, a ∈ payload x) ∧ t.client.heap.mem a = s.client.heap.mem a := by
  refine hrun.invariant (P := fun u => Inv util pages u ∧ (∃ x ∈ u.client.live, a ∈ payload x) ∧
    u.client.heap.mem a = s.client.heap.mem a) ?_ ⟨h, ha, rfl⟩
  rintro u c w ⟨hu, hin, hsame⟩ ⟨hok, hspares⟩ hstep
  obtain ⟨hin', hsame'⟩ := hu.kept hok hstep hspares hin
  exact ⟨(hu.step hok hstep).1, hin', hsame'.trans hsame⟩

/-- A byte that has been written. -/
theorem Inv.written (h : Inv util pages s) {a : VirtualAddress} {b : BitVec 8} (hstep : Step util s (.heap (.write a b)) t) :
    Inv util pages t ∧ (∃ x ∈ t.client.live, a ∈ payload x) ∧ t.client.heap.mem a = b := by
  refine ⟨(h.step (c := .heap (.write a b)) ⟨trivial, trivial⟩ hstep).1, ?_⟩
  obtain ⟨nodes, hclient⟩ := h.client
  cases hstep with
  | @heap _ client bytes k mem hs hbytes heffect hk hshows =>
    obtain ⟨⟨x, hx, hax⟩, rfl⟩ := hs.of_write
    refine ⟨⟨x, hx, hax⟩, ?_⟩
    exact ((h.heap_finds hbytes heffect hk hshows).2 a (hclient.payload_region hx hax)).trans (Memory.store8_self ..)

end HeapSystem

/-! ### What clients rely on -/

/-- **What was written to the heap is read**: in any such run, a byte that was written to a live allocation is found there
through the page tables, after any further steps that do not write it, free what it is part of, or store to the region from
outside. -/
theorem heap_bytes_stay (bootInfo : BootInfo) (bitmap : Bitmap trackedPages) (vmm vmm' : VirtualMemoryManager)
    (m m' : Machine) (imageSize : ℕ) (h : InImage (MemoryUtil.init bootInfo) vmm imageSize)
    (hok : initVirtualMemoryManager (MemoryUtil.init bootInfo) vmm bootInfo m = (true, vmm', m'))
    (htables : TablesReserved bootInfo vmm') (s : PageClient)
    (hrun : RunsWhere (PageClient.DataStep (MemoryUtil.init bootInfo)) PageClient.Careful
      (startClient bootInfo bitmap vmm' m') s) (sizeBytes : SizeT)
    (hsearch : s.kernel.pmm.Searchable (HeapSystem.pageCount sizeBytes)) (s₀ : HeapSystem)
    (hinit : HeapSystem.Starts (MemoryUtil.init bootInfo) s sizeBytes s₀)
    (hlt : s₀.client.heap.startAddress < s₀.client.heap.endAddress) (t u w : HeapSystem)
    (hcalls : RunsWhere (HeapSystem.Step (MemoryUtil.init bootInfo)) (HeapSystem.Careful (MemoryUtil.init bootInfo)) s₀ t)
    (a : VirtualAddress) (b : BitVec 8) (hwrite : HeapSystem.Step (MemoryUtil.init bootInfo) t (.heap (.write a b)) u)
    (hrest : RunsWhere (HeapSystem.Step (MemoryUtil.init bootInfo))
      (fun s c => s.Careful (MemoryUtil.init bootInfo) c ∧ HeapSystem.Spares a c) u w) :
    ∃ x, w.pages.kernel.physicalAddress a = some x ∧ w.pages.kernel.machine.mem x = b := by
  have hs := (PageClient.guarded_start h hok htables bitmap).runs hrun
  obtain ⟨ht, -, -⟩ := (HeapSystem.inv_of_starts hs hsearch hinit hlt).runs hcalls
  obtain ⟨hu, hin, hval⟩ := ht.written hwrite
  obtain ⟨hw, hin', hval'⟩ := hu.kept_of_runs hrest hin
  obtain ⟨nodes, hclient⟩ := hw.client
  obtain ⟨y, hy, hay⟩ := hin'
  obtain ⟨x, hx⟩ := hw.guarded.exists_place (hw.region_live (hclient.payload_region hy hay))
  exact ⟨x, hx, (hw.shows a x hx).symm.trans (hval'.trans hval)⟩

/-! ### The machine with 512 MB -/

/-- `Init` on the 247 pages between the two images, and an allocation. -/
theorem exists_heap512 :
    ∃ vmm' m' s₀ t p, initVirtualMemoryManager (MemoryUtil.init bootInfo512) vmm512 bootInfo512
        ⟨fun _ => 0#8, 0#32, []⟩ = (true, vmm', m') ∧ TablesReserved bootInfo512 vmm' ∧
      (startClient bootInfo512 Bitmap.resetAll vmm' m').kernel.pmm.Searchable (HeapSystem.pageCount 0xF7000#32) ∧
      HeapSystem.Starts (MemoryUtil.init bootInfo512) (startClient bootInfo512 Bitmap.resetAll vmm' m') 0xF7000#32 s₀ ∧
      s₀.client.heap.startAddress < s₀.client.heap.endAddress ∧
      RunsWhere (HeapSystem.Step (MemoryUtil.init bootInfo512)) (HeapSystem.Careful (MemoryUtil.init bootInfo512)) s₀ t ∧
      t.client.live = [(p, 16#32)] := by
  obtain ⟨vmm', m', s, hok, htables, hs, hlive, hsearch, halloc, -⟩ := exists_start512
  have hguarded := PageClient.guarded_start inImage_vmm512 hok htables Bitmap.resetAll
  rw [← hs] at hguarded
  -- `Init` asks for the 247 pages
  have hcount : HeapSystem.pageCount 0xF7000#32 = 247#32 := by decide
  obtain ⟨heap, k, hheap, hstart, hend, hcurrent⟩ : ∃ heap k, Heap.init (MemoryUtil.init bootInfo512) s.kernel
      (fun _ => 0#8) 0xF7000#32 = (some heap, k) ∧ heap.startAddress = 0xC1000000#32 ∧
        heap.endAddress = 0xC10F7000#32 ∧ heap.currentAddress = 0xC1000000#32 := by
    have hpages : alignDown 0xF7000#32 s.kernel.vma.pageSize = 0xF7000#32 ∧ 0xF7000#32 / s.kernel.vma.pageSize = 247#32 := by
      rw [s.kernel.vma.pageSize_eq]
      decide
    rw [Heap.init, if_neg (by decide)]
    simp only [hpages.1, hpages.2, halloc]
    exact ⟨_, _, rfl, rfl, by decide, rfl⟩
  rw [← hcount] at hsearch
  obtain ⟨s₀, hinit, hnone, hstart₀, hend₀, hcurrent₀⟩ :=
    HeapSystem.exists_starts hguarded hsearch hheap (by rw [hstart, hend]; decide)
  rw [hstart] at hstart₀
  rw [hend] at hend₀
  rw [hcurrent] at hcurrent₀
  have hlt : s₀.client.heap.startAddress < s₀.client.heap.endAddress := by rw [hstart₀, hend₀]; decide
  have hinv := HeapSystem.inv_of_starts hguarded hsearch hinit hlt
  obtain ⟨nodes, hclient⟩ := hinv.client
  -- there is room for 16 bytes
  have hroom : RoomAtEnd s₀.client.heap 16#32 := by
    rw [RoomAtEnd, hcurrent₀, hend₀]
    decide
  have hfits : s₀.client.Fits (.allocate 16#32) := .inr (.inr hroom)
  obtain ⟨p, heap', halloc', hp⟩ : ∃ p heap', s₀.client.heap.allocate 16#32 = some (p, heap') ∧ p ≠ 0#32 := by
    have hresult := allocate_result hclient.blocks 16#32
    generalize s₀.client.heap.allocate 16#32 = r at hresult
    cases hresult with
    | zero h0 => exact absurd h0 (by decide)
    | @reused y hy =>
      have hwithin := (hclient.blocks.within hy).2
      have hlast := s₀.client.heap.currentAddress.isLt
      exact ⟨_, _, rfl, add_sizeOf_ne_zero (by omega)⟩
    | appended =>
      rw [RoomAtEnd] at hroom
      have hlast := s₀.client.heap.endAddress.isLt
      exact ⟨_, _, rfl, add_sizeOf_ne_zero (by omega)⟩
  have hstep : HeapClient.Step s₀.client (.allocate 16#32) ⟨heap', [(p, 16#32)]⟩ := by
    rw [HeapClient.Step, HeapClient.step, halloc']
    simp only [if_neg hp, hnone]
  obtain ⟨t, ht⟩ := hinv.proceeds (c := .allocate 16#32) ⟨hfits, trivial⟩ hstep
  have hlive : t.client.live = [(p, 16#32)] := by
    cases ht with
    | heap hs =>
      rw [HeapClient.Step] at hs hstep
      rw [HeapClient.seeing, ← Option.some.inj (hstep.symm.trans hs)]
  refine ⟨vmm', m', s₀, t, p, hok, htables, ?_, ?_, hlt, .single (c := .heap (.allocate 16#32)) ⟨hfits, trivial⟩ ht, hlive⟩
  · rwa [← hs]
  · rwa [← hs]

/-- Its first byte is written, and another allocation is made. -/
theorem heap_bytes_stay_vmm512 :
    ∃ (t w : HeapSystem) (p x : VirtualAddress), t.client.live = [(p, 16#32)] ∧
      Runs (HeapSystem.Step (MemoryUtil.init bootInfo512)) t w ∧ w.pages.kernel.physicalAddress p = some x ∧
      w.pages.kernel.machine.mem x = 7#8 := by
  obtain ⟨vmm', m', s₀, t, p, hok, htables, hsearch, hinit, hlt, hcalls, hlive⟩ := exists_heap512
  have hguarded := PageClient.guarded_start inImage_vmm512 hok htables Bitmap.resetAll
  obtain ⟨hinv, -, -⟩ := (HeapSystem.inv_of_starts hguarded hsearch hinit hlt).runs hcalls
  have hwrite : HeapClient.Step t.client (.write p 7#8)
      ⟨{ t.client.heap with mem := t.client.heap.mem.store8 p 7#8 }, t.client.live⟩ := by
    rw [HeapClient.Step, HeapClient.step, if_pos]
    exact ⟨(p, 16#32), by simp [hlive], by simp⟩
  obtain ⟨u, hu⟩ := hinv.proceeds (c := .write p 7#8) ⟨trivial, trivial⟩ hwrite
  obtain ⟨hinv', -⟩ := hinv.written hu
  have hstays : HeapClient.Step u.client (.allocate 0#32) u.client := rfl
  obtain ⟨w, hw⟩ := hinv'.proceeds (c := .allocate 0#32) ⟨.inl rfl, trivial⟩ hstays
  obtain ⟨x, hx, hmem⟩ := heap_bytes_stay bootInfo512 Bitmap.resetAll vmm512 vmm' _ m' _ inImage_vmm512 hok htables _ .refl
    0xF7000#32 hsearch s₀ hinit hlt t u w hcalls p 7#8 hu
    (.single (c := .heap (.allocate 0#32)) ⟨⟨.inl rfl, trivial⟩, trivial⟩ hw)
  exact ⟨t, w, p, x, hlive, (RunsWhere.single trivial hu).tail trivial hw, hx, hmem⟩

end EagleOS.Memory
