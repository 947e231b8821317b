import Mathlib.Data.List.Pairwise
import EagleOS.Foundations.Run
import EagleOS.Memory.HeapBlocks
import EagleOS.Memory.VirtualMemoryClients

/-!
# Clients of the heap

A client allocates, frees what it holds, each allocation once, and writes to what it holds.

## The model

`HeapClient.step` is what happens at a call; it is `none` where `Allocate` does not return, and for what
a client may not do. `Fits` says of an `Allocate` that there is room for it, `Unmerged` says of a `Free`
that it finds no free neighbour.

## What is proved

* `HeapClient.Inv.step` — the blocks stay in order, and each live allocation has one of them.
* `heap_blocks_apart`, `heap_inside` — what this says about the bytes of the live allocations.
* `heap_blocks_overlap`, `heap_outside` — what happens where `Free` merges, and where there is no room.
-/

namespace EagleOS.Memory

open ESTD Boot Foundations Arch HeapNode

/-- The heap, and what a client holds: addresses with the sizes they were asked for. -/
structure HeapClient where
  /-- The heap. -/
  heap : Heap
  /-- The live allocations. -/
  live : List (VirtualAddress × SizeT)

/-- What a client does. -/
inductive HeapCall where
  /-- `Allocate(sizeBytes)`. -/
  | allocate (sizeBytes : SizeT)
  /-- `Free(address)` of an allocation of `sizeBytes`. -/
  | free (address : VirtualAddress) (sizeBytes : SizeT)
  /-- A byte is written. -/
  | write (address : VirtualAddress) (value : BitVec 8)

/-- The bytes of an allocation. -/
def payload (x : VirtualAddress × SizeT) : Set VirtualAddress := Span x.1 x.2.toNat

/-- The bytes of its header. -/
def header (x : VirtualAddress × SizeT) : Set VirtualAddress := Span (x.1 - sizeOf) 13

/-- The nodes that the walk of `Allocate` comes to. -/
inductive OnWalk (heap : Heap) : VirtualAddress → Prop
  /-- It starts at the first one. -/
  | start : OnWalk heap heap.startAddress
  /-- It goes on by the size of a node. -/
  | next {node : VirtualAddress} : OnWalk heap node → node < heap.currentAddress →
      OnWalk heap (node + (size heap.mem node + sizeOf))

/-- There is room past the last block. -/
def RoomAtEnd (heap : Heap) (n : SizeT) : Prop := heap.currentAddress.toNat + 13 + n.toNat ≤ heap.endAddress.toNat

instance (heap : Heap) (n : SizeT) : Decidable (RoomAtEnd heap n) := inferInstanceAs (Decidable (_ ≤ _))

/-- There is room: a free block that is large enough, or past the last one. -/
def HasRoom (heap : Heap) (n : SizeT) : Prop :=
  (∃ node, OnWalk heap node ∧ node < heap.currentAddress ∧ hasState heap.mem node .free ∧ n ≤ size heap.mem node) ∨
    RoomAtEnd heap n

/-- The walk comes to the blocks, and then to the current address. -/
theorem OnWalk.mem {heap : Heap} {nodes : List VirtualAddress} {y : VirtualAddress} (hw : OnWalk heap y)
    (h : Blocks heap nodes) : y ∈ nodes ∨ y = heap.currentAddress := by
  induction hw with
  | start =>
    have htiles := h.tiles
    cases nodes with
    | nil => exact .inr (BitVec.eq_of_toNat_eq htiles)
    | cons x nodes =>
      rw [← BitVec.eq_of_toNat_eq htiles.1]
      exact .inl List.mem_cons_self
  | @next node _ hlt ih =>
    have hnode : node ∈ nodes := ih.resolve_right fun he => absurd hlt (by rw [he]; exact BitVec.lt_irrefl _)
    have hwithin := (h.within hnode).2
    have hstep : (node + (size heap.mem node + sizeOf)).toNat = node.toNat + extent heap.mem node := by
      rw [extent, BitVec.toNat_add, BitVec.toNat_add, show (sizeOf).toNat = 13 from rfl]
      omega
    rcases h.tiles.next hnode with he | ⟨c, hc, he⟩
    · exact .inr (BitVec.eq_of_toNat_eq (hstep.trans he))
    · rw [← BitVec.eq_of_toNat_eq (he.trans hstep.symm)]
      exact .inl hc

/-- When no block is free and large enough, room is past the last one. -/
theorem HasRoom.atEnd {heap : Heap} {nodes : List VirtualAddress} {n : SizeT} (hroom : HasRoom heap n)
    (h : Blocks heap nodes) (hno : ∀ x ∈ nodes, ¬ (hasState heap.mem x .free ∧ n ≤ size heap.mem x)) : RoomAtEnd heap n := by
  refine hroom.resolve_left ?_
  rintro ⟨node, hwalk, hlt, hfree, hsize⟩
  have hnode : node ∈ nodes := (hwalk.mem h).resolve_right fun he => absurd hlt (by rw [he]; exact BitVec.lt_irrefl _)
  exact hno node hnode ⟨hfree, hsize⟩

namespace HeapClient

/-- What happens at a call. -/
def step (s : HeapClient) : HeapCall → Option HeapClient
  | .allocate n =>
    match s.heap.allocate n with
    | none => none
    | some (p, heap) => some ⟨heap, if p = 0#32 then s.live else (p, n) :: s.live⟩
  | .free p n => if (p, n) ∈ s.live then some ⟨s.heap.free p, s.live.erase (p, n)⟩ else none
  | .write a value =>
    if ∃ x ∈ s.live, (a - x.1).toNat < x.2.toNat then
      some ⟨{ s.heap with mem := s.heap.mem.store8 a value }, s.live⟩
    else none

/-- The calls as a step relation. -/
def Step (s : HeapClient) (c : HeapCall) (t : HeapClient) : Prop := s.step c = some t

/-- What is asked for is nothing, or there is room for it. -/
def Fits (s : HeapClient) : HeapCall → Prop
  | .allocate n => n = 0#32 ∨ HasRoom s.heap n
  | .free _ _ => True
  | .write _ _ => True

/-- What is freed has no free neighbour. -/
def Unmerged (s : HeapClient) : HeapCall → Prop
  | .allocate _ => True
  | .free p _ => NoFreeNeighbour s.heap.mem (p - sizeOf)
  | .write _ _ => True

/-- What holds in every state that a client reaches. -/
structure Inv (s : HeapClient) (nodes : List VirtualAddress) : Prop where
  /-- The heap is a list of blocks. -/
  blocks : Blocks s.heap nodes
  /-- Each live allocation has a reserved block that is large enough. -/
  live : ∀ x ∈ s.live, ∃ y ∈ nodes, x.1 = y + sizeOf ∧ hasState s.heap.mem y .reserved ∧ x.2 ≤ size s.heap.mem y
  /-- No two live allocations have the same. -/
  once : s.live.Pairwise fun x y => x.1 ≠ y.1

variable {s t : HeapClient} {nodes : List VirtualAddress} {x z : VirtualAddress × SizeT} {y : VirtualAddress} {n : SizeT}

/-- What a free does. -/
theorem Step.of_free {p : VirtualAddress} (hs : Step s (.free p n) t) :
    (p, n) ∈ s.live ∧ t = ⟨s.heap.free p, s.live.erase (p, n)⟩ := by
  rw [Step, HeapClient.step] at hs
  split at hs
  · rename_i hlive
    exact ⟨hlive, (Option.some.inj hs).symm⟩
  · cases hs

/-- What a write does. -/
theorem Step.of_write {a : VirtualAddress} {value : BitVec 8} (hs : Step s (.write a value) t) :
    (∃ x ∈ s.live, a ∈ payload x) ∧ t = ⟨{ s.heap with mem := s.heap.mem.store8 a value }, s.live⟩ := by
  rw [Step, HeapClient.step] at hs
  split at hs
  · rename_i hlive
    exact ⟨hlive, (Option.some.inj hs).symm⟩
  · cases hs

/-! ### Live allocations and blocks -/

/-- The payload of a live allocation is apart from every header. -/
theorem Inv.payload_header (h : Inv s nodes) (hx : x ∈ s.live) (hy : y ∈ nodes) : Disjoint (payload x) (Span y 13) := by
  obtain ⟨w, hw, hp, -, hsize⟩ := h.live x hx
  rw [payload, hp]
  exact h.blocks.payload_header hw hy (BitVec.le_def.mp hsize)

/-- The blocks of two live allocations are two blocks. -/
theorem Inv.block_ne (h : Inv s nodes) (hx : x ∈ s.live) (hz : z ∈ s.live) (hne : x ≠ z) : x.1 ≠ z.1 := by
  have : Std.Symm fun x y : VirtualAddress × SizeT => x.1 ≠ y.1 := ⟨fun _ _ hd => hd.symm⟩
  exact h.once.forall hx hz hne

/-- The payloads of two live allocations are apart. -/
theorem Inv.payload_apart (h : Inv s nodes) (hx : x ∈ s.live) (hz : z ∈ s.live) (hne : x.1 ≠ z.1) :
    Disjoint (payload x) (payload z) := by
  obtain ⟨v, hv, hpv, -, hsv⟩ := h.live x hx
  obtain ⟨w, hw, hpw, -, hsw⟩ := h.live z hz
  rw [payload, payload, hpv, hpw]
  refine h.blocks.payload_apart hv hw ?_ (BitVec.le_def.mp hsv) (BitVec.le_def.mp hsw)
  rintro rfl
  exact hne (hpv.trans hpw.symm)

/-- A live allocation lies past the first header, and ends before the current address. -/
theorem Inv.within (h : Inv s nodes) (hx : x ∈ s.live) :
    s.heap.startAddress.toNat + 13 ≤ x.1.toNat ∧ x.1.toNat + x.2.toNat ≤ s.heap.currentAddress.toNat := by
  obtain ⟨y, hy, hp, -, hsize⟩ := h.live x hx
  obtain ⟨hlow, hhigh⟩ := h.blocks.within hy
  rw [BitVec.le_def] at hsize
  rw [hp, BitVec.toNat_add, show (sizeOf).toNat = 13 from rfl]
  omega

/-! ### One call -/

/-- A free block becomes that of a live allocation. -/
theorem Inv.reused (h : Inv s nodes) (hy : y ∈ nodes) (hfree : hasState s.heap.mem y .free) (hn : n ≤ size s.heap.mem y) :
    Inv ⟨{ s.heap with mem := setState s.heap.mem y .reserved }, (y + sizeOf, n) :: s.live⟩ nodes := by
  -- the blocks of the others are reserved already
  have hother : ∀ x ∈ s.live, ∃ w ∈ nodes, w ≠ y ∧ x.1 = w + sizeOf ∧ hasState s.heap.mem w .reserved ∧
      x.2 ≤ size s.heap.mem w := by
    intro x hx
    obtain ⟨w, hw, hp, hstate, hsize⟩ := h.live x hx
    refine ⟨w, hw, ?_, hp, hstate, hsize⟩
    rintro rfl
    exact absurd (HeapState.byte_inj.mp (hstate.symm.trans hfree)) (by decide)
  refine ⟨h.blocks.setState hy .reserved, fun x hx => ?_, List.pairwise_cons.mpr ⟨fun x hx => ?_, h.once⟩⟩
  · rcases List.mem_cons.mp hx with rfl | hx
    · exact ⟨y, hy, rfl, hasState_setState.mpr rfl, by rw [h.blocks.size_setState hy hy]; exact hn⟩
    · obtain ⟨w, hw, hne, hp, hstate, hsize⟩ := hother x hx
      exact ⟨w, hw, hp, (hasState_congr (h.blocks.setState_same hy hw hne .reserved) _).mpr hstate,
        by rw [h.blocks.size_setState hy hw]; exact hsize⟩
  · obtain ⟨w, -, hne, hp, -, -⟩ := hother x hx
    rw [hp]
    exact fun he => hne ((BitVec.add_left_inj _).mp he).symm

/-- A new block becomes that of a live allocation. -/
theorem Inv.appended (h : Inv s nodes) {last : VirtualAddress} (hlast : last ∈ nodes ∨ nodes = [] ∧ last = 0#32)
    (hroom : RoomAtEnd s.heap n) : Inv ⟨appended s.heap last n, (s.heap.currentAddress + sizeOf, n) :: s.live⟩
      (nodes ++ [s.heap.currentAddress]) := by
  have hend : s.heap.currentAddress.toNat + 13 ≤ 2 ^ 32 := by rw [RoomAtEnd] at hroom; omega
  obtain ⟨hsize, hstate, -, -⟩ := appendNode_self s.heap.mem n (h.blocks.end_apart_last hlast hend)
  refine ⟨h.blocks.append hlast hroom, fun x hx => ?_, List.pairwise_cons.mpr ⟨fun x hx he => ?_, h.once⟩⟩
  · rcases List.mem_cons.mp hx with rfl | hx
    · exact ⟨_, List.mem_append_right _ List.mem_cons_self, rfl, hstate, by rw [Memory.appended, hsize]; exact BitVec.le_refl _⟩
    · obtain ⟨w, hw, hp, hs, hle⟩ := h.live x hx
      obtain ⟨hsize', hstate', -, -⟩ := h.blocks.append_other hlast hend n hw
      exact ⟨w, List.mem_append_left _ hw, hp, (hstate' _).mpr hs, by rw [hsize']; exact hle⟩
  · -- a block that ends before the current address does not start there
    obtain ⟨w, hw, hp, -, -⟩ := h.live x hx
    have hw' : s.heap.currentAddress = w := (BitVec.add_left_inj _).mp (he.trans hp)
    have := (h.blocks.within hw).2
    rw [← hw'] at this
    omega

/-- `Allocate` returns; when there is room, the blocks stay in order, what is live stays as it is, and the
heap is as it was when the result is null. -/
theorem Inv.allocate (h : Inv s nodes) (hfits : s.Fits (.allocate n)) : ∃ p heap, s.heap.allocate n = some (p, heap) ∧
    (p = 0#32 → heap = s.heap) ∧ (∃ nodes', Inv ⟨heap, if p = 0#32 then s.live else (p, n) :: s.live⟩ nodes') ∧
    heap.startAddress = s.heap.startAddress ∧ heap.endAddress = s.heap.endAddress ∧
    ∀ x ∈ s.live, ∀ a ∈ payload x, heap.mem a = s.heap.mem a := by
  have hresult := allocate_result h.blocks n
  generalize s.heap.allocate n = r at hresult
  cases hresult with
  | zero => exact ⟨_, _, rfl, fun _ => rfl, ⟨nodes, by rw [if_pos rfl]; exact h⟩, rfl, rfl, fun _ _ _ _ => rfl⟩
  | @reused y hy hfree hn =>
    have hlt := s.heap.currentAddress.isLt
    have hwithin := (h.blocks.within hy).2
    have hp := add_sizeOf_ne_zero (w := y) (by omega)
    refine ⟨_, _, rfl, fun h0 => absurd h0 hp, ⟨nodes, ?_⟩, rfl, rfl, fun x hx a ha => ?_⟩
    · rw [if_neg hp]
      exact h.reused hy hfree hn
    · exact setState_of_notMem (Set.disjoint_left.mp (h.payload_header hx hy) ha)
  | @appended last hn hno hlast =>
    have hend := (hfits.resolve_left hn).atEnd h.blocks hno
    have hbound : s.heap.currentAddress.toNat + 13 ≤ 2 ^ 32 := by rw [RoomAtEnd] at hend; omega
    have hp := add_sizeOf_ne_zero (w := s.heap.currentAddress) (by rw [RoomAtEnd] at hend; omega)
    refine ⟨_, _, rfl, fun h0 => absurd h0 hp, ⟨nodes ++ [s.heap.currentAddress], ?_⟩, rfl, rfl, fun x hx a ha => ?_⟩
    · rw [if_neg hp]
      exact h.appended hlast hend
    · obtain ⟨w, hw, hpw, -, hsize⟩ := h.live x hx
      rw [BitVec.le_def] at hsize
      rw [payload, hpw] at ha
      refine appendNode_of_notMem (fun hin => ?_) fun h0 hin => ?_
      · exact Set.disjoint_left.mp (h.blocks.apart_end hw hbound) ((h.blocks.payload_subset hw hsize).1 ha) hin
      · have hin' : last ∈ nodes := hlast.resolve_right fun hl => h0 hl.2
        exact Set.disjoint_left.mp (h.blocks.payload_header hw hin' hsize) ha hin

/-- `Free` of what is live and has no free neighbour changes one byte, that of the state. -/
theorem Inv.free (h : Inv s nodes) (hx : x ∈ s.live) (hno : NoFreeNeighbour s.heap.mem (x.1 - sizeOf)) :
    Inv ⟨s.heap.free x.1, s.live.erase x⟩ nodes ∧ (s.heap.free x.1).startAddress = s.heap.startAddress ∧
      (s.heap.free x.1).endAddress = s.heap.endAddress ∧
      ∀ z ∈ s.live, ∀ a ∈ payload z, (s.heap.free x.1).mem a = s.heap.mem a := by
  obtain ⟨y, hy, hp, hstate, -⟩ := h.live x hx
  rw [hp, BitVec.add_sub_cancel] at hno
  rw [hp, free_result h.blocks hy hstate hno]
  have hnodup : s.live.Nodup := h.once.imp fun hne he => hne (congrArg Prod.fst he)
  refine ⟨⟨h.blocks.setState hy .free, fun z hz => ?_, h.once.sublist List.erase_sublist⟩, rfl, rfl, fun z hz a ha => ?_⟩
  · obtain ⟨hne, hz'⟩ := hnodup.mem_erase_iff.mp hz
    obtain ⟨w, hw, hpw, hs, hsize⟩ := h.live z hz'
    have hwy : w ≠ y := by
      rintro rfl
      exact h.block_ne hz' hx hne (hpw.trans hp.symm)
    exact ⟨w, hw, hpw, (hasState_congr (h.blocks.setState_same hy hw hwy .free) _).mpr hs,
      by rw [h.blocks.size_setState hy hw]; exact hsize⟩
  · exact setState_of_notMem (Set.disjoint_left.mp (h.payload_header hz hy) ha)

/-- A write to what is live changes no header. -/
theorem Inv.write (h : Inv s nodes) (hx : x ∈ s.live) {a : VirtualAddress} (ha : a ∈ payload x) (value : BitVec 8) :
    Inv ⟨{ s.heap with mem := s.heap.mem.store8 a value }, s.live⟩ nodes := by
  have hsame : ∀ y ∈ nodes, ∀ b ∈ Span y 13, s.heap.mem.store8 a value b = s.heap.mem b := fun y hy b hb =>
    Memory.store8_of_ne fun e => Set.disjoint_left.mp (h.payload_header hx hy) ha (e ▸ hb)
  have hsize : ∀ y ∈ nodes, size (s.heap.mem.store8 a value) y = size s.heap.mem y := fun y hy => size_congr (hsame y hy)
  refine ⟨h.blocks.congr hsize (fun y hy => ⟨next_congr (hsame y hy), prev_congr (hsame y hy)⟩)
    fun hnil => ?_, fun z hz => ?_, h.once⟩
  · obtain ⟨y, hy, -⟩ := h.live x hx
    exact absurd hy (by rw [hnil]; exact List.not_mem_nil)
  · obtain ⟨w, hw, hp, hs, hle⟩ := h.live z hz
    exact ⟨w, hw, hp, (hasState_congr (hsame w hw) _).mpr hs, by rw [hsize w hw]; exact hle⟩

/-- What `Allocate` and `Free` do not write to. -/
def Untouched (s : HeapClient) (c : HeapCall) (t : HeapClient) : Prop :=
  match c with
  | .write _ _ => True
  | _ => ∀ x ∈ s.live, ∀ a ∈ payload x, t.heap.mem a = s.heap.mem a

/-- One call that fits and does not merge. -/
theorem Inv.step (h : Inv s nodes) {c : HeapCall} (hfits : s.Fits c) (hun : s.Unmerged c) (hs : Step s c t) :
    (∃ nodes', Inv t nodes') ∧ t.heap.startAddress = s.heap.startAddress ∧ t.heap.endAddress = s.heap.endAddress ∧
      Untouched s c t := by
  cases c with
  | allocate n =>
    rw [Step, HeapClient.step] at hs
    obtain ⟨p, heap, halloc, -, hinv, hstart, hend, hmem⟩ := h.allocate hfits
    rw [halloc] at hs
    cases hs
    exact ⟨hinv, hstart, hend, hmem⟩
  | free p n =>
    obtain ⟨hlive, rfl⟩ := hs.of_free
    obtain ⟨hinv, hstart, hend, hmem⟩ := h.free hlive hun
    exact ⟨⟨nodes, hinv⟩, hstart, hend, hmem⟩
  | write a value =>
    obtain ⟨⟨x, hx, ha⟩, rfl⟩ := hs.of_write
    exact ⟨⟨nodes, h.write hx ha value⟩, rfl, rfl, trivial⟩

/-! ### After `Init` -/

/-- After `Init` there are no blocks. -/
theorem inv_init {util : MemoryUtil} {k k' : Kernel} {mem : Foundations.Memory} {sizeBytes : SizeT} {heap : Heap}
    (hinit : Heap.init util k mem sizeBytes = (some heap, k')) : Inv ⟨heap, []⟩ [] := by
  rw [Heap.init] at hinit
  split at hinit
  · simp at hinit
  · simp only at hinit
    split at hinit
    · simp at hinit
    · rw [Prod.mk.injEq, Option.some.injEq] at hinit
      obtain ⟨rfl, -⟩ := hinit
      refine ⟨⟨rfl, fun x hx => absurd hx List.not_mem_nil, fun _ => ?_, fun hne => absurd rfl hne⟩,
        fun x hx => absurd hx List.not_mem_nil, .nil⟩
      exact field_memset_zero (by decide) mem _

/-- What holds in every state of a run whose calls fit and do not merge. -/
theorem inv_of_runs {heap : Heap} (h0 : Inv ⟨heap, []⟩ [])
    (hrun : RunsWhere Step (fun s c => s.Fits c ∧ s.Unmerged c) ⟨heap, []⟩ s) :
    (∃ nodes, Inv s nodes) ∧ s.heap.startAddress = heap.startAddress ∧ s.heap.endAddress = heap.endAddress := by
  refine hrun.invariant (P := fun s => (∃ nodes, Inv s nodes) ∧ s.heap.startAddress = heap.startAddress ∧
    s.heap.endAddress = heap.endAddress) ?_ ⟨⟨[], h0⟩, rfl, rfl⟩
  rintro s c t ⟨⟨nodes, hinv⟩, hstart, hend⟩ ⟨hfits, hun⟩ hstep
  obtain ⟨hinv', hstart', hend', -⟩ := hinv.step hfits hun hstep
  exact ⟨hinv', hstart'.trans hstart, hend'.trans hend⟩

/-! ### A heap of one page -/

/-- A heap of one page at `0xC1000000`. -/
def heap4096 : Heap where
  memorySizeBytes := 4096#32
  startAddress := 0xC1000000#32
  endAddress := 0xC1001000#32
  currentAddress := 0xC1000000#32
  mem := memset (fun _ => 0#8) 0xC1000000#32 0#8 13

/-- It is what `Init` makes on the machine with 512 MB, once the kernel has started. -/
theorem exists_start_heap4096 :
    ∃ vmm' m' k', initVirtualMemoryManager (MemoryUtil.init bootInfo512) vmm512 bootInfo512
        ⟨fun _ => 0#8, 0#32, []⟩ = (true, vmm', m') ∧
      Heap.init (MemoryUtil.init bootInfo512)
        ⟨m', vmm', Client.freshAtOneMB, (initVirtualMemoryAllocator bootInfo512).2⟩ (fun _ => 0#8) 4096#32 =
          (some heap4096, k') := by
  obtain ⟨vmm', m', hok, halloc, -⟩ := VirtualClient.exists_start_vmm512 (n := 1#32) (by decide) (by decide)
  refine ⟨vmm', m', (VirtualMemoryAllocator.allocatePages (MemoryUtil.init bootInfo512)
    ⟨m', vmm', Client.freshAtOneMB, (initVirtualMemoryAllocator bootInfo512).2⟩ 1#32).2, hok, ?_⟩
  generalize (⟨m', vmm', Client.freshAtOneMB, (initVirtualMemoryAllocator bootInfo512).2⟩ : Kernel) = k at halloc ⊢
  have hpages : alignDown 4096#32 k.vma.pageSize = 4096#32 ∧ 4096#32 / k.vma.pageSize = 1#32 := by
    rw [k.vma.pageSize_eq]
    decide
  rw [Heap.init, if_neg (by decide)]
  simp only [hpages.1, hpages.2]
  rw [halloc]
  rfl

theorem exists_init_heap4096 :
    ∃ k k', Heap.init (MemoryUtil.init bootInfo512) k (fun _ => 0#8) 4096#32 = (some heap4096, k') := by
  obtain ⟨vmm', m', k', -, hinit⟩ := exists_start_heap4096
  exact ⟨_, k', hinit⟩

/-- Room past the last block, for what is allocated. -/
def RoomFor (s : HeapClient) : HeapCall → Prop
  | .allocate n => RoomAtEnd s.heap n
  | .free _ _ => True
  | .write _ _ => True

instance (s : HeapClient) : (c : HeapCall) → Decidable (s.RoomFor c)
  | .allocate n => inferInstanceAs (Decidable (RoomAtEnd s.heap n))
  | .free _ _ => .isTrue trivial
  | .write _ _ => .isTrue trivial

instance (s : HeapClient) : (c : HeapCall) → Decidable (s.Unmerged c)
  | .allocate _ => .isTrue trivial
  | .free p _ => inferInstanceAs (Decidable (NoFreeNeighbour s.heap.mem (p - sizeOf)))
  | .write _ _ => .isTrue trivial

theorem RoomFor.fits {c : HeapCall} (h : s.RoomFor c) : s.Fits c := by
  cases c with
  | allocate n => exact .inr (.inr h)
  | free => trivial
  | write => trivial

/-- A run on the heap of one page that was computed, and what it has led to. -/
theorem exists_run_of {α : Type} (f : HeapClient → α) (calls : List HeapCall) {r : α}
    (hcalls : (List.foldlM (fun s c => if decide (RoomFor s c ∧ Unmerged s c) then step s c else none) ⟨heap4096, []⟩ calls).map f =
      some r) : ∃ s, RunsWhere Step (fun s c => s.Fits c ∧ s.Unmerged c) ⟨heap4096, []⟩ s ∧ f s = r := by
  obtain ⟨s, hs, hr⟩ := Option.map_eq_some_iff.mp hcalls
  exact ⟨s, runsWhere_of_foldlM (fun s c hc => (decide_eq_true_eq.mp hc).imp_left RoomFor.fits) _ hs, hr⟩

/-- A block is freed and allocated again. -/
theorem exists_run_heap4096 :
    ∃ s, RunsWhere Step (fun s c => s.Fits c ∧ s.Unmerged c) ⟨heap4096, []⟩ s ∧
      s.live = [(0xC100000D#32, 10#32), (0xC100002E#32, 30#32)] :=
  exists_run_of live [.allocate 20#32, .allocate 30#32, .write 0xC100000D#32 0xFF#8, .free 0xC100000D#32 20#32, .allocate 10#32]
    (by decide +kernel)

/-! ### What a client relies on -/

section

variable {util : MemoryUtil} {k k' : Kernel} {mem : Foundations.Memory} {sizeBytes : SizeT} {heap : Heap}

/-- **Blocks do not overlap** as long as `Free` finds no free neighbour: after `Init`, when every request
has room, the payloads of the live allocations are apart from each other and from all their headers, and
`Allocate` and `Free` change no byte of them. -/
theorem heap_blocks_apart (hinit : Heap.init util k mem sizeBytes = (some heap, k')) (s : HeapClient)
    (hrun : RunsWhere Step (fun s c => s.Fits c ∧ s.Unmerged c) ⟨heap, []⟩ s) :
    s.live.Pairwise (fun x y => Disjoint (payload x) (payload y)) ∧
      (∀ x ∈ s.live, ∀ y ∈ s.live, Disjoint (payload x) (header y)) ∧
      ∀ c t, s.Fits c → s.Unmerged c → Step s c t → Untouched s c t := by
  obtain ⟨⟨nodes, hinv⟩, -, -⟩ := inv_of_runs (inv_init hinit) hrun
  refine ⟨hinv.once.imp_of_mem fun hx hy hne => hinv.payload_apart hx hy hne, fun x hx y hy => ?_,
    fun c t hfits hun hstep => (hinv.step hfits hun hstep).2.2.2⟩
  obtain ⟨w, hw, hp, -, -⟩ := hinv.live y hy
  rw [header, hp, BitVec.add_sub_cancel]
  exact hinv.payload_header hx hw

end

/-- After the run on the heap of one page. -/
theorem heap_blocks_apart_heap4096 :
    ∃ s, RunsWhere Step (fun s c => s.Fits c ∧ s.Unmerged c) ⟨heap4096, []⟩ s ∧
      s.live = [(0xC100000D#32, 10#32), (0xC100002E#32, 30#32)] ∧
      Disjoint (payload (0xC100000D#32, 10#32)) (payload (0xC100002E#32, 30#32)) ∧
      Disjoint (payload (0xC100000D#32, 10#32)) (header (0xC100002E#32, 30#32)) := by
  obtain ⟨k, k', hinit⟩ := exists_init_heap4096
  obtain ⟨s, hrun, hlive⟩ := exists_run_heap4096
  obtain ⟨hpairs, hheaders, -⟩ := heap_blocks_apart hinit s hrun
  rw [hlive] at hpairs hheaders
  refine ⟨s, hrun, hlive, List.rel_of_pairwise_cons hpairs (List.mem_singleton_self _), ?_⟩
  exact hheaders _ List.mem_cons_self _ (List.mem_cons_of_mem _ (List.mem_singleton_self _))

/-- Where `Free` merges, blocks overlap: of three blocks the second and then the first are freed; the
second takes the size of the first and comes to reach into the third; and it is allocated again. -/
theorem heap_blocks_overlap :
    ∃ k k' s, Heap.init (MemoryUtil.init bootInfo512) k (fun _ => 0#8) 4096#32 = (some heap4096, k') ∧
      RunsWhere Step Fits ⟨heap4096, []⟩ s ∧
      ∃ x ∈ s.live, ∃ y ∈ s.live, x.1 ≠ y.1 ∧ ¬ Disjoint (payload x) (payload y) ∧ ¬ Disjoint (payload x) (header y) := by
  obtain ⟨k, k', hinit⟩ := exists_init_heap4096
  have hlive : (List.foldlM (fun s c => if decide (RoomFor s c) then step s c else none) ⟨heap4096, []⟩
      [.allocate 20#32, .allocate 20#32, .allocate 20#32, .free 0xC100002E#32 20#32, .free 0xC100000D#32 20#32,
        .allocate 40#32]).map HeapClient.live = some [(0xC100002E#32, 40#32), (0xC100004F#32, 20#32)] := by
    decide +kernel
  obtain ⟨s, hs, hl⟩ := Option.map_eq_some_iff.mp hlive
  have hrun : RunsWhere Step Fits ⟨heap4096, []⟩ s :=
    runsWhere_of_foldlM (fun s c hc => RoomFor.fits (decide_eq_true_eq.mp hc)) _ hs
  refine ⟨k, k', s, hinit, hrun, (0xC100002E#32, 40#32), by rw [hl]; simp, (0xC100004F#32, 20#32), by rw [hl]; simp,
    by decide, ?_, ?_⟩
  · exact Set.not_disjoint_iff.mpr ⟨0xC100004F#32, by rw [payload, mem_span]; decide, by rw [payload, mem_span]; decide⟩
  · exact Set.not_disjoint_iff.mpr ⟨0xC1000042#32, by rw [payload, mem_span]; decide, by rw [header, mem_span]; decide⟩

section

variable {util : MemoryUtil} {k k' : Kernel} {mem : Foundations.Memory} {sizeBytes : SizeT} {heap : Heap}

/-- **The heap stays inside its region** as long as every request has room and `Free` finds no free
neighbour: what is live lies between the first header and the end, `Allocate` returns, and when its result
is null the heap is as it was. -/
theorem heap_inside (hinit : Heap.init util k mem sizeBytes = (some heap, k')) (s : HeapClient)
    (hrun : RunsWhere Step (fun s c => s.Fits c ∧ s.Unmerged c) ⟨heap, []⟩ s) :
    (∀ x ∈ s.live, heap.startAddress.toNat + (sizeOf).toNat ≤ x.1.toNat ∧ x.1.toNat + x.2.toNat ≤ heap.endAddress.toNat) ∧
      ∀ n, s.Fits (.allocate n) → ∃ p heap', s.heap.allocate n = some (p, heap') ∧ (p = 0#32 → heap' = s.heap) := by
  obtain ⟨⟨nodes, hinv⟩, hstart, hend⟩ := inv_of_runs (inv_init hinit) hrun
  refine ⟨fun x hx => ?_, fun n hfits => ?_⟩
  · obtain ⟨hlow, hhigh⟩ := hinv.within hx
    obtain ⟨y, hy, -⟩ := hinv.live x hx
    have hinside := hinv.blocks.inside (List.ne_nil_of_mem hy)
    rw [← hstart, ← hend]
    exact ⟨hlow, hhigh.trans hinside⟩
  · obtain ⟨p, heap', halloc, hnull, -⟩ := hinv.allocate hfits
    exact ⟨p, heap', halloc, hnull⟩

end

/-- After the run on the heap of one page. -/
theorem heap_inside_heap4096 :
    ∃ s, RunsWhere Step (fun s c => s.Fits c ∧ s.Unmerged c) ⟨heap4096, []⟩ s ∧
      s.live = [(0xC100000D#32, 10#32), (0xC100002E#32, 30#32)] ∧
      ∀ x ∈ s.live, 0xC100000D ≤ x.1.toNat ∧ x.1.toNat + x.2.toNat ≤ 0xC1001000 := by
  obtain ⟨k, k', hinit⟩ := exists_init_heap4096
  obtain ⟨s, hrun, hlive⟩ := exists_run_heap4096
  exact ⟨s, hrun, hlive, (heap_inside hinit s hrun).1⟩

/-- Where there is no room, `Allocate` does not see it: a heap of one page hands out 5000 bytes. -/
theorem heap_outside :
    ∃ k k' s, Heap.init (MemoryUtil.init bootInfo512) k (fun _ => 0#8) 4096#32 = (some heap4096, k') ∧
      Runs Step ⟨heap4096, []⟩ s ∧ ∃ x ∈ s.live, heap4096.endAddress.toNat < x.1.toNat + x.2.toNat := by
  obtain ⟨k, k', hinit⟩ := exists_init_heap4096
  have hlive : (List.foldlM (fun s c => if true then step s c else none) ⟨heap4096, []⟩ [.allocate 5000#32]).map
      HeapClient.live = some [(0xC100000D#32, 5000#32)] := by
    decide +kernel
  obtain ⟨s, hs, hl⟩ := Option.map_eq_some_iff.mp hlive
  refine ⟨k, k', s, hinit, runsWhere_of_foldlM (fun _ _ _ => trivial) _ hs, (0xC100000D#32, 5000#32), by rw [hl]; simp, ?_⟩
  decide

end HeapClient

end EagleOS.Memory
