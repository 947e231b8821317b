import EagleOS.Foundations.Linked
import EagleOS.Memory.HeapTermination

/-!
# `Allocate` is a first fit

A heap is well formed when its blocks, found by their sizes from the first on, end at the current address, and
are the doubly linked list that `Next` and `Prev` make. On such a heap `Allocate` takes the first free block that
is large enough, and changes nothing but its state; when there is none it makes a block at the end, and leads the
last one's `Next` to it.

## What is proved

* `WellFormed.blocks` — a well-formed heap is a list of blocks.
* `allocate_firstFit` — what `Allocate` does to a well-formed heap, which it leaves well formed.
* `allocate_relinks` — the header of another block that does change.
-/

namespace EagleOS.Memory

open ESTD Boot Foundations Arch HeapNode

/-- The heap is well formed, with the blocks `nodes`. -/
structure WellFormed (heap : Heap) (nodes : List VirtualAddress) : Prop where
  /-- The heap does not start at the null pointer. -/
  start_ne : heap.startAddress ≠ 0#32
  /-- The blocks that the sizes lead to end at the current address. -/
  tiles : Tiles BitVec.toNat (extent heap.mem) heap.startAddress.toNat nodes heap.currentAddress.toNat
  /-- The pointers link them, in the order of their addresses. -/
  linked : Linked (next heap.mem) (prev heap.mem) 0#32 0#32 nodes
  /-- A heap without blocks has the header that `Init` writes. -/
  empty : nodes = [] → ∀ a ∈ Span heap.startAddress 13, heap.mem a = 0#8

section

variable {heap : Heap} {nodes before after : List VirtualAddress} {x y : VirtualAddress} {n : SizeT}

/-- No block is at the null pointer. -/
theorem WellFormed.ne_zero (h : WellFormed heap nodes) (hx : x ∈ nodes) : x ≠ 0#32 := by
  rintro rfl
  have hle := (h.tiles.within hx).1
  exact h.start_ne (BitVec.eq_of_toNat_eq (Nat.le_zero.mp hle))

theorem WellFormed.nodup (h : WellFormed heap nodes) : nodes.Nodup :=
  h.tiles.nodup fun x _ => by rw [extent]; omega

/-- A well-formed heap is a list of blocks, that ends at or after the current address. -/
theorem WellFormed.blocks (h : WellFormed heap nodes) {e : VirtualAddress}
    (he : heap.currentAddress.toNat ≤ e.toNat) : Blocks (heap.withEnd e) nodes := by
  refine ⟨h.tiles, fun x hx y hy h0 => ?_, fun hnil => ?_, fun _ => he⟩
  · rcases hy with rfl | rfl
    · exact (h.linked.next_mem h.nodup hx).resolve_left h0
    · exact (h.linked.prev_mem h.nodup hx).resolve_left h0
  · have hzero : prev heap.mem heap.startAddress = prev (fun _ => 0#8) heap.startAddress :=
      prev_congr (h.empty hnil)
    exact hzero.trans (by simp [prev, field, Memory.load32])

/-- The block before the current address, or the null pointer. -/
theorem WellFormed.last (h : WellFormed heap nodes) :
    nodes.getLastD 0#32 ∈ nodes ∨ nodes = [] ∧ nodes.getLastD 0#32 = 0#32 := by
  cases nodes with
  | nil => exact .inr ⟨rfl, rfl⟩
  | cons x nodes =>
    rw [List.getLastD_cons]
    exact .inl List.getLastD_mem_cons

/-- The heap stays well formed as long as its headers stay as they are. -/
theorem WellFormed.congr (h : WellFormed heap nodes) {mem : Foundations.Memory}
    (hsame : ∀ y ∈ nodes, ∀ a ∈ Span y 13, mem a = heap.mem a) (hne : nodes ≠ []) :
    WellFormed { heap with mem := mem } nodes := by
  refine ⟨h.start_ne, h.tiles.congr fun y hy => ?_, h.linked.congr fun y hy => ?_, fun hnil => absurd hnil hne⟩
  · rw [extent, extent, size_congr (hsame y hy)]
  · exact ⟨next_congr (hsame y hy), prev_congr (hsame y hy)⟩

/-- The sizes do not change with a state. -/
theorem WellFormed.size_setState (h : WellFormed heap nodes) (hx : x ∈ nodes) (hy : y ∈ nodes) (state : HeapState) :
    size (HeapNode.setState heap.mem x state) y = size heap.mem y :=
  (h.blocks (Nat.le_refl _)).size_setState hx hy state

/-- Nor do the pointers. -/
theorem WellFormed.links_setState (h : WellFormed heap nodes) (hx : x ∈ nodes) (hy : y ∈ nodes) (state : HeapState) :
    next (HeapNode.setState heap.mem x state) y = next heap.mem y ∧
      prev (HeapNode.setState heap.mem x state) y = prev heap.mem y :=
  (h.blocks (Nat.le_refl _)).links_setState hx hy state

/-- Nor do the states of other blocks. -/
theorem WellFormed.hasState_setState_of_ne (h : WellFormed heap nodes) (hx : x ∈ nodes) (hy : y ∈ nodes) (hne : y ≠ x)
    (state : HeapState) {state' : HeapState} :
    hasState (HeapNode.setState heap.mem x state) y state' ↔ hasState heap.mem y state' :=
  hasState_congr ((h.blocks (Nat.le_refl _)).setState_same hx hy hne state) state'

/-- A state changes nothing else. -/
theorem WellFormed.setState (h : WellFormed heap nodes) (hx : x ∈ nodes) (state : HeapState) :
    WellFormed { heap with mem := HeapNode.setState heap.mem x state } nodes := by
  refine ⟨h.start_ne, h.tiles.congr fun y hy => ?_, h.linked.congr fun y hy => h.links_setState hx hy state,
    fun hnil => absurd hx (by rw [hnil]; exact List.not_mem_nil)⟩
  rw [extent, extent, h.size_setState hx hy state]

/-- A block past the last one. -/
theorem WellFormed.append (h : WellFormed heap nodes) (hroom : RoomAtEnd heap n) :
    WellFormed (appended heap (nodes.getLastD 0#32) n) (nodes ++ [heap.currentAddress]) := by
  rw [RoomAtEnd] at hroom
  have hblocks : Blocks heap nodes := h.blocks (e := heap.endAddress) (by omega)
  obtain ⟨-, -, hprev, hnext⟩ := appendNode_self heap.mem n (hblocks.end_apart_last h.last (by omega))
  refine ⟨h.start_ne, (hblocks.append h.last hroom).tiles, ?_, fun hnil => absurd hnil (by simp)⟩
  refine h.linked.concat h.nodup (fun c hc => (hblocks.append_other h.last (by omega) n hc).2.2.1) (fun c hc hne => ?_)
    (fun hne => ?_) ⟨hprev, hnext⟩
  · refine next_congr fun a ha => appendNode_of_notMem (fun hin => ?_) fun _ hin => ?_
    · exact Set.disjoint_left.mp (hblocks.header_apart_end hc (by omega)) ha hin
    · have hlast := h.last.resolve_right fun hl => hne (absurd hc (by rw [hl.1]; exact List.not_mem_nil))
      exact Set.disjoint_left.mp (hblocks.headers_apart hc hlast hne) ha hin
  · exact next_appendNode (h.ne_zero (h.last.resolve_right fun hl => hne hl.1))

/-- What `Allocate` returns: the payload of the first block that fits, or of a new one. -/
theorem WellFormed.allocate_eq (h : WellFormed heap nodes) (hn : n ≠ 0#32) :
    heap.allocate n = some ((nodes.find? fun x => decide (FitsIn heap.mem n x)).elim
      (heap.currentAddress + sizeOf, appended heap (nodes.getLastD 0#32) n)
      fun x => (x + sizeOf, { heap with mem := HeapNode.setState heap.mem x .reserved })) := by
  have hlength : nodes.length < 2 ^ 32 := by
    have hle := h.tiles.length_le (k := 13) fun x _ => Nat.le_add_right _ _
    omega
  unfold Heap.allocate
  rw [if_neg hn, search_eq nodes h.tiles hlength]
  cases hfind : nodes.find? fun x => decide (FitsIn heap.mem n x) with
  | some x => rfl
  | none =>
    have hlast : nodes.getLastD (prev heap.mem heap.startAddress) = nodes.getLastD 0#32 := by
      cases nodes with
      | nil => exact (h.blocks (Nat.le_refl _)).first rfl
      | cons x nodes => rw [List.getLastD_cons, List.getLastD_cons]
    simp only [Option.elim, hlast]
    rfl

/-- What `Allocate` of `n` bytes is to do to a well-formed heap. -/
inductive FirstFit (heap : Heap) (nodes : List VirtualAddress) (n : SizeT) : Option (VirtualAddress × Heap) → Prop
  /-- The lowest free block that is large enough is reserved, and nothing else changes. -/
  | reused {x : VirtualAddress} {mem : Foundations.Memory} : x ∈ nodes → FitsIn heap.mem n x →
      (∀ y ∈ nodes, FitsIn heap.mem n y → x.toNat ≤ y.toNat) →
      hasState mem x .reserved → (∀ a, a ≠ x + 4#32 → mem a = heap.mem a) →
      WellFormed { heap with mem := mem } nodes →
      FirstFit heap nodes n (some (x + sizeOf, { heap with mem := mem }))
  /-- There is none, and a block of `n` bytes is made at the end; nothing else changes but the pointer of the
  last block, which now leads to it. -/
  | appended {mem : Foundations.Memory} : (∀ y ∈ nodes, ¬ FitsIn heap.mem n y) →
      size mem heap.currentAddress = n → hasState mem heap.currentAddress .reserved →
      (∀ a, a ∉ Span heap.currentAddress 13 → (nodes ≠ [] → a ∉ Span (nodes.getLastD 0#32 + 5#32) 4) →
        mem a = heap.mem a) →
      WellFormed { heap with mem := mem, currentAddress := heap.currentAddress + (n + sizeOf) }
        (nodes ++ [heap.currentAddress]) →
      FirstFit heap nodes n (some (heap.currentAddress + sizeOf,
        { heap with mem := mem, currentAddress := heap.currentAddress + (n + sizeOf) }))

/-- **First fit**: on a well-formed heap with room past the last block, `Allocate` returns the payload of the
lowest free block that is large enough, or of a new block at the end; the heap stays well formed, and nothing
changes but the state of the one, or the header of the other and the pointer that leads to it. -/
theorem allocate_firstFit (h : WellFormed heap nodes) (hn : n ≠ 0#32) (hroom : RoomAtEnd heap n) :
    FirstFit heap nodes n (heap.allocate n) := by
  rw [h.allocate_eq hn]
  cases hfind : nodes.find? fun x => decide (FitsIn heap.mem n x) with
  | some x =>
    obtain ⟨hfits, before, after, hsplit, hbefore⟩ := List.find?_eq_some_iff_append.mp hfind
    have hx : x ∈ nodes := List.mem_of_find?_eq_some hfind
    refine .reused hx (of_decide_eq_true hfits) (fun y hy hyfits => ?_) (hasState_setState.mpr rfl)
      (fun a ha => Memory.store8_of_ne ha) (h.setState hx .reserved)
    -- what comes before does not fit, and what comes after lies higher
    rw [hsplit, List.mem_append, List.mem_cons] at hy
    rcases hy with hy | rfl | hy
    · have hnot := hbefore y hy
      rw [decide_eq_true hyfits] at hnot
      exact absurd hnot (by decide)
    · exact Nat.le_refl _
    · have htiles := h.tiles
      rw [hsplit] at htiles
      exact (Nat.le_add_right _ _).trans (htiles.around.2 y hy)
  | none =>
    have hend : heap.currentAddress.toNat + 13 + n.toNat ≤ heap.endAddress.toNat := hroom
    have hblocks : Blocks heap nodes := h.blocks (e := heap.endAddress) (by omega)
    obtain ⟨hsize, hstate, -, -⟩ := appendNode_self heap.mem n (hblocks.end_apart_last h.last (by omega))
    have happend := h.append hroom
    rw [Memory.appended, hsize] at happend
    rw [Option.elim_none, Memory.appended, hsize]
    refine .appended (fun y hy hfits => List.find?_eq_none.mp hfind y hy (decide_eq_true hfits)) hsize hstate
      (fun a ha hnext => appendNode_frame ha fun h0 => hnext fun hnil => h0 (by rw [hnil]; rfl)) happend

end

/-! ### The heaps that clients make -/

namespace HeapClient

variable {s t : HeapClient} {nodes : List VirtualAddress}

/-- After `Init` the heap is well formed. -/
theorem wellFormed_init {util : MemoryUtil} {k k' : Kernel} {mem : Foundations.Memory} {sizeBytes : SizeT} {heap : Heap}
    (hinit : Heap.init util k mem sizeBytes = (some heap, k')) : WellFormed heap [] := by
  unfold Heap.init at hinit
  split at hinit
  · simp at hinit
  simp only at hinit
  split at hinit
  · simp at hinit
  rename_i hne
  rw [Prod.mk.injEq, Option.some.injEq] at hinit
  obtain ⟨rfl, -⟩ := hinit
  exact ⟨hne, rfl, trivial, fun _ a ha => (memset_apply (by decide) mem a).1 ha⟩

/-- A call that fits and does not merge leaves the heap well formed. -/
theorem Inv.step_wellFormed (h : Inv s nodes) (hw : WellFormed s.heap nodes) {c : HeapCall} (hfits : s.Fits c)
    (hun : s.Unmerged c) (hs : Step s c t) : ∃ nodes', Inv t nodes' ∧ WellFormed t.heap nodes' := by
  cases c with
  | allocate n =>
    rw [Step, HeapClient.step] at hs
    by_cases hn : n = 0#32
    · subst hn
      cases hs
      exact ⟨nodes, h, hw⟩
    simp only [hw.allocate_eq hn] at hs
    cases hfind : nodes.find? fun x => decide (FitsIn s.heap.mem n x) with
    | some x =>
      have hx : x ∈ nodes := List.mem_of_find?_eq_some hfind
      have hxfits : FitsIn s.heap.mem n x := by simpa using List.find?_some hfind
      have hlt := s.heap.currentAddress.isLt
      have hwithin := (h.blocks.within hx).2
      have hpos := BitVec.le_def.mp hxfits.2
      have hn0 : n.toNat ≠ 0 := fun h0 => hn (BitVec.eq_of_toNat_eq h0)
      rw [hfind, Option.elim_some, if_neg (add_sizeOf_ne_zero (by omega))] at hs
      cases hs
      exact ⟨nodes, h.reused hx hxfits.1 hxfits.2, hw.setState hx .reserved⟩
    | none =>
      have hend : RoomAtEnd s.heap n := (hfits.resolve_left hn).atEnd h.blocks fun x hx hxfits =>
        List.find?_eq_none.mp hfind x hx (decide_eq_true hxfits)
      have hn0 : n.toNat ≠ 0 := fun h0 => hn (BitVec.eq_of_toNat_eq h0)
      rw [hfind, Option.elim_none, if_neg (add_sizeOf_ne_zero (by rw [RoomAtEnd] at hend; omega))] at hs
      cases hs
      exact ⟨_, h.appended hw.last hend, hw.append hend⟩
  | free p n =>
    obtain ⟨hlive, rfl⟩ := hs.of_free
    obtain ⟨y, hy, hp, hstate, -⟩ := h.live (p, n) hlive
    have hp' : p = y + sizeOf := hp
    have hinv := (h.free hlive hun).1
    refine ⟨nodes, hinv, ?_⟩
    have hno : NoFreeNeighbour s.heap.mem y := by rwa [Unmerged, hp', BitVec.add_sub_cancel] at hun
    rw [hp', free_result h.blocks hy hstate hno]
    exact hw.setState hy .free
  | write a value =>
    obtain ⟨⟨x, hx, ha⟩, rfl⟩ := hs.of_write
    obtain ⟨w, hw', -⟩ := h.live x hx
    refine ⟨nodes, h.write hx ha value, hw.congr (fun y hy b hb => ?_) (List.ne_nil_of_mem hw')⟩
    exact Memory.store8_of_ne fun e => Set.disjoint_left.mp (h.payload_header hx hy) ha (e ▸ hb)

/-- In every state of a run whose calls fit and do not merge the heap is well formed. -/
theorem wellFormed_of_runs {util : MemoryUtil} {k k' : Kernel} {mem : Foundations.Memory} {sizeBytes : SizeT} {heap : Heap}
    (hinit : Heap.init util k mem sizeBytes = (some heap, k'))
    (hrun : RunsWhere Step (fun s c => s.Fits c ∧ s.Unmerged c) ⟨heap, []⟩ s) :
    ∃ nodes, Inv s nodes ∧ WellFormed s.heap nodes :=
  hrun.invariant (P := fun s => ∃ nodes, Inv s nodes ∧ WellFormed s.heap nodes)
    (fun _ _ _ ⟨_, h, hw⟩ hc hstep => h.step_wellFormed hw hc.1 hc.2 hstep) ⟨[], inv_init hinit, wellFormed_init hinit⟩

end HeapClient

/-- Of four blocks two are free: the first is too small, and the third is taken. -/
theorem allocate_firstFit_heap4096 :
    ∃ s nodes, RunsWhere HeapClient.Step (fun s c => s.Fits c ∧ s.Unmerged c) ⟨HeapClient.heap4096, []⟩ s ∧
      s.live = [(0xC100007A#32, 10#32), (0xC100002E#32, 10#32)] ∧ FirstFit s.heap nodes 30#32 (s.heap.allocate 30#32) ∧
      (s.heap.allocate 30#32).map Prod.fst = some 0xC1000045#32 := by
  obtain ⟨k, k', hinit⟩ := HeapClient.exists_init_heap4096
  obtain ⟨s, hrun, hfacts⟩ := HeapClient.exists_run_of
    (fun s => (s.live, (s.heap.allocate 30#32).map Prod.fst, decide (RoomAtEnd s.heap 30#32)))
    [.allocate 20#32, .allocate 10#32, .allocate 40#32, .allocate 10#32, .free 0xC100000D#32 20#32, .free 0xC1000045#32 40#32]
    (r := ([(0xC100007A#32, 10#32), (0xC100002E#32, 10#32)], some 0xC1000045#32, true)) (by decide +kernel)
  simp only [Prod.mk.injEq] at hfacts
  obtain ⟨hlive, hresult, hroom⟩ := hfacts
  obtain ⟨nodes, -, hw⟩ := HeapClient.wellFormed_of_runs hinit hrun
  exact ⟨s, nodes, hrun, hlive, allocate_firstFit hw (by decide) (of_decide_eq_true hroom), hresult⟩

/-- The heap of one page, with one block that is reserved. -/
theorem wellFormed_one_heap4096 :
    let heap := appended HeapClient.heap4096 0#32 20#32
    WellFormed heap [HeapClient.heap4096.currentAddress] ∧ heap.currentAddress = 0xC1000021#32 ∧
      hasState heap.mem HeapClient.heap4096.currentAddress .reserved ∧ next heap.mem HeapClient.heap4096.currentAddress = 0#32 := by
  obtain ⟨k, k', hinit⟩ := HeapClient.exists_init_heap4096
  have hnone : 0#32 ≠ 0#32 → Disjoint (Span HeapClient.heap4096.currentAddress 13) (Span 0#32 13) := fun h0 => absurd rfl h0
  obtain ⟨hsize, hstate, -, hnext⟩ := appendNode_self HeapClient.heap4096.mem 20#32 hnone
  refine ⟨(HeapClient.wellFormed_init hinit).append (by decide), ?_, hstate, hnext⟩
  rw [appended, hsize]
  decide

/-- On a heap of one block that is reserved another one is made, and the `Next` of the first one changes. -/
theorem allocate_relinks :
    ∃ heap x heap', WellFormed heap [x] ∧ RoomAtEnd heap 20#32 ∧ ¬ FitsIn heap.mem 20#32 x ∧
      heap.allocate 20#32 = some (heap.currentAddress + sizeOf, heap') ∧ next heap'.mem x ≠ next heap.mem x := by
  obtain ⟨h, hcurrent, hstate, hnext⟩ := wellFormed_one_heap4096
  have hno : ¬ FitsIn (appended HeapClient.heap4096 0#32 20#32).mem 20#32 HeapClient.heap4096.currentAddress := fun hfits =>
    absurd (HeapState.byte_inj.mp (hstate.symm.trans hfits.1)) (by decide)
  have halloc := h.allocate_eq (n := 20#32) (by decide)
  rw [List.find?_cons_of_neg (by simpa using hno)] at halloc
  refine ⟨_, HeapClient.heap4096.currentAddress, _, h, ?_, hno, halloc, ?_⟩
  · rw [RoomAtEnd, hcurrent]
    decide
  · have hlinked : next (appended (appended HeapClient.heap4096 0#32 20#32) HeapClient.heap4096.currentAddress 20#32).mem
        HeapClient.heap4096.currentAddress = (appended HeapClient.heap4096 0#32 20#32).currentAddress :=
      next_appendNode (by decide)
    refine fun he => absurd (hlinked.symm.trans (he.trans hnext)) ?_
    rw [hcurrent]
    decide

end EagleOS.Memory
