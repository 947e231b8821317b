import EagleOS.Foundations.Tiling
import EagleOS.Memory.Heap

/-!
# The blocks of the heap

As long as no two blocks are merged, the heap is a list of blocks that lie one after the other from
`m_StartAddress` to `m_CurrentAddress`, and the pointers of a header lead to other blocks.

## What is proved

* `allocate_result` — all that `Allocate` can do; the walk ends, at a free block or past the last one.
* `free_result` — what `Free` does when no neighbour is free.
* `Blocks.setState`, `Blocks.append` — the blocks after the calls.
-/

namespace EagleOS.Memory

open ESTD Boot Foundations Arch

/-! ### Headers -/

namespace HeapNode

variable {mem mem' : Foundations.Memory} {node x : VirtualAddress} {offset offset' value : BitVec 32}

/-- A field lies in the header. -/
theorem span_field_subset {n : ℕ} (h : offset.toNat + n ≤ 13) : Span (node + offset) n ⊆ Span node 13 := by
  intro a ha
  rw [mem_span] at ha ⊢
  have hoff : a - node = a - (node + offset) + offset := by bv_omega
  rw [hoff, BitVec.toNat_add]
  omega

/-- A word of a header that was cleared. -/
theorem field_memset_zero (ho : offset.toNat + 4 ≤ 13) (mem : Foundations.Memory) (node : VirtualAddress) :
    field offset (memset mem node 0#8 sizeOf.toNat) node = 0#32 := by
  have hsub : Span (node + offset) 4 ⊆ Span node sizeOf.toNat := span_field_subset ho
  have hsize : sizeOf.toNat ≤ 2 ^ 32 := by decide
  rw [field, load32_memset_zero hsize hsub]

/-- A word of a header is made of bytes of the header. -/
theorem field_congr (ho : offset.toNat + 4 ≤ 13) (h : ∀ a ∈ Span node 13, mem' a = mem a) :
    field offset mem' node = field offset mem node :=
  Memory.load32_congr fun a ha => h a (span_field_subset ho ha)

theorem size_congr (h : ∀ a ∈ Span node 13, mem' a = mem a) : size mem' node = size mem node := field_congr (by decide) h

theorem next_congr (h : ∀ a ∈ Span node 13, mem' a = mem a) : next mem' node = next mem node := field_congr (by decide) h

theorem prev_congr (h : ∀ a ∈ Span node 13, mem' a = mem a) : prev mem' node = prev mem node := field_congr (by decide) h

theorem state_mem_header (node : VirtualAddress) : node + 4#32 ∈ Span node 13 :=
  span_field_subset (n := 1) (by decide) (self_mem_span (by decide))

theorem hasState_congr (h : ∀ a ∈ Span node 13, mem' a = mem a) (state : HeapState) :
    hasState mem' node state ↔ hasState mem node state := by
  rw [hasState, hasState, h _ (state_mem_header node)]

@[simp] theorem field_setField (mem : Foundations.Memory) (node : VirtualAddress) (offset value : BitVec 32) :
    field offset (setField offset mem node value) node = value := Memory.load32_store32 ..

/-- Words of a header that do not overlap are independent. -/
theorem field_setField_of_apart (h : 4 ≤ (offset' - offset).toNat) (h' : 4 ≤ (offset - offset').toNat) :
    field offset (setField offset' mem node value) node = field offset mem node := by
  refine Memory.load32_store32_of_disjoint (disjoint_span ?_ ?_)
  · rwa [show node + offset' - (node + offset) = offset' - offset by bv_omega]
  · rwa [show node + offset - (node + offset') = offset - offset' by bv_omega]

/-- The state and a word that does not overlap it are independent. -/
theorem field_setState (h : 4 ≤ (4#32 - offset).toNat) (state : HeapState) :
    field offset (setState mem node state) node = field offset mem node := by
  refine Memory.load32_store8_of_notMem ?_
  rw [mem_span, show node + 4#32 - (node + offset) = 4#32 - offset by bv_omega]
  omega

theorem hasState_setField (h : 4 ≤ (4#32 - offset).toNat) (state : HeapState) :
    hasState (setField offset mem node value) node state ↔ hasState mem node state := by
  rw [hasState, hasState, setField, Memory.store32_of_notMem]
  rw [mem_span, show node + 4#32 - (node + offset) = 4#32 - offset by bv_omega]
  omega

theorem HeapState.byte_inj {s t : HeapState} : s.byte = t.byte ↔ s = t := by
  cases s <;> cases t <;> decide

@[simp] theorem hasState_setState {s t : HeapState} : hasState (setState mem node s) node t ↔ s = t := by
  rw [hasState, setState, Memory.store8_self, HeapState.byte_inj]

theorem setField_of_notMem (h : x ∉ Span (node + offset) 4) : setField offset mem node value x = mem x :=
  Memory.store32_of_notMem h

theorem setState_of_notMem {state : HeapState} (h : x ∉ Span node 13) : setState mem node state x = mem x :=
  Memory.store8_of_ne fun e => h (e ▸ state_mem_header node)

/-- A payload is not at the null pointer, if the address space does not end before it. -/
theorem add_sizeOf_ne_zero {w : VirtualAddress} (h : w.toNat + 13 < 2 ^ 32) : w + sizeOf ≠ 0#32 := by
  intro h0
  have := congrArg BitVec.toNat h0
  rw [BitVec.toNat_add, show (sizeOf).toNat = 13 from rfl, show (0#32).toNat = 0 from rfl] at this
  omega

/-! ### The header that `Allocate` makes -/

/-- The four assignments to the new header. -/
theorem appendNode_eq (mem : Foundations.Memory) (node last : VirtualAddress) (n : SizeT) :
    ∃ mem₁, (∀ a, a ∉ Span node 13 → mem₁ a = mem a) ∧ size mem₁ node = n ∧ hasState mem₁ node .reserved ∧
      prev mem₁ node = last ∧ next mem₁ node = 0#32 ∧
      Heap.appendNode mem node last n = if last ≠ 0#32 then setNext mem₁ last node else mem₁ := by
  refine ⟨setNext (setPrev (setState (setSize mem node n) node .reserved) node last) node 0#32, fun a ha => ?_, ?_, ?_,
    ?_, ?_, rfl⟩
  · have hfield : ∀ offset : BitVec 32, offset.toNat + 4 ≤ 13 → a ∉ Span (node + offset) 4 :=
      fun offset ho hin => ha (span_field_subset ho hin)
    rw [setNext, setField_of_notMem (hfield _ (by decide)), setPrev, setField_of_notMem (hfield _ (by decide)),
      setState_of_notMem ha, setSize, setField_of_notMem (hfield _ (by decide))]
  · rw [size, setNext, field_setField_of_apart (by decide) (by decide), setPrev,
      field_setField_of_apart (by decide) (by decide), field_setState (by decide), setSize, field_setField]
  · rw [setNext, hasState_setField (by decide), setPrev, hasState_setField (by decide), hasState_setState]
  · rw [prev, setNext, field_setField_of_apart (by decide) (by decide), setPrev, field_setField]
  · rw [next, setNext, field_setField]

/-- The new header, when the block before it is apart from it. -/
theorem appendNode_self (mem : Foundations.Memory) {last : VirtualAddress} (n : SizeT)
    (hlast : last ≠ 0#32 → Disjoint (Span node 13) (Span last 13)) :
    size (Heap.appendNode mem node last n) node = n ∧ hasState (Heap.appendNode mem node last n) node .reserved ∧
      prev (Heap.appendNode mem node last n) node = last ∧ next (Heap.appendNode mem node last n) node = 0#32 := by
  obtain ⟨mem₁, -, hsize, hstate, hprev, hnext, he⟩ := appendNode_eq mem node last n
  rw [he]
  split
  · rename_i h0
    have hsame : ∀ a ∈ Span node 13, setNext mem₁ last node a = mem₁ a := fun a ha =>
      setField_of_notMem fun hin => Set.disjoint_left.mp (hlast h0) ha (span_field_subset (by decide) hin)
    exact ⟨(size_congr hsame).trans hsize, (hasState_congr hsame _).mpr hstate, (prev_congr hsame).trans hprev,
      (next_congr hsame).trans hnext⟩
  · exact ⟨hsize, hstate, hprev, hnext⟩

/-- Other headers stay, but for the pointer that now leads to the new one. -/
theorem appendNode_other {last : VirtualAddress} {n : SizeT} (hx : Disjoint (Span x 13) (Span node 13))
    (hlast : x = last ∨ Disjoint (Span x 13) (Span last 13)) :
    size (Heap.appendNode mem node last n) x = size mem x ∧
      (∀ state, hasState (Heap.appendNode mem node last n) x state ↔ hasState mem x state) ∧
      prev (Heap.appendNode mem node last n) x = prev mem x ∧
      (next (Heap.appendNode mem node last n) x = next mem x ∨ next (Heap.appendNode mem node last n) x = node) := by
  obtain ⟨mem₁, hout, -, -, -, -, he⟩ := appendNode_eq mem node last n
  have hsame : ∀ a ∈ Span x 13, mem₁ a = mem a := fun a ha => hout a (Set.disjoint_left.mp hx ha)
  have hkept : ∀ {mem₂ : Foundations.Memory}, (∀ a ∈ Span x 13, mem₂ a = mem a) → size mem₂ x = size mem x ∧
      (∀ state, hasState mem₂ x state ↔ hasState mem x state) ∧ prev mem₂ x = prev mem x ∧
      (next mem₂ x = next mem x ∨ next mem₂ x = node) := fun h =>
    ⟨size_congr h, hasState_congr h, prev_congr h, .inl (next_congr h)⟩
  rw [he]
  split
  · rcases hlast with rfl | hlast
    · obtain ⟨hsize, hstate, hprev, -⟩ := hkept hsame
      refine ⟨?_, fun state => (hasState_setField (by decide) state).trans (hstate state), ?_, .inr (field_setField ..)⟩
      · exact (field_setField_of_apart (by decide) (by decide)).trans hsize
      · exact (field_setField_of_apart (by decide) (by decide)).trans hprev
    · exact hkept fun a ha => (setField_of_notMem fun hin =>
        Set.disjoint_left.mp hlast ha (span_field_subset (by decide) hin)).trans (hsame a ha)
  · exact hkept hsame

/-- Nothing else changes but the pointer that leads to the new header. -/
theorem appendNode_frame {last a : VirtualAddress} {n : SizeT} (ha : a ∉ Span node 13)
    (hlast : last ≠ 0#32 → a ∉ Span (last + 5#32) 4) : Heap.appendNode mem node last n a = mem a := by
  obtain ⟨mem₁, hout, -, -, -, -, he⟩ := appendNode_eq mem node last n
  rw [he]
  split
  · rename_i h0
    rw [setNext, setField_of_notMem (hlast h0), hout a ha]
  · exact hout a ha

/-- Nothing else changes but the headers. -/
theorem appendNode_of_notMem {last a : VirtualAddress} {n : SizeT} (ha : a ∉ Span node 13)
    (hlast : last ≠ 0#32 → a ∉ Span last 13) : Heap.appendNode mem node last n a = mem a :=
  appendNode_frame ha fun h0 hin => hlast h0 (span_field_subset (by decide) hin)

/-- The pointer of the block before the new header leads to it. -/
theorem next_appendNode {last : VirtualAddress} {n : SizeT} (h0 : last ≠ 0#32) :
    next (Heap.appendNode mem node last n) last = node := by
  obtain ⟨mem₁, -, -, -, -, -, he⟩ := appendNode_eq mem node last n
  rw [he, if_pos h0]
  exact field_setField ..

end HeapNode

/-! ### The blocks -/

open HeapNode

/-- The bytes of a block: its header and its payload. -/
def extent (mem : Foundations.Memory) (node : VirtualAddress) : ℕ := 13 + (size mem node).toNat

/-- The heap is the list of blocks `nodes`. -/
structure Blocks (heap : Heap) (nodes : List VirtualAddress) : Prop where
  /-- They lie one after the other, from the start to the current address. -/
  tiles : Tiles BitVec.toNat (extent heap.mem) heap.startAddress.toNat nodes heap.currentAddress.toNat
  /-- The pointers of a header lead to other blocks. -/
  links : ∀ x ∈ nodes, ∀ y, y = next heap.mem x ∨ y = prev heap.mem x → y ≠ 0#32 → y ∈ nodes ∧ y ≠ x
  /-- The first block will have none before it. -/
  first : nodes = [] → prev heap.mem heap.startAddress = 0#32
  /-- They do not pass the end of the heap. -/
  inside : nodes ≠ [] → heap.currentAddress.toNat ≤ heap.endAddress.toNat

variable {heap : Heap} {nodes : List VirtualAddress} {x y : VirtualAddress} {n : SizeT}

/-- A block lies between the start and the current address. -/
theorem Blocks.within (h : Blocks heap nodes) (hx : x ∈ nodes) :
    heap.startAddress.toNat ≤ x.toNat ∧ x.toNat + (13 + (size heap.mem x).toNat) ≤ heap.currentAddress.toNat :=
  h.tiles.within hx

/-- Blocks do not overlap. -/
theorem Blocks.apart (h : Blocks heap nodes) (hx : x ∈ nodes) (hy : y ∈ nodes) (hne : x ≠ y) :
    Disjoint (Span x (13 + (size heap.mem x).toNat)) (Span y (13 + (size heap.mem y).toNat)) := by
  have hx' := (h.within hx).2
  have hy' := (h.within hy).2
  rcases h.tiles.apart hx hy hne with hle | hle
  · exact disjoint_span_of_le hle (by omega)
  · exact (disjoint_span_of_le hle (by omega)).symm

/-- Nor do their headers. -/
theorem Blocks.headers_apart (h : Blocks heap nodes) (hx : x ∈ nodes) (hy : y ∈ nodes) (hne : x ≠ y) :
    Disjoint (Span x 13) (Span y 13) :=
  (h.apart hx hy hne).mono (Span.mono (Nat.le_add_right _ _)) (Span.mono (Nat.le_add_right _ _))

/-- A payload lies in its block, past the header. -/
theorem Blocks.payload_subset (h : Blocks heap nodes) (hx : x ∈ nodes) {k : ℕ} (hk : k ≤ (size heap.mem x).toNat) :
    Span (x + sizeOf) k ⊆ Span x (13 + (size heap.mem x).toNat) ∧ Disjoint (Span (x + sizeOf) k) (Span x 13) := by
  have hx' := (h.within hx).2
  have hp : (x + sizeOf).toNat = x.toNat + 13 := by
    rw [BitVec.toNat_add, show (sizeOf).toNat = 13 from rfl]
    omega
  refine ⟨fun a ha => ?_, (disjoint_span_of_le (by omega) (by omega)).symm⟩
  rw [mem_span_iff (by omega)] at ha ⊢
  omega

/-- A payload is apart from every header. -/
theorem Blocks.payload_header (h : Blocks heap nodes) (hx : x ∈ nodes) (hy : y ∈ nodes) {k : ℕ}
    (hk : k ≤ (size heap.mem x).toNat) : Disjoint (Span (x + sizeOf) k) (Span y 13) := by
  obtain ⟨hsub, hself⟩ := h.payload_subset hx hk
  by_cases he : x = y
  · rw [← he]
    exact hself
  · exact (h.apart hx hy he).mono hsub (Span.mono (by omega))

/-- Payloads of two blocks do not overlap. -/
theorem Blocks.payload_apart (h : Blocks heap nodes) (hx : x ∈ nodes) (hy : y ∈ nodes) (hne : x ≠ y) {j k : ℕ}
    (hj : j ≤ (size heap.mem x).toNat) (hk : k ≤ (size heap.mem y).toNat) :
    Disjoint (Span (x + sizeOf) j) (Span (y + sizeOf) k) :=
  (h.apart hx hy hne).mono (h.payload_subset hx hj).1 (h.payload_subset hy hk).1

/-- Every block is apart from what is past the current address. -/
theorem Blocks.apart_end (h : Blocks heap nodes) (hx : x ∈ nodes) {k : ℕ}
    (hend : heap.currentAddress.toNat + k ≤ 2 ^ 32) :
    Disjoint (Span x (13 + (size heap.mem x).toNat)) (Span heap.currentAddress k) :=
  disjoint_span_of_le (h.within hx).2 hend

/-- So is every header. -/
theorem Blocks.header_apart_end (h : Blocks heap nodes) (hx : x ∈ nodes) {k : ℕ}
    (hend : heap.currentAddress.toNat + k ≤ 2 ^ 32) : Disjoint (Span x 13) (Span heap.currentAddress k) :=
  (h.apart_end hx hend).mono_left (Span.mono (Nat.le_add_right _ _))

/-! ### `Allocate` -/

/-- Where the walk over the blocks `nodes` can end, with `last` before the first of them. -/
inductive SearchResult (mem : Foundations.Memory) (n : SizeT) (nodes : List VirtualAddress)
    (current first : VirtualAddress) : Option Heap.Search → Prop
  /-- At a free block that is large enough. -/
  | reuse {x : VirtualAddress} : x ∈ nodes → hasState mem x .free → n ≤ size mem x →
      SearchResult mem n nodes current first (some (.reuse x))
  /-- Past the last block; no free block is large enough. -/
  | append {last : VirtualAddress} : (∀ x ∈ nodes, ¬ (hasState mem x .free ∧ n ≤ size mem x)) →
      (last ∈ nodes ∨ nodes = [] ∧ last = first) → SearchResult mem n nodes current first (some (.append current last))

/-- The block is free, and large enough for `n` bytes. -/
def FitsIn (mem : Foundations.Memory) (n : SizeT) (x : VirtualAddress) : Prop := hasState mem x .free ∧ n ≤ size mem x

instance (mem : Foundations.Memory) (n : SizeT) (x : VirtualAddress) : Decidable (FitsIn mem n x) :=
  inferInstanceAs (Decidable (_ ∧ _))

/-- The walk goes from block to block, up to the first that fits or past the last one. -/
theorem search_eq {mem : Foundations.Memory} {current : VirtualAddress} (nodes : List VirtualAddress) :
    ∀ {fuel : ℕ} {node prev : VirtualAddress},
      Tiles BitVec.toNat (extent mem) node.toNat nodes current.toNat → nodes.length < fuel →
      Heap.search mem current n fuel node prev = some ((nodes.find? fun x => decide (FitsIn mem n x)).elim
        (.append current (nodes.getLastD prev)) .reuse) := by
  induction nodes with
  | nil =>
    intro fuel node prev h hfuel
    obtain ⟨fuel, rfl⟩ := Nat.exists_eq_succ_of_ne_zero (Nat.ne_of_gt hfuel)
    obtain rfl : node = current := BitVec.eq_of_toNat_eq h
    rw [Heap.search, if_neg (BitVec.lt_irrefl _)]
    rfl
  | cons x nodes ih =>
    intro fuel node prev h hfuel
    rw [List.length_cons] at hfuel
    obtain ⟨fuel, rfl⟩ := Nat.exists_eq_succ_of_ne_zero (Nat.ne_of_gt (Nat.lt_of_le_of_lt (Nat.zero_le _) hfuel))
    have hwithin := h.within List.mem_cons_self
    obtain ⟨hx, hrest⟩ := h
    obtain rfl : x = node := BitVec.eq_of_toNat_eq hx
    have hstep : (x + (size mem x + sizeOf)).toNat = x.toNat + extent mem x := by
      rw [extent] at hwithin ⊢
      rw [BitVec.toNat_add, BitVec.toNat_add, show (sizeOf).toNat = 13 from rfl]
      omega
    rw [extent] at hwithin
    rw [Heap.search, if_pos (BitVec.lt_def.mpr (by omega))]
    by_cases hfits : FitsIn mem n x
    · rw [if_pos hfits.symm, List.find?_cons_of_pos (by simpa using hfits)]
      rfl
    · rw [← hstep] at hrest
      rw [if_neg (mt And.symm hfits), List.find?_cons_of_neg (by simpa using hfits), List.getLastD_cons]
      exact ih hrest (by omega)

/-- What the walk comes to. -/
theorem search_spec {mem : Foundations.Memory} {current : VirtualAddress} (nodes : List VirtualAddress) {fuel : ℕ}
    {node prev : VirtualAddress} (h : Tiles BitVec.toNat (extent mem) node.toNat nodes current.toNat)
    (hfuel : nodes.length < fuel) : SearchResult mem n nodes current prev (Heap.search mem current n fuel node prev) := by
  rw [search_eq nodes h hfuel]
  cases hfind : nodes.find? fun x => decide (FitsIn mem n x) with
  | none =>
    refine .append (fun x hx hfits => List.find?_eq_none.mp hfind x hx (decide_eq_true hfits)) ?_
    cases nodes with
    | nil => exact .inr ⟨rfl, rfl⟩
    | cons x nodes =>
      rw [List.getLastD_cons]
      exact .inl List.getLastD_mem_cons
  | some x =>
    have hfits : FitsIn mem n x := by simpa using List.find?_some hfind
    exact .reuse (List.mem_of_find?_eq_some hfind) hfits.1 hfits.2

/-- The heap with one more block, after the block `last`. -/
def appended (heap : Heap) (last : VirtualAddress) (n : SizeT) : Heap :=
  let mem := Heap.appendNode heap.mem heap.currentAddress last n
  { heap with mem := mem, currentAddress := heap.currentAddress + (size mem heap.currentAddress + sizeOf) }

/-- All that `Allocate` can do. -/
inductive AllocateResult (heap : Heap) (nodes : List VirtualAddress) (n : SizeT) : Option (VirtualAddress × Heap) → Prop
  /-- There is nothing to allocate. -/
  | zero : n = 0#32 → AllocateResult heap nodes n (some (0#32, heap))
  /-- A free block is reserved. -/
  | reused {x : VirtualAddress} : x ∈ nodes → hasState heap.mem x .free → n ≤ size heap.mem x →
      AllocateResult heap nodes n (some (x + sizeOf, { heap with mem := setState heap.mem x .reserved }))
  /-- A block is made past the last one. -/
  | appended {last : VirtualAddress} : n ≠ 0#32 → (∀ x ∈ nodes, ¬ (hasState heap.mem x .free ∧ n ≤ size heap.mem x)) →
      (last ∈ nodes ∨ nodes = [] ∧ last = 0#32) →
      AllocateResult heap nodes n (some (heap.currentAddress + sizeOf, appended heap last n))

/-- All that `Allocate` can do: in particular it returns. -/
theorem allocate_result (h : Blocks heap nodes) (n : SizeT) : AllocateResult heap nodes n (heap.allocate n) := by
  have hlength : nodes.length < 2 ^ 32 := by
    have hle := h.tiles.length_le (k := 13) fun x _ => Nat.le_add_right _ _
    omega
  have hsearch : SearchResult heap.mem n nodes heap.currentAddress (prev heap.mem heap.startAddress)
      (Heap.search heap.mem heap.currentAddress n (2 ^ 32) heap.startAddress (prev heap.mem heap.startAddress)) :=
    search_spec nodes h.tiles hlength
  rw [Heap.allocate]
  split
  · rename_i h0
    exact .zero h0
  · rename_i hn
    generalize Heap.search heap.mem heap.currentAddress n (2 ^ 32) heap.startAddress (prev heap.mem heap.startAddress) = r
      at hsearch
    cases hsearch with
    | reuse hx hfree hsize => exact .reused hx hfree hsize
    | append hno hlast => exact .appended hn hno (hlast.imp_right fun ⟨hnil, he⟩ => ⟨hnil, he.trans (h.first hnil)⟩)

/-! ### The blocks after the calls -/

/-- The blocks stay when their sizes and pointers do. -/
theorem Blocks.congr (h : Blocks heap nodes) {mem : Foundations.Memory}
    (hsize : ∀ x ∈ nodes, size mem x = size heap.mem x)
    (hlinks : ∀ x ∈ nodes, next mem x = next heap.mem x ∧ prev mem x = prev heap.mem x)
    (hfirst : nodes = [] → prev mem heap.startAddress = prev heap.mem heap.startAddress) :
    Blocks { heap with mem := mem } nodes := by
  refine ⟨h.tiles.congr fun x hx => ?_, fun x hx y hy => ?_, fun hnil => (hfirst hnil).trans (h.first hnil), h.inside⟩
  · rw [extent, extent, hsize x hx]
  · rw [(hlinks x hx).1, (hlinks x hx).2] at hy
    exact h.links x hx y hy

/-- Headers of other blocks do not see a change of the state. -/
theorem Blocks.setState_same (h : Blocks heap nodes) (hx : x ∈ nodes) (hy : y ∈ nodes) (hne : y ≠ x) (state : HeapState) :
    ∀ a ∈ Span y 13, setState heap.mem x state a = heap.mem a := fun _ ha =>
  setState_of_notMem (Set.disjoint_left.mp (h.headers_apart hy hx hne) ha)

/-- No word of a block changes with a state. -/
theorem Blocks.field_setState (h : Blocks heap nodes) (hx : x ∈ nodes) (hy : y ∈ nodes) (state : HeapState)
    {offset : BitVec 32} (ho : offset.toNat + 4 ≤ 13) (ho' : 4 ≤ (4#32 - offset).toNat) :
    field offset (HeapNode.setState heap.mem x state) y = field offset heap.mem y := by
  by_cases he : y = x
  · rw [he]
    exact HeapNode.field_setState ho' state
  · exact field_congr ho (h.setState_same hx hy he state)

/-- The size of a block does not change with its state. -/
theorem Blocks.size_setState (h : Blocks heap nodes) (hx : x ∈ nodes) (hy : y ∈ nodes) (state : HeapState) :
    size (HeapNode.setState heap.mem x state) y = size heap.mem y :=
  h.field_setState hx hy state (by decide) (by decide)

/-- Its pointers do not, either. -/
theorem Blocks.links_setState (h : Blocks heap nodes) (hx : x ∈ nodes) (hy : y ∈ nodes) (state : HeapState) :
    next (HeapNode.setState heap.mem x state) y = next heap.mem y ∧
      prev (HeapNode.setState heap.mem x state) y = prev heap.mem y :=
  ⟨h.field_setState hx hy state (by decide) (by decide), h.field_setState hx hy state (by decide) (by decide)⟩

theorem Blocks.setState (h : Blocks heap nodes) (hx : x ∈ nodes) (state : HeapState) :
    Blocks { heap with mem := HeapNode.setState heap.mem x state } nodes :=
  h.congr (fun _ hy => h.size_setState hx hy state) (fun _ hy => h.links_setState hx hy state)
    fun hnil => absurd hx (by rw [hnil]; exact List.not_mem_nil)

/-- What is past the current address is apart from the last block's header. -/
theorem Blocks.end_apart_last (h : Blocks heap nodes) {last : VirtualAddress}
    (hlast : last ∈ nodes ∨ nodes = [] ∧ last = 0#32) {k : ℕ} (hend : heap.currentAddress.toNat + k ≤ 2 ^ 32) :
    last ≠ 0#32 → Disjoint (Span heap.currentAddress k) (Span last 13) := by
  intro h0
  rcases hlast with hlast | ⟨-, rfl⟩
  · exact (h.header_apart_end hlast hend).symm
  · exact absurd rfl h0

/-- The headers of the blocks after another one has been made. -/
theorem Blocks.append_other (h : Blocks heap nodes) {last : VirtualAddress}
    (hlast : last ∈ nodes ∨ nodes = [] ∧ last = 0#32) (hend : heap.currentAddress.toNat + 13 ≤ 2 ^ 32) (n : SizeT)
    (hx : x ∈ nodes) :
    size (appended heap last n).mem x = size heap.mem x ∧
      (∀ state, hasState (appended heap last n).mem x state ↔ hasState heap.mem x state) ∧
      prev (appended heap last n).mem x = prev heap.mem x ∧
      (next (appended heap last n).mem x = next heap.mem x ∨ next (appended heap last n).mem x = heap.currentAddress) := by
  refine appendNode_other (h.header_apart_end hx hend) ?_
  by_cases he : x = last
  · exact .inl he
  · rcases hlast with hlast | ⟨hnil, -⟩
    · exact .inr (h.headers_apart hx hlast he)
    · exact absurd hx (by rw [hnil]; exact List.not_mem_nil)

/-- A block past the last one. -/
theorem Blocks.append (h : Blocks heap nodes) {last : VirtualAddress} (hlast : last ∈ nodes ∨ nodes = [] ∧ last = 0#32)
    (hroom : heap.currentAddress.toNat + 13 + n.toNat ≤ heap.endAddress.toNat) :
    Blocks (appended heap last n) (nodes ++ [heap.currentAddress]) := by
  obtain ⟨hsize, -, hprev, hnext⟩ := appendNode_self heap.mem n (h.end_apart_last hlast (by omega))
  have hother := fun {x} => h.append_other (x := x) hlast (by omega) n
  have hcurrent : (appended heap last n).currentAddress.toNat = heap.currentAddress.toNat + (13 + n.toNat) := by
    rw [appended, hsize, BitVec.toNat_add, BitVec.toNat_add, show (sizeOf).toNat = 13 from rfl]
    omega
  have hne : ∀ x ∈ nodes, x ≠ heap.currentAddress := by
    rintro x hx rfl
    have := (h.within hx).2
    omega
  refine ⟨?_, fun x hx y hy h0 => ?_, fun hnil => absurd hnil (by simp), fun _ => ?_⟩
  · have htiles : Tiles BitVec.toNat (extent (appended heap last n).mem) _ nodes _ :=
      h.tiles.congr fun x hx => by rw [extent, extent, (hother hx).1]
    have hconcat := htiles.concat (b := heap.currentAddress) rfl
    rwa [extent, appended, hsize, ← hcurrent] at hconcat
  · rw [List.mem_append, List.mem_singleton] at hx ⊢
    rcases hx with hx | rfl
    · obtain ⟨-, -, hprevx, hnextx⟩ := hother hx
      have hold : y = next heap.mem x ∨ y = prev heap.mem x → (y ∈ nodes ∨ y = heap.currentAddress) ∧ y ≠ x := fun hy =>
        ⟨.inl (h.links x hx y hy h0).1, (h.links x hx y hy h0).2⟩
      rcases hy with rfl | rfl
      · rcases hnextx with he | he
        · exact hold (.inl he)
        · exact ⟨.inr he, by rw [he]; exact (hne x hx).symm⟩
      · exact hold (.inr hprevx)
    · rcases hy with rfl | rfl
      · exact absurd hnext h0
      · have he : prev (appended heap last n).mem heap.currentAddress = last := hprev
        rw [he] at h0 ⊢
        have hin : last ∈ nodes := hlast.resolve_right fun hl => h0 hl.2
        exact ⟨.inl hin, hne last hin⟩
  · rw [hcurrent]
    change _ ≤ heap.endAddress.toNat
    omega

/-! ### `Free` -/

/-- No neighbour of the block is free. -/
def NoFreeNeighbour (mem : Foundations.Memory) (node : VirtualAddress) : Prop :=
  (next mem node ≠ 0#32 → ¬ hasState mem (next mem node) .free) ∧
    (prev mem node ≠ 0#32 → ¬ hasState mem (prev mem node) .free)

instance (mem : Foundations.Memory) (node : VirtualAddress) : Decidable (NoFreeNeighbour mem node) :=
  inferInstanceAs (Decidable (_ ∧ _))

/-- The block once `Free` has marked it. -/
def marked (mem : Foundations.Memory) (node : VirtualAddress) : Foundations.Memory :=
  if hasState mem node .reserved then HeapNode.setState mem node .free else mem

/-- `Free` marks the block, and then merges. -/
theorem free_eq (heap : Heap) (hx : x + sizeOf ≠ 0#32) :
    heap.free (x + sizeOf) = { heap with mem := Heap.mergePrev (Heap.mergeNext (marked heap.mem x) x) x } := by
  rw [Heap.free, if_neg hx]
  simp only [BitVec.add_sub_cancel, marked]

/-- Where no neighbour is free, nothing is merged. -/
theorem merge_eq_self {mem : Foundations.Memory} {node : VirtualAddress} (hno : NoFreeNeighbour mem node) :
    Heap.mergePrev (Heap.mergeNext mem node) node = mem := by
  have hnext : Heap.mergeNext mem node = mem := if_neg fun h => hno.1 h.1 h.2
  rw [hnext]
  exact if_neg fun h => hno.2 h.1 h.2

/-- The neighbours of a block are other blocks, so they stay as they are when it is marked. -/
theorem Blocks.noFreeNeighbour_setState (h : Blocks heap nodes) (hx : x ∈ nodes) (state : HeapState) :
    NoFreeNeighbour (HeapNode.setState heap.mem x state) x ↔ NoFreeNeighbour heap.mem x := by
  have hneighbour : ∀ y, y = next heap.mem x ∨ y = prev heap.mem x → y ≠ 0#32 →
      (hasState (HeapNode.setState heap.mem x state) y .free ↔ hasState heap.mem y .free) := by
    intro y hy h0
    obtain ⟨hin, hne⟩ := h.links x hx y hy h0
    exact hasState_congr (h.setState_same hx hin hne state) .free
  obtain ⟨hnext, hprev⟩ := h.links_setState hx hx state
  rw [NoFreeNeighbour, NoFreeNeighbour, hnext, hprev]
  exact and_congr (forall_congr' fun h0 => not_congr (hneighbour _ (.inl rfl) h0))
    (forall_congr' fun h0 => not_congr (hneighbour _ (.inr rfl) h0))

/-- What `Free` does to a reserved block when no neighbour is free. -/
theorem free_result (h : Blocks heap nodes) (hx : x ∈ nodes) (hstate : hasState heap.mem x .reserved)
    (hno : NoFreeNeighbour heap.mem x) :
    heap.free (x + sizeOf) = { heap with mem := HeapNode.setState heap.mem x .free } := by
  have hwithin := (h.within hx).2
  rw [free_eq heap (add_sizeOf_ne_zero (by omega)), marked, if_pos hstate,
    merge_eq_self ((h.noFreeNeighbour_setState hx .free).mpr hno)]

end EagleOS.Memory
