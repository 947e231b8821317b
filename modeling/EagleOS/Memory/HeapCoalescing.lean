import Mathlib.Data.Set.Lattice
import EagleOS.Memory.HeapFirstFit

/-!
# What `Free` makes of free neighbours

`Free` is to make one block of a block and its free neighbours. It gives the neighbour the size of the block,
without the header's; it gives it to the next one too, that starts after the block, and not to the block itself;
and it does so again when it is called again, as nothing is taken out of the list but the pointers to the block.

## What is proved

* `Neighbours.merged` — what the two halves of the merging do, when the three headers are apart.
* `free_coalesces_iff` — one block comes out of it exactly when there is nothing to merge.
* `free_uncovers` — two blocks that no one block comes out of.
* `double_free_harmless` — a second `Free` changes nothing, when there is nothing to merge.
* `double_free_grows` — a second `Free` that makes the neighbour larger again.
-/

namespace EagleOS.Memory

open ESTD Boot Foundations Arch HeapNode

/-! ### The two halves of the merging -/

/-- What the halves have in common: the block `a`, if there is one and it is free, takes the size of the block
`x`, and is linked to the block `b`. -/
def absorb (offset offset' : BitVec 32) (mem : Foundations.Memory) (x a b v : VirtualAddress) : Foundations.Memory :=
  if a ≠ 0#32 ∧ hasState mem a .free then
    let mem := setField offset (setSize mem a (size mem a + size mem x)) a v
    if b ≠ 0#32 then setField offset' mem b a else mem
  else mem

/-- The headers of a block and of those that it leads to are apart. -/
structure Neighbours (mem : Foundations.Memory) (x : VirtualAddress) : Prop where
  /-- The one after it. -/
  next_apart : next mem x ≠ 0#32 → Disjoint (Span x 13) (Span (next mem x) 13)
  /-- The one before it. -/
  prev_apart : prev mem x ≠ 0#32 → Disjoint (Span x 13) (Span (prev mem x) 13)
  /-- The two of them. -/
  both_apart : next mem x ≠ 0#32 → prev mem x ≠ 0#32 → Disjoint (Span (next mem x) 13) (Span (prev mem x) 13)

/-- What half of the merging does to the headers of the three blocks. -/
structure Absorbed (mem : Foundations.Memory) (x a b : VirtualAddress) (mem' : Foundations.Memory) : Prop where
  /-- The block itself stays as it is. -/
  header : ∀ c ∈ Span x 13, mem' c = mem c
  /-- The neighbour that is free takes its size. -/
  taken : a ≠ 0#32 → hasState mem a .free → size mem' a = size mem a + size mem x ∧ hasState mem' a .free
  /-- The other one keeps its own. -/
  kept : b ≠ 0#32 → size mem' b = size mem b ∧ (hasState mem' b .free ↔ hasState mem b .free)

section

variable {mem : Foundations.Memory} {x a b v : VirtualAddress} {offset offset' : BitVec 32}

theorem absorb_absorbed (ho : offset = 5#32 ∨ offset = 9#32) (ho' : offset' = 5#32 ∨ offset' = 9#32)
    (ha : a ≠ 0#32 → Disjoint (Span x 13) (Span a 13)) (hb : b ≠ 0#32 → Disjoint (Span x 13) (Span b 13))
    (hab : a ≠ 0#32 → b ≠ 0#32 → Disjoint (Span a 13) (Span b 13)) :
    Absorbed mem x a b (absorb offset offset' mem x a b v) := by
  have hword : ∀ {o : BitVec 32}, o = 5#32 ∨ o = 9#32 → o.toNat + 4 ≤ 13 ∧ 4 ≤ (o - 0#32).toNat ∧ 4 ≤ (0#32 - o).toNat ∧
      4 ≤ (4#32 - o).toNat := by
    rintro o (rfl | rfl) <;> decide
  obtain ⟨hin, hsize, hsize', hstate⟩ := hword ho
  obtain ⟨hin', hsizeb, hsizeb', hstateb⟩ := hword ho'
  rw [absorb]
  split
  case isFalse hno => exact ⟨fun _ _ => rfl, fun h0 hfree => absurd ⟨h0, hfree⟩ hno, fun _ => ⟨rfl, Iff.rfl⟩⟩
  rename_i hfree
  -- the neighbour, before the other one is linked to it
  generalize hmem : setField offset (setSize mem a (size mem a + size mem x)) a v = mem₁
  have hout : ∀ {c}, c ∉ Span a 13 → mem₁ c = mem c := fun hc => by
    rw [← hmem, setField_of_notMem fun hin₁ => hc (span_field_subset hin hin₁), setSize,
      setField_of_notMem fun hin₁ => hc (span_field_subset (by decide) hin₁)]
  have htaken : size mem₁ a = size mem a + size mem x ∧ hasState mem₁ a .free := by
    rw [← hmem, size, field_setField_of_apart hsize hsize', setSize, field_setField, hasState_setField hstate,
      hasState_setField (by decide)]
    exact ⟨rfl, hfree.2⟩
  have hother : ∀ {y}, Disjoint (Span y 13) (Span a 13) → ∀ c ∈ Span y 13, mem₁ c = mem c := fun hy c hc =>
    hout (Set.disjoint_left.mp hy hc)
  have hx := hother (ha hfree.1)
  split
  · rename_i h0
    have hlink : ∀ {y}, Disjoint (Span y 13) (Span b 13) → ∀ c ∈ Span y 13, setField offset' mem₁ b a c = mem₁ c :=
      fun hy c hc => setField_of_notMem fun hin₁ => Set.disjoint_left.mp hy hc (span_field_subset hin' hin₁)
    refine ⟨fun c hc => (hlink (hb h0) c hc).trans (hx c hc), fun _ _ => ?_, fun _ => ?_⟩
    · have hsame := hlink (hab hfree.1 h0)
      exact ⟨(size_congr hsame).trans htaken.1, (hasState_congr hsame _).mpr htaken.2⟩
    · have hsame := hother (hab hfree.1 h0).symm
      exact ⟨(field_setField_of_apart hsizeb hsizeb').trans (size_congr hsame),
        (hasState_setField hstateb _).trans (hasState_congr hsame _)⟩
  · rename_i h0
    exact ⟨hx, fun _ _ => htaken, fun h => absurd h h0⟩

/-- The next block, when it is free, takes the size of the block. -/
theorem Neighbours.mergeNext (h : Neighbours mem x) :
    Absorbed mem x (next mem x) (prev mem x) (Heap.mergeNext mem x) :=
  absorb_absorbed (.inr rfl) (.inl rfl) h.next_apart h.prev_apart h.both_apart

/-- So does the one before it. -/
theorem Neighbours.mergePrev (h : Neighbours mem x) :
    Absorbed mem x (prev mem x) (next mem x) (Heap.mergePrev mem x) :=
  absorb_absorbed (.inl rfl) (.inr rfl) h.prev_apart h.next_apart fun hp hn => (h.both_apart hn hp).symm

/-- The headers stay apart as long as the block's own stays as it is. -/
theorem Neighbours.congr {mem' : Foundations.Memory} (h : Neighbours mem x) (hsame : ∀ c ∈ Span x 13, mem' c = mem c) :
    Neighbours mem' x := by
  refine ⟨?_, ?_, ?_⟩
  · rw [next_congr hsame]
    exact h.next_apart
  · rw [prev_congr hsame]
    exact h.prev_apart
  · rw [next_congr hsame, prev_congr hsame]
    exact h.both_apart

/-- What the merging does to a free neighbour: it takes the size of the block, and stays free. -/
theorem Neighbours.merged (h : Neighbours mem x) :
    (∀ c ∈ Span x 13, Heap.mergePrev (Heap.mergeNext mem x) x c = mem c) ∧
      ∀ y, y = next mem x ∨ y = prev mem x → y ≠ 0#32 → hasState mem y .free →
        size (Heap.mergePrev (Heap.mergeNext mem x) x) y = size mem y + size mem x ∧
          hasState (Heap.mergePrev (Heap.mergeNext mem x) x) y .free := by
  have hfirst := h.mergeNext
  have hsecond := (h.congr hfirst.header).mergePrev
  rw [next_congr hfirst.header, prev_congr hfirst.header] at hsecond
  refine ⟨fun c hc => (hsecond.header c hc).trans (hfirst.header c hc), fun y hy h0 hfree => ?_⟩
  rcases hy with rfl | rfl
  · obtain ⟨hsize, hstate⟩ := hfirst.taken h0 hfree
    obtain ⟨hsize', hstate'⟩ := hsecond.kept h0
    exact ⟨hsize'.trans hsize, hstate'.mpr hstate⟩
  · obtain ⟨hsize, hstate⟩ := hfirst.kept h0
    obtain ⟨hsize', hstate'⟩ := hsecond.taken h0 (hstate.mpr hfree)
    exact ⟨by rw [hsize', hsize, size_congr hfirst.header], hstate'⟩

end

/-! ### The neighbours in a well-formed heap -/

section

variable {heap : Heap} {nodes : List VirtualAddress} {x y : VirtualAddress}

theorem extent_pos (mem : Foundations.Memory) (x : VirtualAddress) : 0 < extent mem x :=
  Nat.lt_of_lt_of_le (by decide) (Nat.le_add_right 13 _)

/-- The next block starts where the block ends. -/
theorem WellFormed.next_iff (h : WellFormed heap nodes) (hx : x ∈ nodes) (hy : y ∈ nodes) :
    next heap.mem x = y ↔ x.toNat + extent heap.mem x = y.toNat :=
  (h.linked.next_eq_iff hx (h.ne_zero hy)).trans (h.tiles.infix_iff (fun b _ => extent_pos heap.mem b) hx hy)

/-- The one before it ends where the block starts. -/
theorem WellFormed.prev_iff (h : WellFormed heap nodes) (hx : x ∈ nodes) (hy : y ∈ nodes) :
    prev heap.mem x = y ↔ y.toNat + extent heap.mem y = x.toNat :=
  (h.linked.prev_eq_iff hx (h.ne_zero hy)).trans (h.tiles.infix_iff (fun b _ => extent_pos heap.mem b) hy hx)

/-- The neighbours of a block are other blocks. -/
theorem WellFormed.neighbour_mem (h : WellFormed heap nodes) (hx : x ∈ nodes)
    (hy : y = next heap.mem x ∨ y = prev heap.mem x) (h0 : y ≠ 0#32) : y ∈ nodes ∧ y ≠ x :=
  (h.blocks (Nat.le_refl _)).links x hx y hy h0

theorem WellFormed.neighbours (h : WellFormed heap nodes) (hx : x ∈ nodes) : Neighbours heap.mem x := by
  have happart : ∀ {y z}, y ∈ nodes → z ∈ nodes → y ≠ z → Disjoint (Span y 13) (Span z 13) :=
    (h.blocks (Nat.le_refl _)).headers_apart
  have hin := fun y => h.neighbour_mem hx (y := y)
  refine ⟨fun h0 => ?_, fun h0 => ?_, fun hn0 hp0 => ?_⟩
  · obtain ⟨hn, hne⟩ := hin _ (.inl rfl) h0
    exact happart hx hn hne.symm
  · obtain ⟨hp, hne⟩ := hin _ (.inr rfl) h0
    exact happart hx hp hne.symm
  · obtain ⟨hn, -⟩ := hin _ (.inl rfl) hn0
    obtain ⟨hp, -⟩ := hin _ (.inr rfl) hp0
    have hends := (h.next_iff hx hn).mp rfl
    have hstarts := (h.prev_iff hx hp).mp rfl
    have hpos := extent_pos heap.mem x
    have hpos' := extent_pos heap.mem (prev heap.mem x)
    refine happart hn hp fun he => ?_
    rw [he] at hends
    omega

/-- The block `y` ends where the block `x` starts, or starts where it ends. -/
def AddressNeighbour (mem : Foundations.Memory) (x y : VirtualAddress) : Prop :=
  y.toNat + extent mem y = x.toNat ∨ x.toNat + extent mem x = y.toNat

/-- In a well-formed heap the neighbours by address are those that the header leads to. -/
theorem WellFormed.noFreeNeighbour_iff (h : WellFormed heap nodes) (hx : x ∈ nodes) :
    NoFreeNeighbour heap.mem x ↔ ∀ y ∈ nodes, AddressNeighbour heap.mem x y → ¬ hasState heap.mem y .free := by
  constructor
  · rintro ⟨hnext, hprev⟩ y hy (hends | hstarts)
    · rw [← (h.prev_iff hx hy).mpr hends]
      refine hprev ?_
      rw [(h.prev_iff hx hy).mpr hends]
      exact h.ne_zero hy
    · rw [← (h.next_iff hx hy).mpr hstarts]
      refine hnext ?_
      rw [(h.next_iff hx hy).mpr hstarts]
      exact h.ne_zero hy
  · refine fun hno => ⟨fun h0 => ?_, fun h0 => ?_⟩
    · obtain ⟨hin, -⟩ := h.neighbour_mem hx (.inl rfl) h0
      exact hno _ hin (.inr ((h.next_iff hx hin).mp rfl))
    · obtain ⟨hin, -⟩ := h.neighbour_mem hx (.inr rfl) h0
      exact hno _ hin (.inl ((h.prev_iff hx hin).mp rfl))

theorem WellFormed.add_ne_zero (h : WellFormed heap nodes) (hx : x ∈ nodes) : x + sizeOf ≠ 0#32 := by
  have hwithin : x.toNat + (13 + (size heap.mem x).toNat) ≤ heap.currentAddress.toNat := (h.tiles.within hx).2
  have hlt := heap.currentAddress.isLt
  exact add_sizeOf_ne_zero (by omega)

/-- What `Free` does to the headers of a reserved block and of its free neighbours. -/
theorem WellFormed.free_merges (h : WellFormed heap nodes) (hx : x ∈ nodes) (hstate : hasState heap.mem x .reserved) :
    (∀ c ∈ Span x 13, (heap.free (x + sizeOf)).mem c = HeapNode.setState heap.mem x .free c) ∧
      ∀ y, y = next heap.mem x ∨ y = prev heap.mem x → y ≠ 0#32 → hasState heap.mem y .free →
        size (heap.free (x + sizeOf)).mem y = size heap.mem y + size heap.mem x ∧
          hasState (heap.free (x + sizeOf)).mem y .free := by
  obtain ⟨hnext, hprev⟩ := h.links_setState hx hx .free
  obtain ⟨hheader, htaken⟩ := ((h.setState hx .free).neighbours hx).merged
  rw [free_eq heap (h.add_ne_zero hx), marked, if_pos hstate]
  refine ⟨hheader, fun y hy h0 hfree => ?_⟩
  obtain ⟨hin, hne⟩ := h.neighbour_mem hx hy h0
  rw [← hnext, ← hprev] at hy
  obtain ⟨hsize, hfree'⟩ := htaken y hy h0 ((h.hasState_setState_of_ne hx hin hne .free).mpr hfree)
  refine ⟨hsize.trans ?_, hfree'⟩
  exact congrArg₂ (· + ·) (h.size_setState hx hin .free) (h.size_setState hx hx .free)

/-- `Free` changes nothing but the state in the header of the block itself. -/
theorem WellFormed.free_self (h : WellFormed heap nodes) (hx : x ∈ nodes) (hstate : hasState heap.mem x .reserved) :
    size (heap.free (x + sizeOf)).mem x = size heap.mem x ∧ next (heap.free (x + sizeOf)).mem x = next heap.mem x ∧
      prev (heap.free (x + sizeOf)).mem x = prev heap.mem x ∧ hasState (heap.free (x + sizeOf)).mem x .free := by
  obtain ⟨hheader, -⟩ := h.free_merges hx hstate
  obtain ⟨hnext, hprev⟩ := h.links_setState hx hx .free
  exact ⟨(size_congr hheader).trans (h.size_setState hx hx .free), (next_congr hheader).trans hnext,
    (prev_congr hheader).trans hprev, (hasState_congr hheader _).mpr (hasState_setState.mpr rfl)⟩

/-- When no neighbour is free, `Free` only marks the block. -/
theorem WellFormed.free_eq (h : WellFormed heap nodes) (hx : x ∈ nodes) (hstate : hasState heap.mem x .reserved)
    (hno : NoFreeNeighbour heap.mem x) :
    heap.free (x + sizeOf) = { heap with mem := HeapNode.setState heap.mem x .free } := by
  have hno' : NoFreeNeighbour (HeapNode.setState heap.mem x .free) x :=
    ((h.blocks (Nat.le_refl _)).noFreeNeighbour_setState hx .free).mpr hno
  rw [Memory.free_eq heap (h.add_ne_zero hx), marked, if_pos hstate, merge_eq_self hno']

end

/-! ### One block for those that are free -/

/-- The bytes of a block, its header included. -/
def interval (mem : Foundations.Memory) (y : VirtualAddress) : Set ℕ := Set.Ico y.toNat (y.toNat + extent mem y)

/-- What one block is to be made of when `x` is freed: itself, and its free neighbours. -/
def Joins (mem : Foundations.Memory) (x y : VirtualAddress) : Prop :=
  y = x ∨ AddressNeighbour mem x y ∧ hasState mem y .free

/-- The block `x` of a heap and its free neighbours have become the block `merged`. -/
structure Coalesced (heap : Heap) (nodes : List VirtualAddress) (x : VirtualAddress) (heap' : Heap)
    (nodes' : List VirtualAddress) (merged : VirtualAddress) : Prop where
  /-- The heap is well formed. -/
  wellFormed : WellFormed heap' nodes'
  /-- Its blocks are the new one, and those that were not joined. -/
  mem_iff : ∀ y, y ∈ nodes' ↔ y = merged ∨ y ∈ nodes ∧ ¬ Joins heap.mem x y
  /-- The new one is free. -/
  free : hasState heap'.mem merged .free
  /-- It covers those that it is made of. -/
  covers : interval heap'.mem merged = ⋃ y ∈ {y | y ∈ nodes ∧ Joins heap.mem x y}, interval heap.mem y
  /-- The others stay as they are, but for their pointers to what is not there any more. -/
  kept : ∀ y ∈ nodes, ¬ Joins heap.mem x y → ∀ a ∈ Span y (extent heap.mem y),
    (Joins heap.mem x (next heap.mem y) → next heap.mem y ≠ merged → a ∉ Span (y + 5#32) 4) →
    (Joins heap.mem x (prev heap.mem y) → prev heap.mem y ≠ merged → a ∉ Span (y + 9#32) 4) → heap'.mem a = heap.mem a

section

variable {heap heap' : Heap} {nodes nodes' : List VirtualAddress} {x y z merged : VirtualAddress}

/-- The new block is the lowest of those that it is made of, and reaches up to the end of each. -/
theorem Coalesced.reaches (hc : Coalesced heap nodes x heap' nodes' merged) (hy : y ∈ nodes) (hjoins : Joins heap.mem x y)
    (hlow : ∀ w ∈ nodes, Joins heap.mem x w → y.toNat ≤ w.toNat) (hz : z ∈ nodes) (hzjoins : Joins heap.mem x z) :
    z.toNat + extent heap.mem z ≤ y.toNat + extent heap'.mem y := by
  have hmem : ∀ a, (merged.toNat ≤ a ∧ a < merged.toNat + extent heap'.mem merged) ↔
      ∃ w, (w ∈ nodes ∧ Joins heap.mem x w) ∧ w.toNat ≤ a ∧ a < w.toNat + extent heap.mem w := by
    intro a
    have hcovers := Set.ext_iff.mp hc.covers a
    simpa only [interval, Set.mem_iUnion, Set.mem_ofPred_eq, exists_prop, Set.mem_Ico] using hcovers
  have hpos := extent_pos heap'.mem merged
  have hypos := extent_pos heap.mem y
  have hzpos := extent_pos heap.mem z
  obtain ⟨w, ⟨hw, hwjoins⟩, hle, -⟩ := (hmem merged.toNat).mp ⟨Nat.le_refl _, by omega⟩
  have hwlow := hlow w hw hwjoins
  have hfirst := (hmem y.toNat).mpr ⟨y, ⟨hy, hjoins⟩, Nat.le_refl _, by omega⟩
  obtain rfl : merged = y := BitVec.eq_of_toNat_eq (by omega)
  have hlast := (hmem (z.toNat + extent heap.mem z - 1)).mpr ⟨z, ⟨hz, hzjoins⟩, by omega, by omega⟩
  omega

/-- Where there is something to merge, no one block comes out of it. -/
theorem Coalesced.noFreeNeighbour (h : WellFormed heap nodes) (hx : x ∈ nodes) (hstate : hasState heap.mem x .reserved)
    (hc : Coalesced heap nodes x (heap.free (x + sizeOf)) nodes' merged) : NoFreeNeighbour heap.mem x := by
  obtain ⟨-, htaken⟩ := h.free_merges hx hstate
  have hself := (h.free_self hx hstate).1
  have hbefore : ∀ {w}, w ∈ nodes → w.toNat + extent heap.mem w = x.toNat → w = prev heap.mem x := fun hw hends =>
    ((h.prev_iff hx hw).mpr hends).symm
  have hpos := extent_pos heap.mem x
  -- the block before it would have to take in the header, too
  have hno : prev heap.mem x ≠ 0#32 → ¬ hasState heap.mem (prev heap.mem x) .free := by
    intro h0 hfree
    obtain ⟨hp, -⟩ := h.neighbour_mem hx (.inr rfl) h0
    have hends := (h.prev_iff hx hp).mp rfl
    have hreach := hc.reaches hp (.inr ⟨.inl hends, hfree⟩) (fun w hw hjoins => ?_) hx (.inl rfl)
    · have hsize := congrArg BitVec.toNat (htaken _ (.inr rfl) h0 hfree).1
      rw [BitVec.toNat_add] at hsize
      simp only [extent, hsize] at hreach hends
      omega
    · rcases hjoins with rfl | ⟨hw' | hw', -⟩
      · omega
      · rw [hbefore hw hw']
      · omega
  refine ⟨fun h0 hfree => ?_, hno⟩
  -- the block itself would have to take in the one after it
  obtain ⟨hn, -⟩ := h.neighbour_mem hx (.inl rfl) h0
  have hstarts := (h.next_iff hx hn).mp rfl
  have hnpos := extent_pos heap.mem (next heap.mem x)
  have hreach := hc.reaches hx (.inl rfl) (fun w hw hjoins => ?_) hn (.inr ⟨.inr hstarts, hfree⟩)
  · simp only [extent, hself] at hreach hstarts hnpos
    omega
  · rcases hjoins with rfl | ⟨hw' | hw', hwfree⟩
    · exact Nat.le_refl _
    · rw [hbefore hw hw'] at hwfree
      refine absurd hwfree (hno ?_)
      rw [← hbefore hw hw']
      exact h.ne_zero hw
    · omega

/-- Where there is nothing to merge, it is the block itself. -/
theorem WellFormed.coalesced (h : WellFormed heap nodes) (hx : x ∈ nodes) (hstate : hasState heap.mem x .reserved)
    (hno : NoFreeNeighbour heap.mem x) : Coalesced heap nodes x (heap.free (x + sizeOf)) nodes x := by
  have hjoins : ∀ y ∈ nodes, (Joins heap.mem x y ↔ y = x) := fun y hy =>
    or_iff_left fun hjoin => (h.noFreeNeighbour_iff hx).mp hno y hy hjoin.1 hjoin.2
  rw [h.free_eq hx hstate hno]
  refine ⟨h.setState hx .free, fun y => ?_, hasState_setState.mpr rfl, ?_, fun y hy hne a ha _ _ => ?_⟩
  · constructor
    · intro hy
      by_cases he : y = x
      · exact .inl he
      · exact .inr ⟨hy, fun hjoin => he ((hjoins y hy).mp hjoin)⟩
    · rintro (rfl | ⟨hy, -⟩)
      · exact hx
      · exact hy
  · have hset : {y | y ∈ nodes ∧ Joins heap.mem x y} = {x} := by
      ext y
      rw [Set.mem_ofPred_eq, Set.mem_singleton_iff]
      constructor
      · exact fun hy => (hjoins y hy.1).mp hy.2
      · rintro rfl
        exact ⟨hx, .inl rfl⟩
    rw [hset, Set.biUnion_singleton, interval, interval, extent, extent, h.size_setState hx hx .free]
  · have hyx : y ≠ x := fun he => hne ((hjoins y hy).mpr he)
    have hapart := (h.blocks (Nat.le_refl _)).apart hy hx hyx
    exact setState_of_notMem (Set.disjoint_left.mp (hapart.mono_right (Span.mono (by omega))) ha)

/-- **Coalescing**: `Free` of a reserved block of a well-formed heap makes one free block of it and its free
neighbours, and leaves the rest, exactly when it has no free neighbour: when no free block ends where it starts,
and none starts where it ends. -/
theorem free_coalesces_iff (h : WellFormed heap nodes) (hx : x ∈ nodes) (hstate : hasState heap.mem x .reserved) :
    (∃ nodes' merged, Coalesced heap nodes x (heap.free (x + sizeOf)) nodes' merged) ↔
      ∀ y ∈ nodes, AddressNeighbour heap.mem x y → ¬ hasState heap.mem y .free := by
  rw [← h.noFreeNeighbour_iff hx]
  constructor
  · rintro ⟨nodes', merged, hc⟩
    exact hc.noFreeNeighbour h hx hstate
  · exact fun hno => ⟨nodes, x, h.coalesced hx hstate hno⟩

end

/-- Of three blocks the one in the middle is freed. -/
theorem free_coalesces_heap4096 :
    ∃ s nodes nodes' merged, RunsWhere HeapClient.Step (fun s c => s.Fits c ∧ s.Unmerged c) ⟨HeapClient.heap4096, []⟩ s ∧
      s.live = [(0xC1000045#32, 40#32), (0xC100002E#32, 10#32), (0xC100000D#32, 20#32)] ∧ 0xC1000021#32 ∈ nodes ∧
      Coalesced s.heap nodes 0xC1000021#32 (s.heap.free (0xC1000021#32 + sizeOf)) nodes' merged := by
  obtain ⟨k, k', hinit⟩ := HeapClient.exists_init_heap4096
  obtain ⟨s, hrun, hfacts⟩ := HeapClient.exists_run_of (fun s => (s.live, decide (NoFreeNeighbour s.heap.mem 0xC1000021#32)))
    [.allocate 20#32, .allocate 10#32, .allocate 40#32]
    (r := ([(0xC1000045#32, 40#32), (0xC100002E#32, 10#32), (0xC100000D#32, 20#32)], true)) (by decide +kernel)
  obtain ⟨hlive, hno⟩ := Prod.mk.inj hfacts
  obtain ⟨nodes, hinv, hw⟩ := HeapClient.wellFormed_of_runs hinit hrun
  obtain ⟨x, hx, hp, hstate, -⟩ := hinv.live (0xC100002E#32, 10#32) (by simp [hlive])
  obtain rfl : x = 0xC1000021#32 := (BitVec.eq_sub_iff_add_eq.mpr hp.symm).trans (by decide)
  obtain ⟨nodes', merged, hc⟩ := (free_coalesces_iff hw hx hstate).mpr
    ((hw.noFreeNeighbour_iff hx).mp (of_decide_eq_true hno))
  exact ⟨s, nodes, nodes', merged, hrun, hlive, hx, hc⟩

/-- Of two blocks the first is freed. -/
theorem HeapClient.exists_run_first_freed :
    ∃ s, RunsWhere Step (fun s c => s.Fits c ∧ s.Unmerged c) ⟨heap4096, []⟩ s ∧ s.live = [(0xC100002E#32, 20#32)] ∧
      decide (NoFreeNeighbour s.heap.mem 0xC1000021#32) = false := by
  obtain ⟨s, hrun, hfacts⟩ := exists_run_of (fun s => (s.live, decide (NoFreeNeighbour s.heap.mem 0xC1000021#32)))
    [.allocate 20#32, .allocate 20#32, .free 0xC100000D#32 20#32] (r := ([(0xC100002E#32, 20#32)], false)) (by decide +kernel)
  exact ⟨s, hrun, Prod.mk.inj hfacts⟩

/-- Of two blocks the first and then the second are freed: no one block comes out of it. -/
theorem free_uncovers :
    ∃ s nodes, RunsWhere HeapClient.Step (fun s c => s.Fits c ∧ s.Unmerged c) ⟨HeapClient.heap4096, []⟩ s ∧
      WellFormed s.heap nodes ∧ 0xC1000021#32 ∈ nodes ∧ hasState s.heap.mem 0xC1000021#32 .reserved ∧
      ∀ nodes' merged, ¬ Coalesced s.heap nodes 0xC1000021#32 (s.heap.free (0xC1000021#32 + sizeOf)) nodes' merged := by
  obtain ⟨k, k', hinit⟩ := HeapClient.exists_init_heap4096
  obtain ⟨s, hrun, hlive, hfree⟩ := HeapClient.exists_run_first_freed
  obtain ⟨nodes, hinv, hw⟩ := HeapClient.wellFormed_of_runs hinit hrun
  obtain ⟨x, hx, hp, hstate, -⟩ := hinv.live (0xC100002E#32, 20#32) (by rw [hlive]; exact List.mem_singleton_self _)
  obtain rfl : x = 0xC1000021#32 := (BitVec.eq_sub_iff_add_eq.mpr hp.symm).trans (by decide)
  exact ⟨s, nodes, hrun, hw, hx, hstate, fun nodes' merged hc =>
    of_decide_eq_false hfree (hc.noFreeNeighbour hw hx hstate)⟩

/-! ### `Free` twice -/

section

variable {heap : Heap} {nodes : List VirtualAddress} {mem : Foundations.Memory} {x y p : VirtualAddress}

/-- A block that is free is not marked again. -/
theorem marked_of_free (hfree : hasState mem x .free) : marked mem x = mem :=
  if_neg fun hreserved => absurd (HeapState.byte_inj.mp (hfree.symm.trans hreserved)) (by decide)

theorem marked_marked (mem : Foundations.Memory) (x : VirtualAddress) : marked (marked mem x) x = marked mem x := by
  by_cases hreserved : hasState mem x .reserved
  · rw [marked.eq_def mem, if_pos hreserved, marked_of_free (hasState_setState.mpr rfl)]
  · rw [marked.eq_def mem, if_neg hreserved, marked, if_neg hreserved]

/-- The header leads neither to a free block, nor to the block itself, that `Free` is to mark. -/
def NothingToMerge (mem : Foundations.Memory) (x : VirtualAddress) : Prop :=
  ∀ y, y = next mem x ∨ y = prev mem x → y ≠ 0#32 → ¬ hasState mem y .free ∧ ¬ (y = x ∧ hasState mem x .reserved)

/-- The blocks that are free once a block is marked. -/
theorem hasState_marked : hasState (marked mem x) y .free ↔ hasState mem y .free ∨ y = x ∧ hasState mem x .reserved := by
  by_cases hreserved : hasState mem x .reserved
  · rw [marked, if_pos hreserved, and_iff_left hreserved]
    by_cases he : y = x
    · exact iff_of_true (by rw [he]; exact hasState_setState.mpr rfl) (.inr he)
    · have hsame : setState mem x .free (y + 4#32) = mem (y + 4#32) :=
        Memory.store8_of_ne fun h => he ((BitVec.add_left_inj _).mp h)
      rw [or_iff_left he, hasState, hasState, hsame]
  · rw [marked, if_neg hreserved]
    exact (or_iff_left fun h => hreserved h.2).symm

/-- Nothing is to be merged when the block that is marked has no free neighbour. -/
theorem noFreeNeighbour_marked : NoFreeNeighbour (marked mem x) x ↔ NothingToMerge mem x := by
  have hlinks : next (marked mem x) x = next mem x ∧ prev (marked mem x) x = prev mem x := by
    rw [marked]
    split
    · exact ⟨field_setState (by decide) .free, field_setState (by decide) .free⟩
    · exact ⟨rfl, rfl⟩
  simp only [NoFreeNeighbour, NothingToMerge, hlinks, hasState_marked, not_or, or_imp, forall_and, forall_eq]
  exact and_and_and_comm

/-- Where nothing is to be merged, a second `Free` finds nothing to do. -/
theorem free_free (hno : NothingToMerge heap.mem (p - sizeOf)) : (heap.free p).free p = heap.free p := by
  by_cases h0 : p = 0#32
  · rw [h0]
    rfl
  · obtain ⟨x, rfl⟩ : ∃ x, p = x + sizeOf := ⟨p - sizeOf, (BitVec.sub_add_cancel p sizeOf).symm⟩
    rw [BitVec.add_sub_cancel, ← noFreeNeighbour_marked] at hno
    rw [free_eq heap h0, merge_eq_self hno, free_eq _ h0, marked_marked, merge_eq_self hno]

/-- In a well-formed heap the header leads to other blocks only. -/
theorem WellFormed.nothingToMerge_iff (h : WellFormed heap nodes) (hx : x ∈ nodes) :
    NothingToMerge heap.mem x ↔ NoFreeNeighbour heap.mem x := by
  constructor
  · exact fun hno => ⟨fun h0 => (hno _ (.inl rfl) h0).1, fun h0 => (hno _ (.inr rfl) h0).1⟩
  · rintro ⟨hnext, hprev⟩ y hy h0
    refine ⟨?_, fun he => (h.neighbour_mem hx hy h0).2 he.1⟩
    rcases hy with rfl | rfl
    · exact hnext h0
    · exact hprev h0

/-- Where a neighbour is free, a second `Free` makes it larger again. -/
theorem WellFormed.noFreeNeighbour_of_free_free (h : WellFormed heap nodes) (hx : x ∈ nodes)
    (hstate : hasState heap.mem x .reserved) (hpos : size heap.mem x ≠ 0#32)
    (htwice : (heap.free (x + sizeOf)).free (x + sizeOf) = heap.free (x + sizeOf)) : NoFreeNeighbour heap.mem x := by
  obtain ⟨hheader, htaken⟩ := h.free_merges hx hstate
  obtain ⟨hsize, hnext, hprev, hfree⟩ := h.free_self hx hstate
  obtain ⟨-, hagain⟩ := (((h.setState hx .free).neighbours hx).congr hheader).merged
  rw [Memory.free_eq _ (h.add_ne_zero hx), marked_of_free hfree] at htwice
  have hmem : Heap.mergePrev (Heap.mergeNext (heap.free (x + sizeOf)).mem x) x = (heap.free (x + sizeOf)).mem :=
    congrArg Heap.mem htwice
  have hno : ∀ y, y = next heap.mem x ∨ y = prev heap.mem x → y ≠ 0#32 → ¬ hasState heap.mem y .free := by
    intro y hy h0 hyfree
    rw [← hnext, ← hprev] at hy
    have hgrown := (hagain y hy h0 (htaken y (by rwa [hnext, hprev] at hy) h0 hyfree).2).1
    rw [hmem, hsize] at hgrown
    exact hpos (BitVec.self_eq_add_right.mp hgrown)
  exact ⟨hno _ (.inl rfl), hno _ (.inr rfl)⟩

end

namespace HeapClient

section

variable {util : MemoryUtil} {k k' : Kernel} {mem : Foundations.Memory} {sizeBytes : SizeT} {heap : Heap}
  {s t : HeapClient} {nodes : List VirtualAddress} {x : VirtualAddress × SizeT}

/-- What is live is not empty, after one call. -/
theorem Step.live_ne_zero {c : HeapCall} (hs : Step s c t) (h : ∀ x ∈ s.live, x.2 ≠ 0#32) : ∀ x ∈ t.live, x.2 ≠ 0#32 := by
  cases c with
  | allocate n =>
    rw [Step, HeapClient.step] at hs
    by_cases hn : n = 0#32
    · -- nothing is asked for, and nothing is given
      subst hn
      cases hs
      exact h
    · split at hs
      · cases hs
      · cases hs
        split
        · exact h
        · rintro x (_ | ⟨_, hx⟩)
          · exact hn
          · exact h x hx
  | free p n =>
    obtain ⟨-, rfl⟩ := hs.of_free
    exact fun x hx => h x (List.mem_of_mem_erase hx)
  | write a value =>
    obtain ⟨-, rfl⟩ := hs.of_write
    exact h

/-- Nor is it after a run. -/
theorem live_ne_zero_of_runs {ok : HeapClient → HeapCall → Prop} (hrun : RunsWhere Step ok ⟨heap, []⟩ s) :
    ∀ x ∈ s.live, x.2 ≠ 0#32 :=
  hrun.invariant (P := fun s => ∀ x ∈ s.live, x.2 ≠ 0#32) (fun _ _ _ h _ hstep => hstep.live_ne_zero h)
    fun _ hx => absurd hx List.not_mem_nil

/-- A second `Free` of what is live makes a free neighbour larger again. -/
theorem Inv.noFreeNeighbour_of_free_free (h : Inv s nodes) (hw : WellFormed s.heap nodes) (hx : x ∈ s.live)
    (hne : x.2 ≠ 0#32) (htwice : (s.heap.free x.1).free x.1 = s.heap.free x.1) :
    NoFreeNeighbour s.heap.mem (x.1 - sizeOf) := by
  obtain ⟨y, hy, hp, hstate, hsize⟩ := h.live x hx
  rw [hp] at htwice ⊢
  rw [BitVec.add_sub_cancel]
  refine hw.noFreeNeighbour_of_free_free hy hstate (fun h0 => hne ?_) htwice
  rw [h0] at hsize
  exact BitVec.le_zero_iff.mp hsize

/-- **A double free is harmless** where nothing is merged: in every state that clients reach a second `Free` of what
is live changes nothing, when the block's header leads to no free block; and while nothing has been merged and every
request has had room, only then. -/
theorem double_free_harmless (hinit : Heap.init util k mem sizeBytes = (some heap, k')) (s : HeapClient)
    (x : VirtualAddress × SizeT) (hx : x ∈ s.live) :
    (Runs Step ⟨heap, []⟩ s → NothingToMerge s.heap.mem (x.1 - sizeOf) → (s.heap.free x.1).free x.1 = s.heap.free x.1) ∧
    (RunsWhere Step (fun s c => s.Fits c ∧ s.Unmerged c) ⟨heap, []⟩ s →
      ((s.heap.free x.1).free x.1 = s.heap.free x.1 ↔ NothingToMerge s.heap.mem (x.1 - sizeOf))) := by
  refine ⟨fun _ hno => free_free hno, fun hrun => ?_⟩
  obtain ⟨nodes, hinv, hw⟩ := wellFormed_of_runs hinit hrun
  constructor
  · intro htwice
    have hno := hinv.noFreeNeighbour_of_free_free hw hx (live_ne_zero_of_runs hrun x hx) htwice
    obtain ⟨y, hy, hp, -, -⟩ := hinv.live x hx
    rw [hp, BitVec.add_sub_cancel] at hno ⊢
    exact (hw.nothingToMerge_iff hy).mpr hno
  · exact free_free

end

/-- Of two blocks that are both reserved the second is freed twice. -/
theorem double_free_harmless_heap4096 :
    ∃ s, RunsWhere Step (fun s c => s.Fits c ∧ s.Unmerged c) ⟨heap4096, []⟩ s ∧ (0xC100002E#32, 20#32) ∈ s.live ∧
      (s.heap.free 0xC100002E#32).free 0xC100002E#32 = s.heap.free 0xC100002E#32 := by
  obtain ⟨k, k', hinit⟩ := exists_init_heap4096
  obtain ⟨s, hrun, hfacts⟩ := exists_run_of (fun s => (s.live, decide (NoFreeNeighbour s.heap.mem 0xC1000021#32)))
    [.allocate 20#32, .allocate 20#32] (r := ([(0xC100002E#32, 20#32), (0xC100000D#32, 20#32)], true)) (by decide +kernel)
  obtain ⟨hlive, hno⟩ := Prod.mk.inj hfacts
  have hx : (0xC100002E#32, 20#32) ∈ s.live := by rw [hlive]; exact List.mem_cons_self
  obtain ⟨nodes, hinv, hw⟩ := wellFormed_of_runs hinit hrun
  obtain ⟨y, hy, hp, -, -⟩ := hinv.live _ hx
  obtain rfl : y = 0xC1000021#32 := (BitVec.eq_sub_iff_add_eq.mpr hp.symm).trans (by decide)
  have hmerge := (hw.nothingToMerge_iff hy).mpr (of_decide_eq_true hno)
  exact ⟨s, hrun, hx, ((double_free_harmless hinit s _ hx).2 hrun).mpr hmerge⟩

/-- When the first of two blocks is free, the second `Free` of the second one makes it larger once more. -/
theorem double_free_grows :
    ∃ k k' s, Heap.init (MemoryUtil.init bootInfo512) k (fun _ => 0#8) 4096#32 = (some heap4096, k') ∧
      Runs Step ⟨heap4096, []⟩ s ∧ (0xC100002E#32, 20#32) ∈ s.live ∧
      (s.heap.free 0xC100002E#32).free 0xC100002E#32 ≠ s.heap.free 0xC100002E#32 := by
  obtain ⟨k, k', hinit⟩ := exists_init_heap4096
  obtain ⟨s, hrun, hlive, hfree⟩ := exists_run_first_freed
  obtain ⟨nodes, hinv, hw⟩ := wellFormed_of_runs hinit hrun
  have hx : (0xC100002E#32, 20#32) ∈ s.live := by rw [hlive]; exact List.mem_singleton_self _
  refine ⟨k, k', s, hinit, hrun.mono fun _ _ _ => trivial, hx, fun htwice => ?_⟩
  have hno := hinv.noFreeNeighbour_of_free_free hw hx (live_ne_zero_of_runs hrun _ hx) htwice
  exact of_decide_eq_false hfree hno

end HeapClient

end EagleOS.Memory
