import EagleOS.Foundations.Buffers
import EagleOS.Memory.KMalloc

/-!
# `new[]` and `delete[]` on the kernel's heap

`operator new[]` is `KMalloc`, and `operator delete[]` is `KFree`.

## The model

`HeapBuffers` is the heap, with what is allocated on it, and the blocks that `new[]` has returned: a pointer into a block is the
address of the block and an offset. An access is inside when its address is in a block that has not been deleted; the others are
counted, as in `Buffers`. Nothing is assumed of where the blocks lie: what `KMalloc` returns may be any address.

## What is proved

* `heapBuffers_simulates` — as long as there is room for what is asked for, and nothing that is freed has a free neighbour, this is a
  memory of fresh blocks.
* `OnHeap.kmalloc_step` — it stays one when others allocate, free and write to what is theirs.
-/

namespace EagleOS.Memory

open ESTD Foundations HeapNode

/-- The kernel's heap, as the memory of the buffers that are allocated with `new[]`. -/
structure HeapBuffers where
  /-- The heap, and all that is allocated on it. -/
  client : HeapClient
  /-- The addresses that `new[]` has returned, with the sizes. -/
  blocks : List (VirtualAddress × SizeT)
  /-- The blocks that have been deleted, the last first. -/
  deleted : List ℕ
  /-- How many accesses were outside. -/
  strays : ℕ
  /-- What those accesses find. -/
  outside : ℕ → BitVec 8

namespace HeapBuffers

/-- The address of the byte that a pointer points to, if it is in a block that has not been deleted. -/
def address? (m : HeapBuffers) (p : Pointer) : Option VirtualAddress :=
  match p.base with
  | .block id =>
    if id ∈ m.deleted then none
    else (m.blocks[id]?).bind fun x =>
      if p.offset % 2 ^ 32 < x.2.toNat then some (x.1 + BitVec.ofNat 32 (p.offset % 2 ^ 32)) else none
  | _ => none

/-- The byte that a pointer points to, if it points to one. -/
def byteAt? (m : HeapBuffers) (p : Pointer) : Option (BitVec 8) :=
  match p.base with
  | .text chars => (chars ++ [0#8])[p.offset % 2 ^ 32]?
  | _ => (m.address? p).map m.client.heap.mem

/-- A byte of the heap is written to. -/
def write (m : HeapBuffers) (a : VirtualAddress) (b : BitVec 8) : HeapBuffers :=
  { m with client := ⟨{ m.client.heap with mem := m.client.heap.mem.store8 a b }, m.client.live⟩ }

/-- `operator new[]`; the pointer is to a new block, whatever the address, unless it is null. -/
def operatorNewArray (size : SizeT) (m : HeapBuffers) : Option (Pointer × HeapBuffers) :=
  (kMalloc m.client.heap size).map fun (ptr, heap) =>
    if ptr = 0#32 then (.null, { m with client := { m.client with heap } })
    else (⟨.block m.blocks.length, 0⟩,
      { m with client := ⟨heap, (ptr, size) :: m.client.live⟩, blocks := m.blocks ++ [(ptr, size)] })

/-- `operator delete[]`. -/
def operatorDeleteArray (ptr : Pointer) (m : HeapBuffers) : HeapBuffers :=
  match ptr.block?.bind fun id => (m.blocks[id]?).map (id, ·) with
  | some (id, x) =>
    { m with
      client := ⟨kFree m.client.heap (x.1 + BitVec.ofNat 32 ptr.offset), m.client.live.erase x⟩
      deleted := id :: m.deleted }
  | none => m

end HeapBuffers

instance : BlockMemory HeapBuffers where
  load p m :=
    match m.byteAt? p with
    | some b => (b, m)
    | none => (m.outside m.strays, { m with strays := m.strays + 1 })
  store p b m :=
    match m.address? p with
    | some a => m.write a b
    | none => { m with strays := m.strays + 1 }
  newArray := HeapBuffers.operatorNewArray
  deleteArray := HeapBuffers.operatorDeleteArray

namespace HeapBuffers

/-- The block is at this address, with this size, and it has not been deleted. -/
def Holds (m : HeapBuffers) (id : ℕ) (x : VirtualAddress × SizeT) : Prop := m.blocks[id]? = some x ∧ id ∉ m.deleted

/-- There is room for what is allocated, and what is deleted has no free neighbour. -/
def Careful (m : HeapBuffers) : Command → Prop
  | .load _ => True
  | .store _ _ => True
  | .newArray n => m.client.Fits (.allocate n)
  | .deleteArray p => ∀ id x, p.base = .block id → m.Holds id x → m.client.Unmerged (.free x.1 x.2)

/-- The condition, as a check that can be computed: the room is past the last block. -/
def carefulCheck (m : HeapBuffers) : Command → Bool
  | .load _ => true
  | .store _ _ => true
  | .newArray n => decide (RoomAtEnd m.client.heap n)
  | .deleteArray p => (p.block?.bind fun id => m.blocks[id]?).all fun x => decide (m.client.Unmerged (.free x.1 x.2))

theorem careful_of_check (m : HeapBuffers) (c : Command) (h : m.carefulCheck c = true) : m.Careful c := by
  cases c with
  | load p => trivial
  | store p b => trivial
  | newArray n => exact .inr (.inr (of_decide_eq_true h))
  | deleteArray p =>
    intro id x hp hx
    simp only [carefulCheck, Pointer.block?, hp, Option.bind_some, hx.1, Option.all_some, decide_eq_true_eq] at h
    exact h

/-- Besides, what is deleted is a block, from its start. -/
def Ready (m : HeapBuffers) : Command → Prop
  | .load _ => True
  | .store _ _ => True
  | .newArray n => m.client.Fits (.allocate n)
  | .deleteArray p => ∃ id x, p = ⟨.block id, 0⟩ ∧ m.Holds id x ∧ m.client.Unmerged (.free x.1 x.2)

end HeapBuffers

/-! ### Blocks and their bytes -/

/-- The bytes of an allocation, in order. -/
def contents (mem : Foundations.Memory) (x : VirtualAddress × SizeT) : List (BitVec 8) :=
  (List.range x.2.toNat).map fun i => mem (x.1 + BitVec.ofNat 32 i)

section

variable {mem mem' : Foundations.Memory} {x : VirtualAddress × SizeT} {i : ℕ} {b : BitVec 8}

@[simp] theorem length_contents : (contents mem x).length = x.2.toNat := by simp [contents]

theorem getElem?_contents : (contents mem x)[i]? = if i < x.2.toNat then some (mem (x.1 + BitVec.ofNat 32 i)) else none := by
  split
  · rename_i hi
    simp [contents, hi]
  · rename_i hi
    exact List.getElem?_eq_none (by simpa using hi)

theorem add_mem_payload (hi : i < x.2.toNat) : x.1 + BitVec.ofNat 32 i ∈ payload x :=
  (mem_span_iff_exists x.2.isLt.le).mpr ⟨i, hi, rfl⟩

/-- They are what the memory holds there. -/
theorem contents_congr (h : ∀ a ∈ payload x, mem' a = mem a) : contents mem' x = contents mem x :=
  List.map_congr_left fun _ hi => h _ (add_mem_payload (List.mem_range.mp hi))

/-- A byte of it is stored. -/
theorem contents_store8 (hi : i < x.2.toNat) :
    contents (mem.store8 (x.1 + BitVec.ofNat 32 i) b) x = (contents mem x).set i b := by
  refine List.ext_getElem (by simp) fun j hj hj' => ?_
  rw [length_contents] at hj
  have hlt := x.2.isLt
  rw [List.getElem_set]
  by_cases hij : i = j
  · simp [contents, hij]
  · rw [if_neg hij]
    simp only [contents, List.getElem_map, List.getElem_range]
    exact Memory.store8_of_ne fun he => hij ((add_ofNat_inj (by omega) (by omega)).mp he).symm

end

section

variable {s : HeapClient} {nodes : List VirtualAddress} {n : SizeT} {p : VirtualAddress} {heap : Heap}

/-- Where there is room for some bytes, `Allocate` does not return null. -/
theorem HeapClient.Inv.allocate_ne_zero (h : HeapClient.Inv s nodes) (hfits : s.Fits (.allocate n)) (hn : n ≠ 0#32)
    (halloc : s.heap.allocate n = some (p, heap)) : p ≠ 0#32 := by
  have hresult := allocate_result h.blocks n
  generalize s.heap.allocate n = r at hresult halloc
  cases hresult with
  | zero h0 => exact absurd h0 hn
  | @reused y hy hfree hsize =>
    cases halloc
    have hwithin := (h.blocks.within hy).2
    have hlt := s.heap.currentAddress.isLt
    exact add_sizeOf_ne_zero (by omega)
  | @appended last hn hno hlast =>
    cases halloc
    have hend := (hfits.resolve_left hn).atEnd h.blocks hno
    rw [RoomAtEnd] at hend
    exact add_sizeOf_ne_zero (by omega)

end

/-! ### A memory of fresh blocks -/

/-- The blocks of the heap, and a memory of fresh blocks that holds the same. -/
structure OnHeap (m : HeapBuffers) (w : Buffers) : Prop where
  /-- The heap is in order. -/
  heap : ∃ nodes, HeapClient.Inv m.client nodes
  /-- The blocks that are not deleted are allocated. -/
  live : ∀ {id x}, m.Holds id x → x ∈ m.client.live
  /-- They lie at different addresses. -/
  apart : ∀ {id id' x x'}, m.Holds id x → m.Holds id' x' → id ≠ id' → x.1 ≠ x'.1
  /-- What is deleted has been handed out. -/
  gone : ∀ id ∈ m.deleted, id < m.blocks.length
  /-- As many blocks have been handed out there. -/
  length : w.blocks.length = m.blocks.length
  /-- The same are deleted. -/
  deleted : w.deleted = m.deleted
  /-- The others have the same contents. -/
  contents : ∀ {id x}, m.Holds id x → w.blocks[id]? = some (contents m.client.heap.mem x)
  /-- Accesses outside. -/
  strays : w.strays = m.strays
  /-- What they find. -/
  outside : w.outside = m.outside

section

variable {m : HeapBuffers} {w : Buffers} {p : Pointer} {id : ℕ} {x : VirtualAddress × SizeT}

/-- What a pointer into a block points to, in both. -/
theorem OnHeap.block (h : OnHeap m w) (hp : p.base = .block id) :
    m.address? p = none ∧ w.byteAt? p = none ∨
      ∃ x, m.Holds id x ∧ p.offset % 2 ^ 32 < x.2.toNat ∧ m.address? p = some (x.1 + BitVec.ofNat 32 (p.offset % 2 ^ 32)) ∧
        w.byteAt? p = some (m.client.heap.mem (x.1 + BitVec.ofNat 32 (p.offset % 2 ^ 32))) := by
  simp only [HeapBuffers.address?, Buffers.byteAt?, Buffers.bytes, hp, h.deleted]
  by_cases hid : id ∈ m.deleted
  · simp [hid]
  rw [if_neg hid, if_neg hid]
  cases hx : m.blocks[id]? with
  | none =>
    have hnone : w.blocks[id]? = none := List.getElem?_eq_none (h.length ▸ List.getElem?_eq_none_iff.mp hx)
    exact .inl ⟨rfl, by rw [hnone]; rfl⟩
  | some x =>
    rw [h.contents ⟨hx, hid⟩, Option.bind_some, Option.bind_some, getElem?_contents]
    by_cases hlt : p.offset % 2 ^ 32 < x.2.toNat
    · exact .inr ⟨x, ⟨hx, hid⟩, hlt, by rw [if_pos hlt], by rw [if_pos hlt]⟩
    · exact .inl ⟨by rw [if_neg hlt], by rw [if_neg hlt]⟩

/-- What a pointer points to is the same in both. -/
theorem OnHeap.byteAt? (h : OnHeap m w) (p : Pointer) : m.byteAt? p = w.byteAt? p := by
  cases hp : p.base with
  | null => simp [HeapBuffers.byteAt?, HeapBuffers.address?, Buffers.byteAt?, Buffers.bytes, hp]
  | text chars => simp [HeapBuffers.byteAt?, Buffers.byteAt?, Buffers.bytes, hp]
  | block id =>
    have hbyte : m.byteAt? p = (m.address? p).map m.client.heap.mem := by simp only [HeapBuffers.byteAt?, hp]
    rw [hbyte]
    rcases h.block hp with ⟨ha, hb⟩ | ⟨x, -, -, ha, hb⟩
    · rw [ha, hb]
      rfl
    · rw [ha, hb]
      rfl

/-- An access outside. -/
theorem OnHeap.stray (h : OnHeap m w) : OnHeap { m with strays := m.strays + 1 } { w with strays := w.strays + 1 } :=
  ⟨h.heap, h.live, h.apart, h.gone, h.length, h.deleted, h.contents, congrArg (· + 1) h.strays, h.outside⟩

theorem OnHeap.load (h : OnHeap m w) (p : Pointer) : (BlockMemory.load p m).1 = (BlockMemory.load p w).1 ∧
    OnHeap (BlockMemory.load p m).2 (BlockMemory.load p w).2 := by
  simp only [BlockMemory.load, h.byteAt? p]
  cases w.byteAt? p with
  | some b => exact ⟨rfl, h⟩
  | none => exact ⟨by simp only [h.outside, h.strays], h.stray⟩

/-- A byte of a block is stored: the other blocks do not have it. -/
theorem OnHeap.store8 (h : OnHeap m w) (hx : m.Holds id x) {i : ℕ} (hi : i < x.2.toNat) (b : BitVec 8) :
    OnHeap (m.write (x.1 + BitVec.ofNat 32 i) b) { w with blocks := w.blocks.modify id (·.set i b) } := by
  obtain ⟨nodes, hinv⟩ := h.heap
  refine ⟨⟨nodes, hinv.write (h.live hx) (add_mem_payload hi) b⟩, h.live, h.apart, h.gone, ?_, h.deleted, fun {id' x'} hx' => ?_,
    h.strays, h.outside⟩
  · exact (List.length_modify _ _ _).trans h.length
  · have hold : m.Holds id' x' := hx'
    simp only [List.getElem?_modify, h.contents hold, Option.map_eq_map, Option.map_some]
    by_cases hid : id = id'
    · subst hid
      obtain rfl : x = x' := Option.some.inj (hx.1.symm.trans hx'.1)
      rw [if_pos rfl]
      exact congrArg some (contents_store8 hi).symm
    · rw [if_neg hid]
      have hapart := hinv.payload_apart (h.live hx) (h.live hx') (h.apart hx hx' hid)
      have hsame : ∀ a ∈ payload x', m.client.heap.mem.store8 (x.1 + BitVec.ofNat 32 i) b a = m.client.heap.mem a := by
        intro a ha
        exact Memory.store8_of_ne fun he => Set.disjoint_left.mp hapart (add_mem_payload hi) (he ▸ ha)
      exact congrArg some (contents_congr hsame).symm

theorem OnHeap.store (h : OnHeap m w) (p : Pointer) (b : BitVec 8) :
    OnHeap (BlockMemory.store p b m) (BlockMemory.store p b w) := by
  cases hp : p.base with
  | null =>
    have haddress : m.address? p = none := by simp only [HeapBuffers.address?, hp]
    have hbyte : w.byteAt? p = none := by simp [Buffers.byteAt?, Buffers.bytes, hp]
    simp only [BlockMemory.store, haddress, hbyte]
    exact h.stray
  | text chars =>
    have haddress : m.address? p = none := by simp only [HeapBuffers.address?, hp]
    have hstray : BlockMemory.store p b w = { w with strays := w.strays + 1 } := by
      simp only [BlockMemory.store]
      split
      · rename_i hblock
        cases hp.symm.trans hblock
      · rfl
    rw [hstray]
    simp only [BlockMemory.store, haddress]
    exact h.stray
  | block id =>
    rcases h.block hp with ⟨ha, hb⟩ | ⟨x, hx, hi, ha, hb⟩
    · simp only [BlockMemory.store, ha, hb]
      exact h.stray
    · simp only [BlockMemory.store, ha, hb, hp]
      exact h.store8 hx hi b

/-- Of one block more each is the new one, or one of those before. -/
theorem HeapBuffers.holds_append {client : HeapClient} {y : VirtualAddress × SizeT}
    (hx : HeapBuffers.Holds { m with client, blocks := m.blocks ++ [y] } id x) :
    m.Holds id x ∨ id = m.blocks.length ∧ x = y := by
  obtain ⟨hx, hid⟩ := hx
  rcases Nat.lt_trichotomy id m.blocks.length with hlt | rfl | hgt
  · exact .inl ⟨(List.getElem?_append_left hlt).symm.trans hx, hid⟩
  · exact .inr ⟨rfl, by simpa using hx.symm⟩
  · rw [List.getElem?_eq_none (by simp; omega)] at hx
    cases hx

/-- When one is deleted the others are there. -/
theorem HeapBuffers.holds_delete {client : HeapClient} {id' : ℕ}
    (hx : HeapBuffers.Holds { m with client, deleted := id' :: m.deleted } id x) : id ≠ id' ∧ m.Holds id x := by
  have hid := List.mem_cons.not.mp hx.2
  exact ⟨fun he => hid (.inl he), hx.1, fun hmem => hid (.inr hmem)⟩

/-- What is handed out is past what has been, and nobody else's. -/
theorem OnHeap.newArray (h : OnHeap m w) {n : SizeT} (hfits : m.client.Fits (.allocate n)) :
    ∃ m', n = 0#32 ∧ BlockMemory.newArray n m = some (.null, m') ∧ OnHeap m' w ∨ n ≠ 0#32 ∧ ∃ bs, bs.length = n.toNat ∧
      BlockMemory.newArray n m = some (⟨.block w.blocks.length, 0⟩, m') ∧ OnHeap m' (w.grow bs) := by
  obtain ⟨nodes, hinv⟩ := h.heap
  by_cases hn : n = 0#32
  · subst hn
    exact ⟨m, .inl ⟨rfl, by simp [BlockMemory.newArray, HeapBuffers.operatorNewArray, kMalloc, Heap.allocate], h⟩⟩
  obtain ⟨ptr, heap, halloc, -, ⟨nodes', hinv'⟩, -, -, hmem⟩ := hinv.allocate hfits
  have hptr := hinv.allocate_ne_zero hfits hn halloc
  rw [if_neg hptr] at hinv'
  refine ⟨{ m with client := ⟨heap, (ptr, n) :: m.client.live⟩, blocks := m.blocks ++ [(ptr, n)] }, .inr ⟨hn,
    Memory.contents heap.mem (ptr, n), length_contents, ?_, ?_⟩⟩
  · simp only [BlockMemory.newArray, HeapBuffers.operatorNewArray, kMalloc, halloc, Option.map_some, if_neg hptr, h.length]
  have hnew : ∀ x ∈ m.client.live, (ptr, n).1 ≠ x.1 := (List.pairwise_cons.mp hinv'.once).1
  refine ⟨⟨nodes', hinv'⟩, fun {id x} hx => ?_, fun {id id' x x'} hx hx' hne => ?_, fun id hid => ?_, ?_, h.deleted, fun {id x} hx => ?_,
    h.strays, h.outside⟩
  · rcases HeapBuffers.holds_append hx with hold | ⟨-, rfl⟩
    · exact List.mem_cons_of_mem _ (h.live hold)
    · exact List.mem_cons_self
  · rcases HeapBuffers.holds_append hx with hold | ⟨rfl, rfl⟩ <;> rcases HeapBuffers.holds_append hx' with hold' | ⟨rfl, rfl⟩
    · exact h.apart hold hold' hne
    · exact (hnew _ (h.live hold)).symm
    · exact hnew _ (h.live hold')
    · exact absurd rfl hne
  · have hlt := h.gone id hid
    simp only [List.length_append]
    omega
  · simp [Buffers.grow, h.length]
  · rcases HeapBuffers.holds_append hx with hold | ⟨rfl, rfl⟩
    · have hlt : id < w.blocks.length := (List.getElem?_eq_some_iff.mp (h.contents hold)).1
      have hsame := contents_congr (hmem x (h.live hold))
      exact (List.getElem?_append_left hlt).trans ((h.contents hold).trans (congrArg some hsame.symm))
    · simp [Buffers.grow, ← h.length]

/-- What is deleted is one of the allocations, and no other block is touched. -/
theorem OnHeap.deleteArray (h : OnHeap m w) (hx : m.Holds id x) (hun : m.client.Unmerged (.free x.1 x.2)) :
    OnHeap (BlockMemory.deleteArray ⟨.block id, 0⟩ m) (BlockMemory.deleteArray ⟨.block id, 0⟩ w) := by
  obtain ⟨nodes, hinv⟩ := h.heap
  obtain ⟨hinv', -, -, hmem⟩ := hinv.free (h.live hx) hun
  have hdelete : BlockMemory.deleteArray ⟨.block id, 0⟩ m =
      { m with client := ⟨m.client.heap.free x.1, m.client.live.erase x⟩, deleted := id :: m.deleted } := by
    simp [BlockMemory.deleteArray, HeapBuffers.operatorDeleteArray, Pointer.block?, hx.1, kFree]
  rw [hdelete]
  refine ⟨⟨nodes, hinv'⟩, fun {id' x'} hx' => ?_,
    fun hx₁ hx₂ hne => h.apart (HeapBuffers.holds_delete hx₁).2 (HeapBuffers.holds_delete hx₂).2 hne, fun id' hid' => ?_, h.length,
    congrArg (id :: ·) h.deleted, fun {id' x'} hx' => ?_, h.strays, h.outside⟩
  · obtain ⟨hne, hold⟩ := HeapBuffers.holds_delete hx'
    have haddress := h.apart hold hx hne
    exact (List.mem_erase_of_ne fun he => haddress (congrArg Prod.fst he)).mpr (h.live hold)
  · rcases List.mem_cons.mp hid' with rfl | hid'
    · exact (List.getElem?_eq_some_iff.mp hx.1).1
    · exact h.gone id' hid'
  · obtain ⟨-, hold⟩ := HeapBuffers.holds_delete hx'
    exact (h.contents hold).trans (congrArg some (contents_congr (hmem x' (h.live hold))).symm)

/-- Nothing has been handed out. -/
theorem onHeap_start {client : HeapClient} {nodes : List VirtualAddress} (h : HeapClient.Inv client nodes)
    (outside : ℕ → BitVec 8) (fresh : ℕ → ℕ → BitVec 8) : OnHeap ⟨client, [], [], 0, outside⟩ (.empty outside fresh) := by
  have hnone : ∀ {id x}, ¬ HeapBuffers.Holds ⟨client, [], [], 0, outside⟩ id x := by
    rintro id x ⟨hx, -⟩
    cases hx
  exact ⟨⟨nodes, h⟩, fun hx => absurd hx hnone, fun hx => absurd hx hnone, fun _ hid => absurd hid List.not_mem_nil, rfl, rfl,
    fun hx => absurd hx hnone, rfl, rfl⟩

end

/-- **The heap is a memory of fresh blocks** as long as there is room in it, and what is freed has no free neighbour. -/
theorem heapBuffers_simulates : Simulation OnHeap HeapBuffers.Ready where
  fresh _ h := ⟨h.heap, h.live, h.apart, h.gone, h.length, h.deleted, h.contents, h.strays, h.outside⟩
  load p h := h.load p
  store p b h := h.store p b
  newArray n h hfits := h.newArray hfits
  deleteArray := by
    rintro m w p h ⟨id, x, rfl, hx, hun⟩
    exact h.deleteArray hx hun

section

variable {m : HeapBuffers} {w : Buffers} {c : KMallocCall} {client : HeapClient}

/-- The rest of the kernel allocates, and frees and writes to what is not in these blocks. -/
theorem OnHeap.kmalloc_step (h : OnHeap m w) (hcareful : c.Careful m.client) (hspares : ∀ id x, m.Holds id x → c.Spares x)
    (hstep : KMallocCall.Step m.client c client) : OnHeap { m with client } w := by
  obtain ⟨nodes, hinv⟩ := h.heap
  have hkept := fun {id x} (hx : m.Holds id x) => hinv.kept hcareful hstep (h.live hx) (hspares id x hx)
  refine ⟨hinv.kmalloc_step hcareful hstep, fun {id x} hx => (hkept hx).1, h.apart, h.gone, h.length, h.deleted, fun {id x} hx => ?_,
    h.strays, h.outside⟩
  exact (h.contents hx).trans (congrArg some (contents_congr (hkept hx).2).symm)

end

end EagleOS.Memory
