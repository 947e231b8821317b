import EagleOS.Memory.HeapFirstFit

/-!
# `KMalloc`, and what the heap's dump shows

The kernel's own calls on its heap: `KMalloc`, `KZAlloc`, which clears what it returns, and `KFree`. `Dump` prints the headers,
following `Next` from the first one.

## The model

A `KMallocCall` is a call by a client of the kernel's heap, or a write to what it holds. `dumpLoop` gives the lines that `Dump`
prints, as records of the numbers in them; it is `none` where the fuel does not suffice.

## What is proved

* `kmalloc_refines` — a run of these calls is a run of calls on the heap, in which the bytes are cleared one by one.
* `kzalloc_zeroes` — what `KZAlloc` returns is zero until its owner writes to it.
* `dump_shows_blocks` — `Dump` ends, and prints the heap's blocks in the order of their addresses.
-/

namespace EagleOS.Memory

open ESTD Boot Foundations Arch HeapNode

/-! ### The code -/

/-- `KMalloc`. -/
def kMalloc (heap : Heap) (size : SizeT) : Option (VirtualAddress × Heap) := heap.allocate size

/-- `KZAlloc`. -/
def kZAlloc (heap : Heap) (size : SizeT) : Option (VirtualAddress × Heap) :=
  (heap.allocate size).map fun (ptr, heap) =>
    if ptr = 0#32 then (0#32, heap) else (ptr, { heap with mem := memset heap.mem ptr 0#8 size.toNat })

/-- `KFree`. -/
def kFree (heap : Heap) (ptr : VirtualAddress) : Heap := heap.free ptr

/-- A line of `Dump`. -/
structure DumpLine where
  /-- `i`. -/
  number : ℕ
  /-- `Size`. -/
  size : SizeT
  /-- `State`. -/
  state : BitVec 8
  /-- `NodeAddress`. -/
  nodeAddress : VirtualAddress
  /-- `DataAddress`. -/
  dataAddress : VirtualAddress
  /-- `NextNodeAddress`. -/
  nextNodeAddress : VirtualAddress
  /-- `PrevNodeAddress`. -/
  prevNodeAddress : VirtualAddress
  deriving DecidableEq

/-- What is printed for a node. -/
def dumpLine (mem : Foundations.Memory) (i : ℕ) (node : VirtualAddress) : DumpLine :=
  ⟨i, size mem node, mem (node + 4#32), node, node + sizeOf, next mem node, prev mem node⟩

/-- The loop of `Dump`. -/
def dumpLoop (mem : Foundations.Memory) : ℕ → ℕ → VirtualAddress → Option (List DumpLine)
  | 0, _, _ => none
  | fuel + 1, i, node =>
    if node ≠ 0#32 then (dumpLoop mem fuel (i + 1) (next mem node)).map (dumpLine mem i node :: ·) else some []

/-- `Dump`. -/
def Heap.dump (heap : Heap) (fuel : ℕ) : Option (List DumpLine) := dumpLoop heap.mem fuel 0 heap.startAddress

/-! ### Clients -/

/-- What a client does. -/
inductive KMallocCall where
  /-- `KMalloc(size)`. -/
  | kMalloc (size : SizeT)
  /-- `KZAlloc(size)`. -/
  | kZAlloc (size : SizeT)
  /-- `KFree(ptr)` of an allocation of `size`. -/
  | kFree (ptr : VirtualAddress) (size : SizeT)
  /-- A byte is written. -/
  | write (address : VirtualAddress) (value : BitVec 8)

namespace KMallocCall

/-- The call on the heap that it makes. -/
def heapCall : KMallocCall → HeapCall
  | .kMalloc n => .allocate n
  | .kZAlloc n => .allocate n
  | .kFree p n => .free p n
  | .write a value => .write a value

/-- What happens. -/
def step (s : HeapClient) : KMallocCall → Option HeapClient
  | .kMalloc n => (Memory.kMalloc s.heap n).map fun (p, heap) => ⟨heap, if p = 0#32 then s.live else (p, n) :: s.live⟩
  | .kZAlloc n => (Memory.kZAlloc s.heap n).map fun (p, heap) => ⟨heap, if p = 0#32 then s.live else (p, n) :: s.live⟩
  | .kFree p n => (HeapClient.step s (.free p n)).map fun t => ⟨Memory.kFree s.heap p, t.live⟩
  | .write a value => HeapClient.step s (.write a value)

/-- The calls as a step relation. -/
def Step (s : HeapClient) (c : KMallocCall) (t : HeapClient) : Prop := step s c = some t

/-- There is room for it, and it merges nothing. -/
def Careful (s : HeapClient) (c : KMallocCall) : Prop := s.Fits c.heapCall ∧ s.Unmerged c.heapCall

/-- It is not a free of `x`, or a write to it. -/
def Spares (x : VirtualAddress × SizeT) : KMallocCall → Prop
  | .kMalloc _ => True
  | .kZAlloc _ => True
  | .kFree p n => (p, n) ≠ x
  | .write a _ => a ∉ payload x

end KMallocCall

section

variable {s t u : HeapClient} {nodes : List VirtualAddress} {c : KMallocCall} {x : VirtualAddress × SizeT} {n : SizeT}

/-- The memory is cleared by writes to what is live. -/
theorem runs_memset {p : VirtualAddress} {live : List (VirtualAddress × SizeT)} (hlive : (p, n) ∈ live) (k : ℕ) :
    ∀ {i : ℕ} {heap : Heap}, i + k ≤ n.toNat →
      RunsWhere HeapClient.Step (fun s c => s.Fits c ∧ s.Unmerged c) ⟨heap, live⟩
        ⟨{ heap with mem := memset heap.mem (p + BitVec.ofNat 32 i) 0#8 k }, live⟩ := by
  induction k with
  | zero => exact fun _ => .refl
  | succ k ih =>
    intro i heap hik
    have hin : ∃ x ∈ live, (p + BitVec.ofNat 32 i - x.1).toNat < x.2.toNat := by
      refine ⟨(p, n), hlive, ?_⟩
      have hlt := n.isLt
      have hindex : (p + BitVec.ofNat 32 i - p).toNat = i := by
        rw [BitVec.add_comm, BitVec.add_sub_cancel, BitVec.toNat_ofNat, Nat.mod_eq_of_lt (by omega)]
      change (p + BitVec.ofNat 32 i - p).toNat < n.toNat
      omega
    have hwrite : HeapClient.Step ⟨heap, live⟩ (.write (p + BitVec.ofNat 32 i) 0#8)
        ⟨{ heap with mem := heap.mem.store8 (p + BitVec.ofNat 32 i) 0#8 }, live⟩ := if_pos hin
    have hrest : RunsWhere HeapClient.Step (fun s c => s.Fits c ∧ s.Unmerged c)
        ⟨{ heap with mem := heap.mem.store8 (p + BitVec.ofNat 32 i) 0#8 }, live⟩ _ := ih (i := i + 1) (by omega)
    rw [BitVec.ofNat_add, ← BitVec.add_assoc] at hrest
    exact (RunsWhere.single ⟨trivial, trivial⟩ hwrite).trans hrest

/-- `KZAlloc` is an allocation, and then what it returns is cleared. -/
theorem kZAlloc_step (h : KMallocCall.Step s (.kZAlloc n) t) : ∃ p u, HeapClient.Step s (.allocate n) u ∧
    u.live = (if p = 0#32 then s.live else (p, n) :: s.live) ∧
    t = if p = 0#32 then u else ⟨{ u.heap with mem := memset u.heap.mem p 0#8 n.toNat }, u.live⟩ := by
  rw [KMallocCall.Step, KMallocCall.step, kZAlloc, Option.map_map] at h
  obtain ⟨⟨p, heap⟩, halloc, rfl⟩ := Option.map_eq_some_iff.mp h
  refine ⟨p, ⟨heap, if p = 0#32 then s.live else (p, n) :: s.live⟩, ?_, rfl, ?_⟩
  · rw [HeapClient.Step, HeapClient.step, halloc]
  · by_cases hp : p = 0#32 <;> simp [hp]

/-- The other calls are calls on the heap. -/
theorem step_heapCall (h : KMallocCall.Step s c t) (hc : ∀ n, c ≠ .kZAlloc n) : HeapClient.Step s c.heapCall t := by
  cases c with
  | kMalloc n =>
    rw [KMallocCall.Step, KMallocCall.step, kMalloc] at h
    obtain ⟨⟨p, heap⟩, halloc, rfl⟩ := Option.map_eq_some_iff.mp h
    rw [KMallocCall.heapCall, HeapClient.Step, HeapClient.step, halloc]
  | kZAlloc n => exact absurd rfl (hc n)
  | kFree p n =>
    rw [KMallocCall.Step, KMallocCall.step] at h
    obtain ⟨t, ht, rfl⟩ := Option.map_eq_some_iff.mp h
    obtain ⟨hlive, rfl⟩ := HeapClient.Step.of_free ht
    exact if_pos hlive
  | write a value => exact h

/-- So each call is a run of calls on the heap. -/
theorem KMallocCall.Step.runs (h : KMallocCall.Step s c t) (hcareful : c.Careful s) :
    RunsWhere HeapClient.Step (fun s c => s.Fits c ∧ s.Unmerged c) s t := by
  by_cases hc : ∃ n, c = .kZAlloc n
  · obtain ⟨n, rfl⟩ := hc
    obtain ⟨p, u, halloc, hlive, ht⟩ := kZAlloc_step h
    have hfirst : RunsWhere HeapClient.Step (fun s c => s.Fits c ∧ s.Unmerged c) s u := .single hcareful halloc
    by_cases hp : p = 0#32
    · rw [if_pos hp] at ht
      exact ht ▸ hfirst
    · rw [if_neg hp] at ht hlive
      have hcleared : RunsWhere HeapClient.Step (fun s c => s.Fits c ∧ s.Unmerged c) ⟨u.heap, u.live⟩ _ :=
        runs_memset (p := p) (n := n) (hlive ▸ List.mem_cons_self) n.toNat (i := 0) (by omega)
      rw [BitVec.add_zero] at hcleared
      exact ht ▸ hfirst.trans hcleared
  · exact .single hcareful (step_heapCall h fun n hn => hc ⟨n, hn⟩)

/-- Any number of calls is. -/
theorem kmalloc_refines (h : RunsWhere KMallocCall.Step (fun s c => c.Careful s) s t) :
    RunsWhere HeapClient.Step (fun s c => s.Fits c ∧ s.Unmerged c) s t := by
  induction h with
  | refl => exact .refl
  | tail _ hlast ih =>
    obtain ⟨c, hcareful, hstep⟩ := hlast
    exact ih.trans (hstep.runs hcareful)

/-! ### What a client relies on -/

/-- The allocation, and the bytes of it, stay as they are. -/
theorem HeapClient.Inv.kept (h : HeapClient.Inv s nodes) (hcareful : c.Careful s) (hstep : KMallocCall.Step s c t)
    (hx : x ∈ s.live) (hspares : c.Spares x) : x ∈ t.live ∧ ∀ a ∈ payload x, t.heap.mem a = s.heap.mem a := by
  cases c with
  | kMalloc n =>
    rw [KMallocCall.Step, KMallocCall.step, kMalloc] at hstep
    obtain ⟨p, heap, halloc, -, -, -, -, hmem⟩ := h.allocate hcareful.1
    rw [halloc] at hstep
    cases hstep
    refine ⟨?_, hmem x hx⟩
    by_cases hp : p = 0#32 <;> simp [hp, hx]
  | kZAlloc n =>
    obtain ⟨p, u, halloc, hlive, ht⟩ := kZAlloc_step hstep
    obtain ⟨⟨nodes', hu⟩, -, -, hmem⟩ := h.step (c := .allocate n) hcareful.1 hcareful.2 halloc
    have hmem : ∀ a ∈ payload x, u.heap.mem a = s.heap.mem a := hmem x hx
    by_cases hp : p = 0#32
    · rw [if_pos hp] at ht hlive
      subst ht
      exact ⟨hlive ▸ hx, hmem⟩
    · rw [if_neg hp] at ht hlive
      subst ht
      have hxu : x ∈ u.live := hlive ▸ List.mem_cons_of_mem _ hx
      have hne : x.1 ≠ p := by
        have hpairs := hu.once
        rw [hlive] at hpairs
        exact fun he => (List.pairwise_cons.mp hpairs).1 x hx he.symm
      -- what is cleared is apart
      have hapart := hu.payload_apart hxu (hlive ▸ List.mem_cons_self : (p, n) ∈ u.live) hne
      refine ⟨hxu, fun a ha => ?_⟩
      exact ((memset_apply n.isLt.le u.heap.mem a).2 (Set.disjoint_left.mp hapart ha)).trans (hmem a ha)
  | kFree p n =>
    obtain ⟨hlive, rfl⟩ := HeapClient.Step.of_free (step_heapCall hstep (by simp))
    exact ⟨(List.mem_erase_of_ne fun he => hspares he.symm).mpr hx, (h.free hlive hcareful.2).2.2.2 x hx⟩
  | write a value =>
    obtain ⟨-, rfl⟩ := HeapClient.Step.of_write (step_heapCall hstep (by simp))
    exact ⟨hx, fun b hb => Memory.store8_of_ne fun he => hspares (he ▸ hb)⟩

/-- One call. -/
theorem HeapClient.Inv.kmalloc_step (h : HeapClient.Inv s nodes) (hcareful : c.Careful s) (hstep : KMallocCall.Step s c t) :
    ∃ nodes', HeapClient.Inv t nodes' :=
  (hstep.runs hcareful).invariant (P := fun s => ∃ nodes, HeapClient.Inv s nodes)
    (fun _ _ _ ⟨_, h⟩ hc hs => (h.step hc.1 hc.2 hs).1) ⟨nodes, h⟩

/-- Any number of them. -/
theorem HeapClient.Inv.kept_of_kmalloc_runs (h : HeapClient.Inv s nodes)
    (hrun : RunsWhere KMallocCall.Step (fun s c => c.Careful s ∧ c.Spares x) s t) (hx : x ∈ s.live) :
    x ∈ t.live ∧ ∀ a ∈ payload x, t.heap.mem a = s.heap.mem a := by
  refine (hrun.invariant (P := fun t => (∃ nodes, HeapClient.Inv t nodes) ∧ x ∈ t.live ∧
    ∀ a ∈ payload x, t.heap.mem a = s.heap.mem a) ?_ ⟨⟨nodes, h⟩, hx, fun _ _ => rfl⟩).2
  rintro u c v ⟨⟨nodes', hu⟩, hxu, hmem⟩ ⟨hcareful, hspares⟩ hstep
  obtain ⟨hxv, hsame⟩ := hu.kept hcareful hstep hxu hspares
  exact ⟨hu.kmalloc_step hcareful hstep, hxv, fun a ha => (hsame a ha).trans (hmem a ha)⟩

end

section

variable {util : MemoryUtil} {k k' : Kernel} {mem : Foundations.Memory} {sizeBytes : SizeT} {heap : Heap}

/-- A call of `KZAlloc` that has room returns. -/
theorem exists_kZAlloc_step {s : HeapClient} {nodes : List VirtualAddress} {n : SizeT} (h : HeapClient.Inv s nodes)
    (hfits : s.Fits (.allocate n)) : ∃ t, KMallocCall.Step s (.kZAlloc n) t := by
  obtain ⟨p, heap, halloc, -⟩ := h.allocate hfits
  simp [KMallocCall.Step, KMallocCall.step, kZAlloc, halloc]

/-- **Cleared memory**: after `Init`, in every run whose calls have room and merge nothing, a call of `KZAlloc` that has room
returns. It returns null and changes nothing, or an allocation that is apart from all others, whose bytes are left alone. Its
bytes are zero, and they stay zero until it is written to or freed, whatever else is allocated, cleared, freed and written. -/
theorem kzalloc_zeroes (hinit : Heap.init util k mem sizeBytes = (some heap, k')) (s : HeapClient)
    (hrun : RunsWhere KMallocCall.Step (fun s c => c.Careful s) ⟨heap, []⟩ s) (n : SizeT)
    (hcareful : (KMallocCall.kZAlloc n).Careful s) : ∃ t, KMallocCall.Step s (.kZAlloc n) t ∧
    (t = s ∨ ∃ p, t.live = (p, n) :: s.live ∧
      (∀ x ∈ s.live, Disjoint (payload (p, n)) (payload x) ∧ ∀ a ∈ payload x, t.heap.mem a = s.heap.mem a) ∧
      ∀ u, RunsWhere KMallocCall.Step (fun s c => c.Careful s ∧ c.Spares (p, n)) t u →
        (p, n) ∈ u.live ∧ ∀ a ∈ payload (p, n), u.heap.mem a = 0#8) := by
  obtain ⟨⟨nodes, hs⟩, -, -⟩ := HeapClient.inv_of_runs (HeapClient.inv_init hinit) (kmalloc_refines hrun)
  obtain ⟨t, hstep⟩ := exists_kZAlloc_step hs hcareful.1
  refine ⟨t, hstep, ?_⟩
  obtain ⟨nodes', ht⟩ := hs.kmalloc_step hcareful hstep
  have hkept := fun x hx => (hs.kept hcareful hstep (x := x) hx trivial).2
  obtain ⟨p, u, halloc, hlive, htu⟩ := kZAlloc_step hstep
  by_cases hp : p = 0#32
  · -- there was nothing to allocate
    obtain ⟨q, heap', hq, hsame, -⟩ := hs.allocate hcareful.1
    rw [HeapClient.Step, HeapClient.step, hq] at halloc
    cases halloc
    rw [if_pos hp] at htu hlive
    by_cases hq0 : q = 0#32
    · rw [hsame hq0, if_pos hq0] at htu
      exact .inl htu
    · have hlength := congrArg List.length hlive
      simp [hq0] at hlength
  · rw [if_neg hp] at htu hlive
    have hlive' : t.live = (p, n) :: s.live := by rw [htu, hlive]
    have hzero : ∀ a ∈ payload (p, n), t.heap.mem a = 0#8 := by
      rw [htu]
      exact fun a ha => (memset_apply n.isLt.le u.heap.mem a).1 ha
    have hmem : (p, n) ∈ t.live := hlive' ▸ List.mem_cons_self
    refine .inr ⟨p, hlive', fun x hx => ⟨?_, hkept x hx⟩, fun v hv => ?_⟩
    · have hpairs := ht.once
      rw [hlive'] at hpairs
      exact ht.payload_apart hmem (hlive' ▸ List.mem_cons_of_mem _ hx) ((List.pairwise_cons.mp hpairs).1 x hx)
    · obtain ⟨hin, hsame⟩ := ht.kept_of_kmalloc_runs hv hmem
      exact ⟨hin, fun a ha => (hsame a ha).trans (hzero a ha)⟩

end

/-- The bytes that are cleared have been written to and freed before. -/
theorem kzalloc_zeroes_heap4096 :
    ∃ s t, RunsWhere KMallocCall.Step (fun s c => c.Careful s) ⟨HeapClient.heap4096, []⟩ s ∧
      KMallocCall.Step s (.kZAlloc 20#32) t ∧ t.live = [(0xC100000D#32, 20#32)] ∧
      ∀ a ∈ payload (0xC100000D#32, 20#32), t.heap.mem a = 0#8 := by
  obtain ⟨k, k', hinit⟩ := HeapClient.exists_init_heap4096
  have hlive : ((List.foldlM (fun s (c : KMallocCall) => if decide (s.RoomFor c.heapCall ∧ s.Unmerged c.heapCall)
        then KMallocCall.step s c else none) ⟨HeapClient.heap4096, []⟩
      [.kMalloc 20#32, .write 0xC100000D#32 0xFF#8, .kFree 0xC100000D#32 20#32]).bind fun s =>
        if decide (RoomAtEnd s.heap 20#32) then (KMallocCall.step s (.kZAlloc 20#32)).map fun t => (s.live, t.live) else none) =
      some ([], [(0xC100000D#32, 20#32)]) := by
    decide +kernel
  obtain ⟨s, hs, hnext⟩ := Option.bind_eq_some_iff.mp hlive
  split at hnext
  · rename_i hroom
    obtain ⟨t, ht, hpair⟩ := Option.map_eq_some_iff.mp hnext
    obtain ⟨hs0, ht0⟩ := Prod.mk.inj hpair
    have hrun : RunsWhere KMallocCall.Step (fun s c => c.Careful s) ⟨HeapClient.heap4096, []⟩ s :=
      runsWhere_of_foldlM (fun s c hc => (decide_eq_true_eq.mp hc).imp_left HeapClient.RoomFor.fits) _ hs
    obtain ⟨t', ht', hzeroes⟩ := kzalloc_zeroes hinit s hrun 20#32 ⟨.inr (.inr (of_decide_eq_true hroom)), trivial⟩
    obtain rfl : t' = t := Option.some.inj (ht'.symm.trans ht)
    refine ⟨s, t', hrun, ht', ht0, ?_⟩
    rcases hzeroes with rfl | ⟨p, hp, -, hstays⟩
    · rw [hs0] at ht0
      cases ht0
    · rw [ht0] at hp
      obtain ⟨hfirst, -⟩ := List.cons.inj hp
      rw [hfirst]
      exact (hstays t' .refl).2
  · cases hnext

/-! ### `Dump` -/

/-- The lines of linked nodes. -/
theorem dumpLoop_linked {mem : Foundations.Memory} {nodes : List VirtualAddress} :
    ∀ {last : VirtualAddress} {i fuel : ℕ}, Linked (next mem) (prev mem) 0#32 last nodes → (∀ x ∈ nodes, x ≠ 0#32) →
      nodes.length < fuel → dumpLoop mem fuel i (nodes.headD 0#32) = some ((nodes.zipIdx i).map fun x => dumpLine mem x.2 x.1) := by
  induction nodes with
  | nil =>
    intro last i fuel _ _ hfuel
    obtain ⟨fuel, rfl⟩ := Nat.exists_eq_add_one_of_ne_zero (Nat.ne_of_gt hfuel)
    simp [dumpLoop]
  | cons x nodes ih =>
    intro last i fuel h hne hfuel
    obtain ⟨fuel, rfl⟩ := Nat.exists_eq_add_one_of_ne_zero (Nat.ne_of_gt (Nat.zero_lt_of_lt hfuel))
    obtain ⟨-, hnext, hrest⟩ := h
    have hfuel' : nodes.length < fuel := Nat.lt_of_succ_lt_succ hfuel
    have hall : ∀ y ∈ nodes, y ≠ 0#32 := fun y hy => hne y (List.mem_cons_of_mem _ hy)
    rw [List.headD_cons, dumpLoop, if_pos (hne x List.mem_cons_self), hnext, ih hrest hall hfuel', Option.map_some,
      List.zipIdx_cons, List.map_cons]

section

variable {util : MemoryUtil} {k k' : Kernel} {mem : Foundations.Memory} {sizeBytes : SizeT} {heap : Heap}

/-- **What `Dump` shows**: in every state of such a run it ends, and prints the headers of the heap's blocks, numbered from 0, in the
order of their addresses; on a heap without blocks it prints the cleared header at its start. -/
theorem dump_shows_blocks (hinit : Heap.init util k mem sizeBytes = (some heap, k')) (s : HeapClient)
    (hrun : RunsWhere KMallocCall.Step (fun s c => c.Careful s) ⟨heap, []⟩ s) :
    ∃ nodes, Tiles BitVec.toNat (extent s.heap.mem) s.heap.startAddress.toNat nodes s.heap.currentAddress.toNat ∧
      (∀ x ∈ s.live, x.1 - sizeOf ∈ nodes) ∧
      ∀ fuel, nodes.length + 1 < fuel → s.heap.dump fuel = some (if nodes = [] then
          [⟨0, 0#32, 0#8, s.heap.startAddress, s.heap.startAddress + sizeOf, 0#32, 0#32⟩]
        else nodes.zipIdx.map fun x => dumpLine s.heap.mem x.2 x.1) := by
  obtain ⟨nodes, hinv, hwell⟩ := HeapClient.wellFormed_of_runs hinit (kmalloc_refines hrun)
  refine ⟨nodes, hwell.tiles, fun x hx => ?_, fun fuel hfuel => ?_⟩
  · obtain ⟨y, hy, hp, -⟩ := hinv.live x hx
    rwa [hp, BitVec.add_sub_cancel]
  cases nodes with
  | nil =>
    obtain ⟨fuel, rfl⟩ := Nat.exists_eq_add_one_of_ne_zero (Nat.ne_of_gt (Nat.zero_lt_of_lt hfuel))
    obtain ⟨fuel, rfl⟩ := Nat.exists_eq_add_one_of_ne_zero (Nat.ne_of_gt (Nat.lt_of_succ_lt_succ hfuel))
    have hzero := hwell.empty rfl
    have hstate : s.heap.mem (s.heap.startAddress + 4#32) = 0#8 := hzero _ (state_mem_header _)
    have hsize : size s.heap.mem s.heap.startAddress = 0#32 := (size_congr hzero).trans (by simp [size, field, Memory.load32])
    have hnext : next s.heap.mem s.heap.startAddress = 0#32 := (next_congr hzero).trans (by simp [next, field, Memory.load32])
    have hprev : prev s.heap.mem s.heap.startAddress = 0#32 := (prev_congr hzero).trans (by simp [prev, field, Memory.load32])
    simp [Heap.dump, dumpLoop, hwell.start_ne, dumpLine, hstate, hsize, hnext, hprev]
  | cons x nodes =>
    have hstart : s.heap.startAddress = x := BitVec.eq_of_toNat_eq hwell.tiles.1.symm
    have hlines : dumpLoop s.heap.mem fuel 0 ((x :: nodes).headD 0#32) = _ :=
      dumpLoop_linked hwell.linked (fun y hy => hwell.ne_zero hy) (by omega)
    rw [List.headD_cons] at hlines
    rw [Heap.dump, hstart, hlines, if_neg (List.cons_ne_nil x nodes)]

end

/-- More fuel does not change what `Dump` shows. -/
theorem dumpLoop_mono {mem : Foundations.Memory} (more : ℕ) {fuel : ℕ} :
    ∀ {lines : List DumpLine} {i : ℕ} {node : VirtualAddress}, dumpLoop mem fuel i node = some lines →
      dumpLoop mem (fuel + more) i node = some lines := by
  induction fuel with
  | zero =>
    intro lines i node h
    cases h
  | succ fuel ih =>
    intro lines i node h
    rw [Nat.add_right_comm]
    rw [dumpLoop] at h ⊢
    by_cases hnode : node = 0#32
    · rw [← h, if_neg (not_not.mpr hnode), if_neg (not_not.mpr hnode)]
    · rw [if_pos hnode] at h ⊢
      obtain ⟨rest, hrest, rfl⟩ := Option.map_eq_some_iff.mp h
      rw [ih hrest]
      rfl

/-- Of two blocks on the heap of one page the first has been freed. -/
theorem dump_shows_blocks_heap4096 :
    ∃ s, RunsWhere KMallocCall.Step (fun s c => c.Careful s) ⟨HeapClient.heap4096, []⟩ s ∧ s.live = [(0xC100002E#32, 30#32)] ∧
      ∀ fuel, 3 < fuel → s.heap.dump fuel = some
        [⟨0, 20#32, HeapState.free.byte, 0xC1000000#32, 0xC100000D#32, 0xC1000021#32, 0#32⟩,
          ⟨1, 30#32, HeapState.reserved.byte, 0xC1000021#32, 0xC100002E#32, 0#32, 0xC1000000#32⟩] := by
  obtain ⟨k, k', hinit⟩ := HeapClient.exists_init_heap4096
  have heval : (List.foldlM (fun s (c : KMallocCall) => if decide (s.RoomFor c.heapCall ∧ s.Unmerged c.heapCall)
        then KMallocCall.step s c else none) ⟨HeapClient.heap4096, []⟩
      [.kMalloc 20#32, .kZAlloc 30#32, .kFree 0xC100000D#32 20#32]).map (fun s => (s.live, s.heap.dump 3)) =
      some ([(0xC100002E#32, 30#32)], some
        [⟨0, 20#32, HeapState.free.byte, 0xC1000000#32, 0xC100000D#32, 0xC1000021#32, 0#32⟩,
          ⟨1, 30#32, HeapState.reserved.byte, 0xC1000021#32, 0xC100002E#32, 0#32, 0xC1000000#32⟩]) := by
    decide +kernel
  obtain ⟨s, hs, hfacts⟩ := Option.map_eq_some_iff.mp heval
  obtain ⟨hlive, hthree⟩ := Prod.mk.inj hfacts
  have hrun : RunsWhere KMallocCall.Step (fun s c => c.Careful s) ⟨HeapClient.heap4096, []⟩ s :=
    runsWhere_of_foldlM (fun s c hc => (decide_eq_true_eq.mp hc).imp_left HeapClient.RoomFor.fits) _ hs
  obtain ⟨nodes, -, -, hdump⟩ := dump_shows_blocks hinit s hrun
  have hlines := (dumpLoop_mono (nodes.length + 2) hthree).symm.trans (hdump (3 + (nodes.length + 2)) (by omega))
  have htwo : nodes.length = 2 := by
    have hlength := congrArg List.length (Option.some.inj hlines)
    by_cases hnil : nodes = []
    · simp [hnil] at hlength
    · simpa [hnil] using hlength.symm
  exact ⟨s, hrun, hlive, fun fuel hfuel => (hdump fuel (by omega)).trans hlines.symm⟩

end EagleOS.Memory
