import EagleOS.Memory.HeapClients

/-!
# Whether the walk of `Allocate` ends

The walk goes from header to header by the sizes that it reads. After `Free` has merged, a size may lead
into a payload, and then the walk goes on by what the client wrote there.

## The model

`HeapAccount` is the client together with all that it has asked for, headers included. `Within` says that
this stays below the size of the heap.

The end of the heap is looked at by neither `Allocate` nor `Free`: `withEnd` is the same heap with another
end, and the blocks of a client that has asked for `k` bytes lie in the heap that ends `k` bytes after its
start.

## What is proved

* `HeapAccount.Inv.step` — the blocks stay within what was asked for.
* `allocate_terminates` — when no `Free` of the run merges, `Allocate` returns.
* `allocate_diverges` — when one does, `Allocate` may go round for ever.
-/

namespace EagleOS.Memory

open ESTD Boot Foundations Arch HeapNode

/-- The heap with another end. -/
def Heap.withEnd (heap : Heap) (endAddress : VirtualAddress) : Heap := { heap with endAddress := endAddress }

/-- `Allocate` does not look at the end. -/
theorem Heap.allocate_withEnd (heap : Heap) (e : VirtualAddress) (n : SizeT) :
    (heap.withEnd e).allocate n = (heap.allocate n).map fun r => (r.1, r.2.withEnd e) := by
  simp only [allocate, withEnd]
  split
  · rfl
  split <;> rfl

/-- Nor does `Free`. -/
theorem Heap.free_withEnd (heap : Heap) (e p : VirtualAddress) : (heap.withEnd e).free p = (heap.free p).withEnd e := by
  simp only [free, withEnd]
  split <;> rfl

namespace HeapClient

/-- The client of the heap with another end. -/
def withEnd (s : HeapClient) (e : VirtualAddress) : HeapClient := ⟨s.heap.withEnd e, s.live⟩

/-- The calls are the same on the heap with another end. -/
theorem Step.withEnd {s t : HeapClient} {c : HeapCall} (h : Step s c t) (e : VirtualAddress) :
    Step (s.withEnd e) c (t.withEnd e) := by
  unfold Step at h ⊢
  cases c with
  | allocate n =>
    simp only [step, HeapClient.withEnd, Heap.allocate_withEnd] at h ⊢
    cases hr : s.heap.allocate n with
    | none => simp [hr] at h
    | some r =>
      simp only [hr] at h
      cases h
      rfl
  | free p n =>
    simp only [step, HeapClient.withEnd, Heap.free_withEnd] at h ⊢
    split at h
    · cases h
      rename_i hlive
      rw [if_pos hlive]
    · cases h
  | write a value =>
    simp only [step, HeapClient.withEnd] at h ⊢
    split at h
    · cases h
      rename_i hlive
      exact if_pos hlive
    · cases h

/-- The blocks lie in a heap with any end past the last of them. -/
theorem Inv.withEnd {s : HeapClient} {nodes : List VirtualAddress} (h : Inv s nodes) {e : VirtualAddress}
    (he : s.heap.currentAddress.toNat ≤ e.toNat) : Inv (s.withEnd e) nodes :=
  ⟨⟨h.blocks.tiles, h.blocks.links, h.blocks.first, fun _ => he⟩, h.live, h.once⟩

/-- The blocks end at the current address. -/
theorem Inv.current_le {s : HeapClient} {nodes : List VirtualAddress} (h : Inv s nodes)
    (hstart : s.heap.startAddress.toNat ≤ s.heap.endAddress.toNat) :
    s.heap.currentAddress.toNat ≤ s.heap.endAddress.toNat := by
  cases nodes with
  | nil =>
    have htiles : s.heap.startAddress.toNat = s.heap.currentAddress.toNat := h.blocks.tiles
    omega
  | cons => exact h.blocks.inside (by simp)

end HeapClient

/-- What a call asks for, with its header. -/
def HeapCall.cost : HeapCall → ℕ
  | .allocate n => if n = 0#32 then 0 else n.toNat + (sizeOf).toNat
  | .free _ _ => 0
  | .write _ _ => 0

/-- The client, and all that it has asked for. -/
structure HeapAccount where
  /-- The client. -/
  client : HeapClient
  /-- The bytes that it has asked for, with their headers. -/
  requested : ℕ

namespace HeapAccount

/-- The calls as a step relation. -/
def Step (a : HeapAccount) (c : HeapCall) (b : HeapAccount) : Prop :=
  HeapClient.Step a.client c b.client ∧ b.requested = a.requested + c.cost

/-- The step, computed. -/
def next (a : HeapAccount) (c : HeapCall) : Option HeapAccount :=
  (a.client.step c).map fun t => ⟨t, a.requested + c.cost⟩

/-- What is asked for stays below the size of the heap. -/
def Within (sizeBytes : SizeT) (a : HeapAccount) (c : HeapCall) : Prop := a.requested + c.cost < sizeBytes.toNat

instance (sizeBytes : SizeT) (a : HeapAccount) (c : HeapCall) : Decidable (a.Within sizeBytes c) :=
  inferInstanceAs (Decidable (_ < _))

/-- A run that was computed. -/
theorem runsWhere_of_next {ok : HeapAccount → HeapCall → Prop} {check : HeapAccount → HeapCall → Bool}
    (hcheck : ∀ a c, check a c = true → ok a c) {calls : List HeapCall} {a b : HeapAccount}
    (h : calls.foldlM (fun a c => if check a c then a.next c else none) a = some b) : RunsWhere Step ok a b := by
  have hstep : ∀ a c b, next a c = some b → Step a c b := by
    intro a c b hb
    obtain ⟨t, ht, rfl⟩ := Option.map_eq_some_iff.mp hb
    exact ⟨ht, rfl⟩
  exact (runsWhere_of_foldlM hcheck calls h).mono_step hstep

/-- The blocks lie within what was asked for. -/
structure Inv (start : VirtualAddress) (a : HeapAccount) (nodes : List VirtualAddress) : Prop where
  /-- The heap starts where it did. -/
  start_eq : a.client.heap.startAddress = start
  /-- The blocks lie in the heap that ends after what was asked for. -/
  blocks : HeapClient.Inv (a.client.withEnd (start + BitVec.ofNat 32 a.requested)) nodes

theorem toNat_add_ofNat {x : VirtualAddress} {k : ℕ} (h : x.toNat + k < 2 ^ 32) :
    (x + BitVec.ofNat 32 k).toNat = x.toNat + k := by
  rw [BitVec.toNat_add, BitVec.toNat_ofNat]
  omega

/-- One call that does not merge. -/
theorem Inv.step {start : VirtualAddress} {sizeBytes : SizeT} {a b : HeapAccount} {nodes : List VirtualAddress}
    {c : HeapCall} (hend : start.toNat + sizeBytes.toNat ≤ 2 ^ 32) (h : Inv start a nodes)
    (hwithin : a.Within sizeBytes c) (hun : a.client.Unmerged c) (hs : Step a c b) : ∃ nodes', Inv start b nodes' := by
  rw [Within] at hwithin
  have ha := toNat_add_ofNat (x := start) (k := a.requested) (by omega)
  have hb := toNat_add_ofNat (x := start) (k := a.requested + c.cost) (by omega)
  have hle : a.client.heap.currentAddress.toNat ≤ start.toNat + a.requested := by
    have hcurrent := h.blocks.current_le (by
      change a.client.heap.startAddress.toNat ≤ (start + BitVec.ofNat 32 a.requested).toNat
      rw [h.start_eq, ha]
      omega)
    rwa [HeapClient.withEnd, Heap.withEnd, ha] at hcurrent
  -- the same blocks in the heap that ends after what the call asks for, too
  have hinv : HeapClient.Inv (a.client.withEnd (start + BitVec.ofNat 32 (a.requested + c.cost))) nodes := by
    refine h.blocks.withEnd (e := start + BitVec.ofNat 32 (a.requested + c.cost)) ?_
    rw [hb]
    change a.client.heap.currentAddress.toNat ≤ _
    omega
  have hfits : HeapClient.Fits (a.client.withEnd (start + BitVec.ofNat 32 (a.requested + c.cost))) c := by
    cases c with
    | allocate n =>
      by_cases hn : n = 0#32
      · exact .inl hn
      · refine .inr (.inr ?_)
        rw [RoomAtEnd]
        change a.client.heap.currentAddress.toNat + 13 + n.toNat ≤ (start + BitVec.ofNat 32 _).toNat
        rw [hb, HeapCall.cost, if_neg hn, show (sizeOf).toNat = 13 from rfl]
        omega
    | free => trivial
    | write => trivial
  have hun' : HeapClient.Unmerged (a.client.withEnd (start + BitVec.ofNat 32 (a.requested + c.cost))) c := by
    cases c <;> exact hun
  obtain ⟨⟨nodes', hinv'⟩, hstart, -, -⟩ := hinv.step hfits hun' (hs.1.withEnd _)
  refine ⟨nodes', hstart.trans h.start_eq, ?_⟩
  rw [hs.2]
  exact hinv'

/-- After `Init` there are no blocks, and nothing was asked for. -/
theorem inv_init {util : MemoryUtil} {k k' : Kernel} {mem : Foundations.Memory} {sizeBytes : SizeT} {heap : Heap}
    (hinit : Heap.init util k mem sizeBytes = (some heap, k')) : Inv heap.startAddress ⟨⟨heap, []⟩, 0⟩ [] := by
  have h := HeapClient.inv_init hinit
  refine ⟨rfl, h.withEnd ?_⟩
  have htiles : heap.startAddress.toNat = heap.currentAddress.toNat := h.blocks.tiles
  simp [← htiles]

end HeapAccount

/-- The heap that `Init` makes on a kernel that runs does not pass the end of the address space. -/
theorem Heap.init_fits {util : MemoryUtil} {s : VirtualClient} {k' : Kernel} {mem : Foundations.Memory} {sizeBytes : SizeT}
    {heap : Heap} (h : VirtualClient.Inv util s) (hinit : Heap.init util s.kernel mem sizeBytes = (some heap, k')) :
    heap.startAddress.toNat + heap.memorySizeBytes.toNat ≤ 2 ^ 32 := by
  unfold Heap.init at hinit
  split at hinit
  · simp at hinit
  simp only at hinit
  have hresult := VirtualMemoryAllocator.allocatePages_result util s.kernel
    (alignDown sizeBytes s.kernel.vma.pageSize / s.kernel.vma.pageSize)
  generalize VirtualMemoryAllocator.allocatePages util s.kernel
    (alignDown sizeBytes s.kernel.vma.pageSize / s.kernel.vma.pageSize) = r at hresult hinit
  split at hinit
  · simp at hinit
  rename_i hne
  simp only [Prod.mk.injEq, Option.some.injEq] at hinit
  obtain ⟨rfl, -⟩ := hinit
  cases hresult with
  | refused => exact absurd rfl hne
  | stopped => exact absurd rfl hne
  | @mapped v machine k'' hn hmap hm hvmm =>
    have hspec := VirtualMemoryManager.mapRange_spec h.layout h.tables v
      (s.kernel.pmm.allocatePages (alignDown sizeBytes s.kernel.vma.pageSize / s.kernel.vma.pageSize)).1 true
      (alignDown sizeBytes s.kernel.vma.pageSize / s.kernel.vma.pageSize)
    rw [hmap] at hspec
    obtain ⟨-, -, hfits⟩ := h.mapped_fits hspec (Nat.pos_of_ne_zero fun h0 => hn (BitVec.eq_of_toNat_eq h0))
    rw [s.kernel.vma.pageSize_eq, BitVec.toNat_udiv, show (4096#32).toNat = 4096 from rfl] at hfits
    have hdown := alignDown_page sizeBytes
    rw [s.kernel.vma.pageSize_eq]
    change v.toNat + (alignDown sizeBytes 4096#32).toNat ≤ 2 ^ 32
    omega

/-- **`Allocate` returns** as long as no `Free` finds a free neighbour: after `Init`, for a client that frees
what is live, writes to what is live and asks for less than the heap holds, whatever it asks for next. -/
theorem allocate_terminates (bootInfo : BootInfo) (vmm vmm' : VirtualMemoryManager) (m m' : Machine)
    (imageSize : ℕ) (h : InImage (MemoryUtil.init bootInfo) vmm imageSize)
    (hok : initVirtualMemoryManager (MemoryUtil.init bootInfo) vmm bootInfo m = (true, vmm', m'))
    (pmm : PhysicalMemoryManager) (s : VirtualClient)
    (hrun : Runs (VirtualClient.Step (MemoryUtil.init bootInfo))
      ⟨⟨m', vmm', pmm, (initVirtualMemoryAllocator bootInfo).2⟩, []⟩ s)
    (mem : Foundations.Memory) (sizeBytes : SizeT) (heap : Heap) (k : Kernel)
    (hinit : Heap.init (MemoryUtil.init bootInfo) s.kernel mem sizeBytes = (some heap, k)) (a : HeapAccount)
    (hcalls : RunsWhere HeapAccount.Step (fun a c => a.Within heap.memorySizeBytes c ∧ a.client.Unmerged c)
      ⟨⟨heap, []⟩, 0⟩ a) (n : SizeT) : a.client.heap.allocate n ≠ none := by
  have hinv : VirtualClient.Inv (MemoryUtil.init bootInfo) s :=
    hrun.invariant (fun _ _ _ hs _ hstep => hs.step hstep) (VirtualClient.inv_start h hok pmm _)
  have hend := Heap.init_fits hinv hinit
  obtain ⟨nodes, ha⟩ : ∃ nodes, HeapAccount.Inv heap.startAddress a nodes :=
    hcalls.invariant (P := fun a => ∃ nodes, HeapAccount.Inv heap.startAddress a nodes)
      (fun _ _ _ ⟨_, hb⟩ hc hstep => hb.step hend hc.1 hc.2 hstep) ⟨[], HeapAccount.inv_init hinit⟩
  have hresult := allocate_result ha.blocks.blocks n
  rw [HeapClient.withEnd, Heap.allocate_withEnd] at hresult
  intro hnone
  rw [hnone] at hresult
  cases hresult

/-- On the heap of one page two blocks are allocated, and the first is freed. -/
theorem allocate_terminates_heap4096 :
    ∃ a : HeapAccount, RunsWhere HeapAccount.Step (fun a c => a.Within 4096#32 c ∧ a.client.Unmerged c)
        ⟨⟨HeapClient.heap4096, []⟩, 0⟩ a ∧
      a.requested = 66 ∧ a.client.live = [(0xC100002E#32, 20#32)] ∧ a.client.heap.allocate 30#32 ≠ none := by
  obtain ⟨vmm', m', k', hok, hinit⟩ := HeapClient.exists_start_heap4096
  have hlive : (List.foldlM (fun a c => if decide (HeapAccount.Within 4096#32 a c ∧ HeapClient.Unmerged a.client c) then
      a.next c else none) ⟨⟨HeapClient.heap4096, []⟩, 0⟩ [.allocate 20#32, .allocate 20#32, .free 0xC100000D#32 20#32]).map
        (fun a : HeapAccount => (a.requested, a.client.live)) = some (66, [(0xC100002E#32, 20#32)]) := by
    decide +kernel
  obtain ⟨a, ha, hl⟩ := Option.map_eq_some_iff.mp hlive
  rw [Prod.mk.injEq] at hl
  have hrun := HeapAccount.runsWhere_of_next (fun _ _ => of_decide_eq_true) ha
  exact ⟨a, hrun, hl.1, hl.2, allocate_terminates bootInfo512 vmm512 vmm' ⟨fun _ => 0#8, 0#32, []⟩ m' _ inImage_vmm512 hok
    Client.freshAtOneMB _ .refl _ _ _ _ hinit a hrun 30#32⟩

/-- A walk that comes to a reserved node whose size leads back to it does not end. -/
theorem search_loops {mem : Foundations.Memory} {current node : VirtualAddress} {n : SizeT} (hlt : node < current)
    (hstate : ¬ hasState mem node .free) (hsize : size mem node + sizeOf = 0#32) (fuel : ℕ) (prev : VirtualAddress) :
    Heap.search mem current n fuel node prev = none := by
  induction fuel generalizing prev with
  | zero => rfl
  | succ fuel ih =>
    rw [Heap.search, if_pos hlt, if_neg fun h => hstate h.2, hsize, BitVec.add_zero]
    exact ih node

/-- Where `Free` merges, `Allocate` may not return: of two blocks the first and then the second are freed.
The size of the first now leads 13 bytes before the end of the second, where the client has written a size
that leads nowhere. -/
theorem allocate_diverges :
    ∃ vmm' m' k, initVirtualMemoryManager (MemoryUtil.init bootInfo512) vmm512 bootInfo512
        ⟨fun _ => 0#8, 0#32, []⟩ = (true, vmm', m') ∧
      Heap.init (MemoryUtil.init bootInfo512) ⟨m', vmm', Client.freshAtOneMB, (initVirtualMemoryAllocator bootInfo512).2⟩
        (fun _ => 0#8) 4096#32 = (some HeapClient.heap4096, k) ∧
      ∃ a : HeapAccount, RunsWhere HeapAccount.Step (HeapAccount.Within 4096#32) ⟨⟨HeapClient.heap4096, []⟩, 0⟩ a ∧
        a.Within 4096#32 (.allocate 30#32) ∧ a.client.heap.allocate 30#32 = none := by
  obtain ⟨vmm', m', k, hok, hinit⟩ := HeapClient.exists_start_heap4096
  refine ⟨vmm', m', k, hok, hinit, ?_⟩
  have hrun : (List.foldlM (fun a c => if decide (HeapAccount.Within 4096#32 a c) then a.next c else none)
      ⟨⟨HeapClient.heap4096, []⟩, 0⟩ [.allocate 16#32, .allocate 13#32, .write 0xC100002A#32 0xF3#8, .write 0xC100002B#32 0xFF#8,
        .write 0xC100002C#32 0xFF#8, .write 0xC100002D#32 0xFF#8, .write 0xC100002E#32 0x01#8,
        .free 0xC100000D#32 16#32, .free 0xC100002A#32 13#32]).map (fun a : HeapAccount => (a.requested,
        a.client.heap.startAddress, a.client.heap.currentAddress, size a.client.heap.mem 0xC1000000#32,
        size a.client.heap.mem 0xC100002A#32, decide (hasState a.client.heap.mem 0xC100002A#32 .free))) =
      some (55, 0xC1000000#32, 0xC1000037#32, 29#32, 0xFFFFFFF3#32, false) := by
    decide +kernel
  obtain ⟨a, ha, hl⟩ := Option.map_eq_some_iff.mp hrun
  simp only [Prod.mk.injEq] at hl
  obtain ⟨hrequested, hstart, hcurrent, hfirst, hsecond, hstate⟩ := hl
  refine ⟨a, HeapAccount.runsWhere_of_next (fun _ _ => of_decide_eq_true) ha, ?_, ?_⟩
  · rw [HeapAccount.Within, hrequested]
    decide
  · have hloop : Heap.search a.client.heap.mem 0xC1000037#32 30#32 4294967295 0xC100002A#32 0xC1000000#32 = none :=
      search_loops (by decide) (of_decide_eq_false hstate) (by rw [hsecond]; decide) _ _
    rw [Heap.allocate, if_neg (by decide), hstart, hcurrent, show 2 ^ 32 = 4294967295 + 1 from rfl, Heap.search,
      if_pos (by decide), if_neg (by rw [hfirst]; exact fun h => absurd h.1 (by decide)), hfirst,
      show 0xC1000000#32 + (29#32 + HeapNode.sizeOf) = 0xC100002A#32 by decide, hloop]

end EagleOS.Memory
