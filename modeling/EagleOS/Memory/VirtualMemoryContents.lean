import EagleOS.Foundations.Cells
import EagleOS.Memory.TableStores
import EagleOS.Memory.VirtualMemoryFrames

/-!
# What clients see of virtual memory

A client stores bytes at its live addresses. The processor finds a place for each of them in the page tables, and the
page tables lie in the same physical memory. Clients see a memory of their own all the same: live addresses have
places of their own, and none of them in the page tables, if the pages of the tables are reserved when the kernel
starts.

## The model

`DataStep` is a call of the virtual allocator, a store at a live address, or whatever else the kernel does to memory
that is neither in the page tables nor seen at a live address. `Careful` is the condition on a call: the physical
allocator's search ends properly, and what is freed is live, with frames that follow each other.

## What is proved

* `Guarded.step` — pages that are reserved and not mapped for clients stay so, and live addresses stay mapped.
* `Guarded.cells` — what clients see is a memory of cells (`CellStep`).
* `client_memory_is_cells`, `stored_bytes_stay` — what this says once the kernel has started.
* `boot_pages_kept` — no client is given a page that was reserved then, in any run.
* `kernel_mappings_kept` — the kernel's own addresses stay mapped as they were then.
-/

namespace EagleOS.Memory

open ESTD Boot Foundations Arch VirtualMemoryManager VirtualMemoryAllocator

/-- Where the byte of a virtual address lies. -/
def Kernel.physicalAddress (k : Kernel) (a : VirtualAddress) : Option PhysicalAddress :=
  (k.translate a).map fun t => t.frame + a % 4096#32

/-- The kernel after a store. -/
def Kernel.store (k : Kernel) (x : PhysicalAddress) (b : BitVec 8) : Kernel :=
  { k with machine := { k.machine with mem := k.machine.mem.store8 x b } }

/-- What happens. -/
inductive DataCall where
  /-- A call of the virtual allocator. -/
  | call (c : AllocatorCall)
  /-- A client stores a byte. -/
  | store (a : VirtualAddress) (b : BitVec 8)
  /-- Something else in the kernel. -/
  | other

namespace PageClient

/-- What clients and the kernel do. -/
inductive DataStep (util : MemoryUtil) : PageClient → DataCall → PageClient → Prop
  /-- Any call of the allocator. -/
  | call {s : PageClient} {c : AllocatorCall} :
      DataStep util s (.call c) ⟨c.apply util s.kernel, s.liveAfter util (.call c)⟩
  /-- A store at a live address, where the page tables say. -/
  | store {s : PageClient} {a : VirtualAddress} {x : PhysicalAddress} {b : BitVec 8} : a ∈ s.live →
      s.kernel.physicalAddress a = some x → DataStep util s (.store a b) ⟨s.kernel.store x b, s.live⟩
  /-- The page tables and what clients see stay as they are. -/
  | other {s : PageClient} {mem : Foundations.Memory} :
      (∀ x ∈ tableBytes util s.kernel.vmm, mem x = s.kernel.machine.mem x) →
      (∀ a ∈ s.live, ∀ x, s.kernel.physicalAddress a = some x → mem x = s.kernel.machine.mem x) →
      DataStep util s .other ⟨{ s.kernel with machine := { s.kernel.machine with mem := mem } }, s.live⟩

/-- The condition on a call. -/
def Careful (s : PageClient) : DataCall → Prop
  | .call (.allocatePages n) => s.kernel.pmm.Searchable n
  | .call (.freePages v n) => v ≠ 0#32 → Aligned v ∧ Span v (4096 * n.toNat) ⊆ s.live ∧ FramesFollow s.kernel v n
  | _ => True

/-- What clients see. -/
noncomputable def cells (s : PageClient) : Cells VirtualAddress (BitVec 8) :=
  view s.kernel.physicalAddress s.live s.kernel.machine.mem

/-- What happens to it. -/
def event (util : MemoryUtil) (s : PageClient) : DataCall → CellEvent VirtualAddress (BitVec 8)
  | .call (.allocatePages n) =>
    if (allocatePages util s.kernel n).1 = 0#32 then .nothing
    else .give (Span (allocatePages util s.kernel n).1 (4096 * n.toNat))
  | .call (.freePages v n) => .take (s.live ∩ Span v (4096 * n.toNat))
  | .call (.reservePages _ _) => .nothing
  | .store a b => .write a b
  | .other => .nothing

/-- What holds in every state, for a set of pages that clients are kept out of. -/
structure Guarded (util : MemoryUtil) (pages : Set ℕ) (s : PageClient) : Prop where
  /-- Live addresses have reserved frames of their own. -/
  inv : Inv util s
  /-- They are mapped. -/
  mapped : ∀ a ∈ s.live, s.kernel.translate a ≠ none
  /-- The pages of the set are reserved. -/
  reserved : ∀ q ∈ pages, q < trackedPages → s.kernel.pmm.bitmap.bit q = true
  /-- No live address is mapped to one of them. -/
  apart : ∀ q ∈ pages, q < trackedPages → ∀ a ∈ s.live,
    s.kernel.translate a ≠ some ⟨s.kernel.pmm.pageNumberToAddress (BitVec.ofNat 32 q), true⟩
  /-- The pages of the tables are in the set, as far as the bitmap covers them. -/
  tables : ∀ x ∈ tableBytes util s.kernel.vmm, ∀ q < trackedPages,
    x ∈ Span (s.kernel.pmm.pageNumberToAddress (BitVec.ofNat 32 q)) 4096 → q ∈ pages

end PageClient

/-! ### Calls and translations -/

section

variable {util : MemoryUtil} {k : Kernel}

/-- A page's frame is aligned. -/
theorem Paged.aligned_frame (h : Paged util k) {a : VirtualAddress} {t : Translation} (ht : k.translate a = some t) :
    Aligned t.frame := by
  rw [h.translate_eq] at ht
  rcases h.tables.entries a with h0 | ⟨p, hp, he⟩
  · rw [h0, decode_zero] at ht
    cases ht
  · rw [he, decode_entryFor hp] at ht
    obtain rfl := Option.some.inj ht
    exact hp

theorem vmm_apply (k : Kernel) (c : AllocatorCall) : (c.apply util k).vmm = k.vmm := by
  cases c with
  | allocatePages n =>
    have houtcome := allocatePages_outcome util k n
    rw [AllocatorCall.apply]
    generalize allocatePages util k n = r at houtcome
    cases houtcome <;> rfl
  | freePages v n =>
    have houtcome := freePages_outcome util k v n
    rw [AllocatorCall.apply]
    generalize freePages util k v n = r at houtcome
    cases houtcome <;> rfl
  | reservePages v n => rfl

/-- The physical allocator after `AllocatePages`: what was reserved is so still. -/
theorem pmm_allocatePages (k : Kernel) (n : SizeT) :
    (allocatePages util k n).2.pmm.startAddress = k.pmm.startAddress ∧
      ∀ q, k.pmm.bitmap.bit q = true → (allocatePages util k n).2.pmm.bitmap.bit q = true := by
  have hkept := kept_of_allocatePages k.pmm n
  have houtcome := allocatePages_outcome util k n
  generalize allocatePages util k n = r at houtcome
  cases houtcome with
  | refused => exact ⟨rfl, fun _ hq => hq⟩
  | noFrame => exact hkept
  | stopped => exact hkept
  | mapped => exact hkept

/-- What is mapped stays as it is when something is allocated. -/
theorem Paged.translate_allocatePages (h : Paged util k) (n : SizeT) {a : VirtualAddress} (ha : k.translate a ≠ none) :
    (allocatePages util k n).2.translate a = k.translate a := by
  have hpaged := h.afterAllocatePages n
  have hmapped : ∀ {v p b machine}, k.vmm.mapRange util k.machine v p true n = (b, machine) →
      k.vmm.entryAt util machine.mem a = k.vmm.entryAt util k.machine.mem a := by
    intro v p b machine hmap
    have hspec := mapRange_spec h.layout h.tables v p true n
    rw [hmap] at hspec
    exact hspec.kept a (mt h.translate_eq_none.mpr ha)
  rw [hpaged.translate_eq, h.translate_eq]
  have houtcome := allocatePages_outcome util k n
  generalize allocatePages util k n = r at houtcome
  cases houtcome with
  | refused => rfl
  | noFrame => rfl
  | stopped _ _ hmap => exact congrArg _ (hmapped hmap)
  | mapped _ _ _ _ hmap => exact congrArg _ (hmapped hmap)

/-- The physical allocator gave the frames of an allocation, and it is not 0. -/
theorem frame_ne_zero {n : SizeT} (hv : (allocatePages util k n).1 ≠ 0#32) : (k.pmm.allocatePages n).1 ≠ 0#32 := by
  have houtcome := allocatePages_outcome util k n
  generalize allocatePages util k n = r at houtcome hv
  cases houtcome with
  | refused => exact absurd rfl hv
  | noFrame => exact absurd rfl hv
  | stopped => exact absurd rfl hv
  | mapped _ h0 => exact h0

/-- A place is in the frame of its page. -/
theorem mem_frame {a : VirtualAddress} {x : PhysicalAddress} (hx : k.physicalAddress a = some x) :
    ∃ t, k.translate a = some t ∧ x = t.frame + a % 4096#32 ∧ x ∈ Span t.frame 4096 := by
  rw [Kernel.physicalAddress, Option.map_eq_some_iff] at hx
  obtain ⟨t, ht, rfl⟩ := hx
  refine ⟨t, ht, rfl, ?_⟩
  rw [mem_span, BitVec.add_comm, BitVec.add_sub_cancel, BitVec.toNat_umod]
  exact Nat.mod_lt _ (by decide)

/-- Places are the same when translations are. -/
theorem physicalAddress_congr {k' : Kernel} {a : VirtualAddress} (h : k'.translate a = k.translate a) :
    k'.physicalAddress a = k.physicalAddress a := by
  rw [Kernel.physicalAddress, Kernel.physicalAddress, h]

end

namespace PageClient

variable {util : MemoryUtil} {pages : Set ℕ} {s : PageClient}

/-! ### Places -/

/-- The frame of a live address, as a page of the bitmap. -/
theorem Guarded.owns (h : Guarded util pages s) {a : VirtualAddress} (ha : a ∈ s.live) : ∃ q, Owns s.kernel a q :=
  h.inv.owns a ha (h.mapped a ha)

/-- A live address has a place. -/
theorem Guarded.exists_place (h : Guarded util pages s) {a : VirtualAddress} (ha : a ∈ s.live) :
    ∃ x, s.kernel.physicalAddress a = some x := by
  obtain ⟨t, ht⟩ := Option.ne_none_iff_exists'.mp (h.mapped a ha)
  exact ⟨t.frame + a % 4096#32, by rw [Kernel.physicalAddress, ht, Option.map_some]⟩

/-- Live addresses have places of their own. -/
theorem Guarded.ownPlaces (h : Guarded util pages s) : OwnPlaces s.kernel.physicalAddress s.live := by
  intro a ha b hb x hxa hxb
  obtain ⟨ta, hta, hx, -⟩ := mem_frame hxa
  obtain ⟨tb, htb, hx', -⟩ := mem_frame hxb
  have hala := h.inv.paged.aligned_frame hta
  have halb := h.inv.paged.aligned_frame htb
  have hplace := hx.symm.trans hx'
  rw [Aligned] at hala halb
  rw [← BitVec.toNat_inj, BitVec.toNat_add, BitVec.toNat_add, BitVec.toNat_umod, BitVec.toNat_umod,
    show (4096#32).toNat = 4096 from rfl] at hplace
  have hframe : ta.frame = tb.frame := BitVec.eq_of_toNat_eq (by omega)
  -- both may be written
  obtain ⟨q, hq⟩ := h.owns ha
  obtain ⟨r, hr⟩ := h.owns hb
  have hwrite : ta.writable = tb.writable := by
    rw [Option.some.inj (hta.symm.trans hq.mapped), Option.some.inj (htb.symm.trans hr.mapped)]
  obtain rfl : ta = tb := by
    cases ta
    cases tb
    cases hframe
    cases hwrite
    rfl
  have hpage : a.toNat / 4096 = b.toNat / 4096 := h.inv.apart a ha b hb _ hta htb
  apply BitVec.eq_of_toNat_eq
  omega

/-- The place of a live address is not in the tables. -/
theorem Guarded.notMem_tableBytes (h : Guarded util pages s) {a : VirtualAddress} (ha : a ∈ s.live) {x : PhysicalAddress}
    (hx : s.kernel.physicalAddress a = some x) : x ∉ tableBytes util s.kernel.vmm := by
  intro hin
  obtain ⟨t, ht, -, hspan⟩ := mem_frame hx
  obtain ⟨q, hq⟩ := h.owns ha
  obtain rfl := Option.some.inj (ht.symm.trans hq.mapped)
  exact h.apart q (h.tables x hin q hq.tracked hspan) hq.tracked a ha hq.mapped

/-! ### Stores -/

/-- Memory that agrees on the tables. -/
theorem Guarded.agree (h : Guarded util pages s) {mem : Foundations.Memory}
    (hmem : ∀ x ∈ tableBytes util s.kernel.vmm, mem x = s.kernel.machine.mem x) :
    Guarded util pages ⟨{ s.kernel with machine := { s.kernel.machine with mem := mem } }, s.live⟩ ∧
      ∀ a, Kernel.translate { s.kernel with machine := { s.kernel.machine with mem := mem } } a = s.kernel.translate a := by
  have hsame := sameTables_of_agree hmem
  have hstep : Step util s .other ⟨{ s.kernel with machine := { s.kernel.machine with mem := mem } }, s.live⟩ :=
    ⟨.other hsame, rfl⟩
  have hinv := h.inv.step (c := .other) trivial hstep
  have htranslate : ∀ a, Kernel.translate { s.kernel with machine := { s.kernel.machine with mem := mem } } a =
      s.kernel.translate a := by
    intro a
    rw [hinv.paged.translate_eq, h.inv.paged.translate_eq]
    exact congrArg _ (hsame a).2
  exact ⟨⟨hinv, fun a ha => by rw [htranslate]; exact h.mapped a ha, h.reserved,
    fun q hq htracked a ha => by rw [htranslate]; exact h.apart q hq htracked a ha, h.tables⟩, htranslate⟩

/-- A store at a live address changes no word of the tables. -/
theorem Guarded.store_agrees (h : Guarded util pages s) {a : VirtualAddress} (ha : a ∈ s.live) {x : PhysicalAddress}
    (hx : s.kernel.physicalAddress a = some x) (b : BitVec 8) :
    ∀ y ∈ tableBytes util s.kernel.vmm, s.kernel.machine.mem.store8 x b y = s.kernel.machine.mem y := by
  intro y hy
  refine Memory.store8_of_ne ?_
  rintro rfl
  exact h.notMem_tableBytes ha hx hy

/-! ### Calls -/

/-- The pages of an allocation: they were not mapped, and are mapped to pages that were free. -/
theorem Guarded.fresh (h : Guarded util pages s) {n : SizeT} (hs : s.kernel.pmm.Searchable n)
    (hv : (allocatePages util s.kernel n).1 ≠ 0#32) {a : VirtualAddress}
    (ha : a ∈ Span (allocatePages util s.kernel n).1 (4096 * n.toNat)) :
    s.kernel.translate a = none ∧ ∃ q < trackedPages, s.kernel.pmm.bitmap.bit q = false ∧
      (allocatePages util s.kernel n).2.translate a = some ⟨s.kernel.pmm.pageNumberToAddress (BitVec.ofNat 32 q), true⟩ := by
  obtain ⟨hpages, -⟩ := h.inv.paged.allocated rfl hv
  have hpos : 0 < n.toNat := by
    by_contra h0
    rw [mem_span] at ha
    omega
  have hal := (hpages 0 hpos).1
  rw [pageAt_zero] at hal
  obtain ⟨i, hi, hsame⟩ := (inPages_iff_mem_span hal).mpr ha
  obtain ⟨p, hp, halloc⟩ := frames_of_allocatePages hs (frame_ne_zero hv)
  have hend : p + n.toNat ≤ trackedPages := hp.1
  obtain ⟨-, -, hnone, hmapped⟩ := hpages i hi
  refine ⟨by rw [← h.inv.paged.translate_congr hsame, hnone], p + i, by omega, hp.2 _ (by omega) (by omega), ?_⟩
  rw [← (h.inv.paged.afterAllocatePages n).translate_congr hsame, hmapped, halloc, pageAt_pageNumberToAddress]

theorem Guarded.allocatePages (h : Guarded util pages s) {n : SizeT} (hs : s.kernel.pmm.Searchable n) :
    Guarded util pages ⟨(VirtualMemoryAllocator.allocatePages util s.kernel n).2, s.liveAfter util (.call (.allocatePages n))⟩ := by
  obtain ⟨hstart, hbits⟩ : (VirtualMemoryAllocator.allocatePages util s.kernel n).2.pmm.startAddress = _ ∧ _ :=
    pmm_allocatePages s.kernel n
  have haddr := fun q : ℕ => Client.pageNumberToAddress_congr hstart (BitVec.ofNat 32 q)
  have hvmm : (VirtualMemoryAllocator.allocatePages util s.kernel n).2.vmm = s.kernel.vmm :=
    vmm_apply s.kernel (.allocatePages n)
  have hold : ∀ a ∈ s.live, (VirtualMemoryAllocator.allocatePages util s.kernel n).2.translate a = s.kernel.translate a :=
    fun a ha => h.inv.paged.translate_allocatePages n (h.mapped a ha)
  have hcases : ∀ a ∈ s.liveAfter util (.call (.allocatePages n)), a ∈ s.live ∨
      ∃ q < trackedPages, s.kernel.pmm.bitmap.bit q = false ∧
        (VirtualMemoryAllocator.allocatePages util s.kernel n).2.translate a =
          some ⟨s.kernel.pmm.pageNumberToAddress (BitVec.ofNat 32 q), true⟩ := by
    intro a ha
    rw [liveAfter] at ha
    split at ha
    · exact .inl ha
    · rename_i hv
      exact ha.imp_right fun hin => (h.fresh hs hv hin).2
  refine ⟨h.inv.allocated hs, fun a ha => ?_, fun q hq ht => hbits q (h.reserved q hq ht), fun q hq ht a ha => ?_, ?_⟩
  · rcases hcases a ha with hlive | ⟨q, -, -, hmapped⟩
    · rw [hold a hlive]
      exact h.mapped a hlive
    · simp [hmapped]
  · rw [haddr]
    rcases hcases a ha with hlive | ⟨r, hr, hfree, hmapped⟩
    · rw [hold a hlive]
      exact h.apart q hq ht a hlive
    · -- the page was free, and those of the set are not
      intro he
      have hframe := congrArg Translation.frame (Option.some.inj (hmapped.symm.trans he))
      have hT : trackedPages = 131072 := rfl
      rw [pageNumberToAddress_inj (by omega) (by omega)] at hframe
      rw [hframe, h.reserved q hq ht] at hfree
      cases hfree
  · simp only [hvmm, haddr]
    exact h.tables

/-- What is freed was mapped, to frames of its own that follow each other; the call succeeds. -/
theorem Guarded.freePages_succeeds (h : Guarded util pages s) {v : VirtualAddress} {n : SizeT} (hv : Aligned v)
    (hlive : Span v (4096 * n.toNat) ⊆ s.live) (hfollow : FramesFollow s.kernel v n) :
    (VirtualMemoryAllocator.freePages util s.kernel v n).1 = true := by
  have hin : ∀ i < n.toNat, pageAt v i ∈ s.live := fun i hi => hlive ((inPages_iff_mem_span hv).mp ⟨i, hi, rfl⟩)
  refine h.inv.paged.freePages_succeeds_of_le hv ?_ fun i hi => h.mapped _ (hin i hi)
  rcases Nat.eq_zero_or_pos n.toNat with h0 | hpos
  · omega
  -- frames that follow each other are no more than the bitmap has
  obtain ⟨f, hf, -⟩ := h.inv.frames hv hpos hin fun i hi => h.mapped _ (hin i hi)
  obtain ⟨i, hi, he⟩ := (framesFollow_iff hpos hf).mp hfollow (n.toNat - 1) (by omega)
  have htracked : f i < 131072 := (hf i hi).tracked
  omega

/-- The pages of the set are not those that are given back. -/
theorem Guarded.reserved_freePages (h : Guarded util pages s) {v : VirtualAddress} {n : SizeT} (hv0 : v ≠ 0#32)
    (hv : Aligned v) (hlive : Span v (4096 * n.toNat) ⊆ s.live) (hfollow : FramesFollow s.kernel v n) {q : ℕ} (hq : q ∈ pages)
    (ht : q < trackedPages) : (VirtualMemoryAllocator.freePages util s.kernel v n).2.pmm.bitmap.bit q = true := by
  by_cases hn : n = 0#32
  · rw [hn, bit_freePages_zero]
    exact h.reserved q hq ht
  have hpos : 0 < n.toNat := Nat.pos_of_ne_zero fun h0 => hn (BitVec.eq_of_toNat_eq h0)
  have hin : ∀ i < n.toNat, pageAt v i ∈ s.live := fun i hi => hlive ((inPages_iff_mem_span hv).mp ⟨i, hi, rfl⟩)
  obtain ⟨f, hf, hbits⟩ := h.inv.cleared hv0 hpos (h.freePages_succeeds hv hlive hfollow) hlive
  rw [← Bool.not_eq_false, hbits]
  rintro (⟨-, hlow, hhigh⟩ | hfree)
  · obtain ⟨i, hi, he⟩ := (framesFollow_iff hpos hf).mp hfollow (q - f 0) (by omega)
    obtain rfl : f i = q := by omega
    exact h.apart _ hq ht _ (hin i hi) (hf i hi).mapped
  · rw [h.reserved q hq ht] at hfree
    cases hfree

theorem Guarded.freePages (h : Guarded util pages s) {v : VirtualAddress} {n : SizeT}
    (hok : s.Careful (.call (.freePages v n))) :
    Guarded util pages ⟨(VirtualMemoryAllocator.freePages util s.kernel v n).2, s.liveAfter util (.call (.freePages v n))⟩ := by
  by_cases hv0 : v = 0#32
  · -- nothing is mapped at a live address of the first page, and nothing is freed
    subst hv0
    have hsub : s.live \ Span 0#32 (4096 * n.toNat) ⊆ s.live := Set.sdiff_subset
    rw [liveAfter, freePages_zero, if_pos rfl]
    exact ⟨h.inv.keep_live h.inv.paged rfl (fun _ _ _ hq => hq) fun a ha => .kept ha.1 rfl fun q hown => hown.reserved,
      fun a ha => h.mapped a (hsub ha), h.reserved, fun q hq ht a ha => h.apart q hq ht a (hsub ha), h.tables⟩
  obtain ⟨hv, hlive, hfollow⟩ := hok hv0
  have hdone := h.freePages_succeeds hv hlive hfollow
  have hstart : (VirtualMemoryAllocator.freePages util s.kernel v n).2.pmm.startAddress = _ := startAddress_freePages s.kernel v n
  have haddr := fun q : ℕ => Client.pageNumberToAddress_congr hstart (BitVec.ofNat 32 q)
  have hvmm : (VirtualMemoryAllocator.freePages util s.kernel v n).2.vmm = s.kernel.vmm :=
    vmm_apply s.kernel (.freePages v n)
  have hinv := h.inv.freePages (v := v) (n := n) fun _ _ _ => ⟨hlive, hfollow⟩
  obtain ⟨-, -, hothers⟩ := h.inv.paged.freed hdone hv0
  have hrest : s.liveAfter util (.call (.freePages v n)) = s.live \ Span v (4096 * n.toNat) := by rw [liveAfter, if_pos hdone]
  rw [hrest] at hinv ⊢
  have hold : ∀ a ∈ s.live \ Span v (4096 * n.toNat),
      (VirtualMemoryAllocator.freePages util s.kernel v n).2.translate a = s.kernel.translate a :=
    fun a ha => hothers a fun hin => ha.2 ((inPages_iff_mem_span hv).mp hin)
  refine ⟨hinv, fun a ha => ?_, fun q hq ht => h.reserved_freePages hv0 hv hlive hfollow hq ht, fun q hq ht a ha => ?_, ?_⟩
  · rw [hold a ha]
    exact h.mapped a ha.1
  · rw [hold a ha, haddr]
    exact h.apart q hq ht a ha.1
  · simp only [hvmm, haddr]
    exact h.tables

/-- Every step keeps what is guarded. -/
theorem Guarded.step (h : Guarded util pages s) {c : DataCall} {t : PageClient} (hok : s.Careful c)
    (hs : DataStep util s c t) : Guarded util pages t := by
  cases hs with
  | @call c =>
    cases c with
    | allocatePages n => exact h.allocatePages hok
    | freePages v n => exact h.freePages hok
    | reservePages v n =>
      exact ⟨h.inv.keep_live ⟨h.inv.paged.layout, h.inv.paged.tables, h.inv.paged.cr3⟩ rfl (fun _ _ _ hq => hq)
        fun a ha => .kept ha rfl fun q hown => hown.reserved, h.mapped, h.reserved, h.apart, h.tables⟩
  | store ha hx => exact (h.agree (h.store_agrees ha hx _)).1
  | other htables => exact (h.agree htables).1

/-- What is mapped and not a client's is mapped to the same place after every step, and is not a client's then. -/
theorem Guarded.kept_others (h : Guarded util pages s) {c : DataCall} {t : PageClient} (hok : s.Careful c)
    (hs : DataStep util s c t) {a : VirtualAddress} (ha : a ∉ s.live) (hmapped : s.kernel.translate a ≠ none) :
    a ∉ t.live ∧ t.kernel.translate a = s.kernel.translate a := by
  cases hs with
  | @call c =>
    cases c with
    | allocatePages n =>
      refine ⟨?_, h.inv.paged.translate_allocatePages n hmapped⟩
      rw [liveAfter]
      split
      · exact ha
      · rename_i hv
        rintro (hlive | hnew)
        · exact ha hlive
        · exact hmapped (h.fresh hok hv hnew).1
    | freePages v n =>
      refine ⟨?_, ?_⟩
      · rw [liveAfter]
        split
        · exact fun hlive => ha hlive.1
        · exact ha
      by_cases hv0 : v = 0#32
      · rw [AllocatorCall.apply, hv0, freePages_zero]
      obtain ⟨hv, hlive, hfollow⟩ := hok hv0
      refine (h.inv.paged.freed (h.freePages_succeeds hv hlive hfollow) hv0).2.2 a fun hin => ?_
      exact ha (hlive ((inPages_iff_mem_span hv).mp hin))
    | reservePages v n => exact ⟨ha, rfl⟩
  | store hlive hx => exact ⟨ha, (h.agree (h.store_agrees hlive hx _)).2 a⟩
  | other htables => exact ⟨ha, (h.agree htables).2 a⟩

/-! ### Cells -/

/-- Live addresses that are mapped as before and whose bytes are not stored to. -/
theorem Guarded.kept_bytes (h : Guarded util pages s) {k' : Kernel} (hmem : OnlyTables util s.kernel.vmm s.kernel.machine.mem
    k'.machine.mem) {a : VirtualAddress} (ha : a ∈ s.live) {x : PhysicalAddress} (hx : s.kernel.physicalAddress a = some x) :
    k'.machine.mem x = s.kernel.machine.mem x := hmem x (h.notMem_tableBytes ha hx)

theorem Guarded.cells_allocatePages (h : Guarded util pages s) {n : SizeT} (hs : s.kernel.pmm.Searchable n) :
    CellStep s.cells (s.event util (.call (.allocatePages n)))
      (cells ⟨(VirtualMemoryAllocator.allocatePages util s.kernel n).2, s.liveAfter util (.call (.allocatePages n))⟩) := by
  have hmem : OnlyTables util s.kernel.vmm s.kernel.machine.mem
      (VirtualMemoryAllocator.allocatePages util s.kernel n).2.machine.mem :=
    onlyTables_apply h.inv.paged (.allocatePages n)
  have hplaces : ∀ a ∈ s.live, (VirtualMemoryAllocator.allocatePages util s.kernel n).2.physicalAddress a =
      s.kernel.physicalAddress a :=
    fun a ha => physicalAddress_congr (h.inv.paged.translate_allocatePages n (h.mapped a ha))
  rw [event, liveAfter]
  split
  · exact view_congr hplaces fun a ha x hx => h.kept_bytes hmem ha hx
  · rename_i hv
    refine view_give ?_ hplaces (fun a ha x hx => h.kept_bytes hmem ha hx) fun a ha => ?_
    · rw [Set.disjoint_left]
      exact fun a ha hin => h.mapped a ha (h.fresh hs hv hin).1
    · obtain ⟨-, q, -, -, hmapped⟩ := h.fresh hs hv ha
      simp [Kernel.physicalAddress, hmapped]

theorem Guarded.cells_freePages (h : Guarded util pages s) {v : VirtualAddress} {n : SizeT}
    (hok : s.Careful (.call (.freePages v n))) :
    CellStep s.cells (s.event util (.call (.freePages v n)))
      (cells ⟨(VirtualMemoryAllocator.freePages util s.kernel v n).2, s.liveAfter util (.call (.freePages v n))⟩) := by
  have hmem : OnlyTables util s.kernel.vmm s.kernel.machine.mem
      (VirtualMemoryAllocator.freePages util s.kernel v n).2.machine.mem := onlyTables_apply h.inv.paged (.freePages v n)
  have hdone : (VirtualMemoryAllocator.freePages util s.kernel v n).1 = true := by
    by_cases hv0 : v = 0#32
    · rw [hv0, freePages_zero]
    · obtain ⟨hv, hlive, hfollow⟩ := hok hv0
      exact h.freePages_succeeds hv hlive hfollow
  have hrest : s.liveAfter util (.call (.freePages v n)) = s.live \ (s.live ∩ Span v (4096 * n.toNat)) := by
    rw [liveAfter, if_pos hdone, Set.sdiff_self_inter]
  rw [event, hrest]
  refine view_take Set.inter_subset_left (fun a ha => ?_) (fun a ha => physicalAddress_congr ?_)
    fun a ha x hx => h.kept_bytes hmem ha.1 hx
  · rw [Kernel.physicalAddress, ne_eq, Option.map_eq_none_iff]
    exact h.mapped a ha.1
  · by_cases hv0 : v = 0#32
    · rw [hv0, freePages_zero]
    · obtain ⟨hv, -⟩ := hok hv0
      exact (h.inv.paged.freed hdone hv0).2.2 a fun hin => ha.2 ⟨ha.1, (inPages_iff_mem_span hv).mp hin⟩

/-- **Refinement**: what a step does to what clients see. -/
theorem Guarded.cells (h : Guarded util pages s) {c : DataCall} {t : PageClient} (hok : s.Careful c)
    (hs : DataStep util s c t) : CellStep s.cells (s.event util c) t.cells := by
  cases hs with
  | @call c =>
    cases c with
    | allocatePages n => exact h.cells_allocatePages hok
    | freePages v n => exact h.cells_freePages hok
    | reservePages v n => exact rfl
  | @store a x b ha hx =>
    have hsame := (h.agree (h.store_agrees ha hx b)).2
    have hcells : PageClient.cells ⟨s.kernel.store x b, s.live⟩ =
        view s.kernel.physicalAddress s.live (s.kernel.machine.mem.store8 x b) :=
      view_congr (fun a _ => physicalAddress_congr (hsame a)) fun _ _ _ _ => rfl
    rw [hcells]
    exact view_write h.ownPlaces ha hx (Memory.store8_self _ _ _) fun q hq => Memory.store8_of_ne hq
  | other htables hseen =>
    exact view_congr (fun a _ => physicalAddress_congr ((h.agree htables).2 a)) hseen

/-- Over a run. -/
theorem Guarded.cells_of_runs (h : Guarded util pages s) {a : VirtualAddress} {t : PageClient}
    (hrun : RunsWhere (DataStep util) (fun s c => s.Careful c ∧ ¬ (s.event util c).Touches a) s t) :
    Guarded util pages t ∧ RunsWhere CellStep (fun _ e => ¬ e.Touches a) s.cells t.cells := by
  refine hrun.invariant (P := fun u => Guarded util pages u ∧ RunsWhere CellStep (fun _ e => ¬ e.Touches a) s.cells u.cells)
    ?_ ⟨h, .refl⟩
  rintro u c w ⟨hu, hrun⟩ ⟨hok, htouch⟩ hstep
  exact ⟨hu.step hok hstep, hrun.tail htouch (hu.cells hok hstep)⟩

end PageClient

/-! ### After the kernel's start -/

/-- The pages of the tables, if the bitmap covers them, are among those reserved when the kernel starts. -/
def TablesReserved (bootInfo : BootInfo) (vmm : VirtualMemoryManager) : Prop :=
  ∀ x ∈ tableBytes (MemoryUtil.init bootInfo) vmm, (pageOf bootInfo.systemMemoryMap x).toNat < trackedPages →
    ReservedAtBoot bootInfo (pageOf bootInfo.systemMemoryMap x).toNat

/-- Nothing is allocated when the kernel has started. -/
def startClient (bootInfo : BootInfo) (bitmap : Bitmap trackedPages) (vmm : VirtualMemoryManager) (m : Machine) : PageClient :=
  ⟨⟨m, vmm, (initPhysicalMemoryManager bootInfo bitmap).2, (initVirtualMemoryAllocator bootInfo).2⟩, ∅⟩

section

variable {bootInfo : BootInfo} {vmm vmm' : VirtualMemoryManager} {m m' : Machine} {imageSize : ℕ}

namespace PageClient

theorem guarded_start (h : InImage (MemoryUtil.init bootInfo) vmm imageSize)
    (hok : initVirtualMemoryManager (MemoryUtil.init bootInfo) vmm bootInfo m = (true, vmm', m'))
    (htables : TablesReserved bootInfo vmm') (bitmap : Bitmap trackedPages) :
    Guarded (MemoryUtil.init bootInfo) {q | ReservedAtBoot bootInfo q} (startClient bootInfo bitmap vmm' m') := by
  refine ⟨inv_start h hok bitmap _, fun a ha => absurd ha (Set.notMem_empty a),
    fun q hq ht => (bit_initPhysicalMemoryManager bootInfo bitmap ht).mpr hq,
    fun q _ _ a ha => absurd ha (Set.notMem_empty a), fun x hx q ht hin => ?_⟩
  have hlt : q < 131072 := ht
  have hqn : (BitVec.ofNat 32 q).toNat = q := PhysicalMemoryManager.ofNat_toNat_of_lt (by omega)
  have hpage : (pageOf bootInfo.systemMemoryMap x).toNat = q := by
    have hin' := (PhysicalMemoryManager.mem_span_pageNumberToAddress (n := 1)
      (initPhysicalMemoryManager bootInfo bitmap).2 (show (BitVec.ofNat 32 q).toNat + 1 ≤ 2 ^ 20 by omega) x).mp hin
    rw [addressToPageNumber_initPhysicalMemoryManager, mem_cells, hqn] at hin'
    omega
  have hres := htables x hx (by rwa [hpage])
  rwa [hpage] at hres

/-- What is mapped and not a client's is so over any run. -/
theorem Guarded.kept_others_of_runs {util : MemoryUtil} {pages : Set ℕ} {s t : PageClient} (h : Guarded util pages s)
    (hrun : RunsWhere (DataStep util) Careful s t) {a : VirtualAddress} (ha : a ∉ s.live)
    (hmapped : s.kernel.translate a ≠ none) : a ∉ t.live ∧ t.kernel.translate a = s.kernel.translate a := by
  refine (hrun.invariant (P := fun u => Guarded util pages u ∧ a ∉ u.live ∧ u.kernel.translate a = s.kernel.translate a) ?_
    ⟨h, ha, rfl⟩).2
  rintro u c w ⟨hu, hnot, hsame⟩ hok hstep
  obtain ⟨hnot', hsame'⟩ := hu.kept_others hok hstep hnot (by rwa [hsame])
  exact ⟨hu.step hok hstep, hnot', hsame'.trans hsame⟩

/-- In every state of a run. -/
theorem Guarded.runs {util : MemoryUtil} {pages : Set ℕ} {s t : PageClient} (h : Guarded util pages s)
    (hrun : RunsWhere (DataStep util) Careful s t) : Guarded util pages t :=
  hrun.invariant (fun _ _ _ hs hok hstep => hs.step hok hstep) h

end PageClient

/-- The bytes of the tables lie in the whole pages of the image. -/
theorem tableBytes_in_image {util : MemoryUtil} {vmm : VirtualMemoryManager} (h : InImage util vmm imageSize)
    (hstart : vmm.virtualStartAddress = 0xC0000000#32) {x : PhysicalAddress} (hx : x ∈ tableBytes util vmm) :
    (x - util.kernelPhysicalStartAddress).toNat < 4096 * (imageSize / 4096) := by
  obtain ⟨table, -, hin, htable⟩ := page_of_tableBytes (layout_of_inImage h hstart) hx
  have himage := h.image
  -- the page is one that the kernel sees in its image
  obtain ⟨y, hy, hyal, hlow, hend⟩ : ∃ y, table = util.kernelVirtualToPhysicalAddress y ∧ WithinImage imageSize y 4096 := by
    rcases htable with rfl | ⟨v, hv, rfl⟩
    · exact ⟨_, rfl, h.pageDirectory⟩
    refine ⟨_, rfl, ?_⟩
    rcases hv with h0 | h768
    · rw [tableAt, if_pos h0]
      exact h.pageTable0
    · obtain ⟨hal, hlow, hend⟩ := h.pageTables768
      have hat := tableAt_toNat h hstart h768
      have hlt := v.isLt
      rw [Aligned] at hal
      refine ⟨?_, ?_, ?_⟩
      · rw [Aligned, hat]
        omega
      · omega
      · omega
  subst hy
  rw [Aligned] at hyal
  rw [mem_span, MemoryUtil.kernelVirtualToPhysicalAddress, h.virtualStart] at hin
  have hbase : (0xC0000000#32).toNat = 0xC0000000 := rfl
  simp only [BitVec.toNat_sub, BitVec.toNat_add, hbase] at hin ⊢
  omega

/-- The tables are reserved when the image lies in the bitmap: they take whole pages of it. -/
theorem tablesReserved_of_inImage (h : InImage (MemoryUtil.init bootInfo) vmm bootInfo.kernelSize.toNat)
    (hstart : vmm.virtualStartAddress = 0xC0000000#32) (hal : Aligned (startOf bootInfo.systemMemoryMap))
    (hfits : (pageOf bootInfo.systemMemoryMap bootInfo.kernelPhysicalStartAddress).toNat +
      bootInfo.kernelSize.toNat / 4096 ≤ trackedPages) : TablesReserved bootInfo vmm := by
  intro x hx _
  have hin := tableBytes_in_image h hstart hx
  have hpal : Aligned bootInfo.kernelPhysicalStartAddress := h.physicalStart
  have hcount : (bootInfo.kernelSize / 4096#32).toNat = bootInfo.kernelSize.toNat / 4096 := by
    rw [BitVec.toNat_udiv]
    rfl
  change (x - bootInfo.kernelPhysicalStartAddress).toNat < _ at hin
  have hT : trackedPages = 131072 := rfl
  refine .inr (.inr (.inl ⟨by rwa [hcount], ?_⟩))
  rw [hcount]
  rw [Aligned] at hal hpal
  simp only [pageOf, BitVec.toNat_udiv, BitVec.toNat_sub, show (4096#32).toNat = 4096 from rfl] at hin hfits ⊢
  omega

/-- **What clients see is a memory of cells**: once the kernel has started, if the pages of its page tables are
reserved: whatever is allocated, freed and stored, in any order, what a client sees after a step is what it saw before,
but for the cell that was written, the cells that were given, and the cells that were taken. -/
theorem client_memory_is_cells (bootInfo : BootInfo) (bitmap : Bitmap trackedPages) (vmm vmm' : VirtualMemoryManager)
    (m m' : Machine) (imageSize : ℕ) (h : InImage (MemoryUtil.init bootInfo) vmm imageSize)
    (hok : initVirtualMemoryManager (MemoryUtil.init bootInfo) vmm bootInfo m = (true, vmm', m'))
    (htables : TablesReserved bootInfo vmm') (s : PageClient)
    (hrun : RunsWhere (PageClient.DataStep (MemoryUtil.init bootInfo)) PageClient.Careful
      (startClient bootInfo bitmap vmm' m') s) (c : DataCall) (t : PageClient) (hcareful : s.Careful c)
    (hstep : PageClient.DataStep (MemoryUtil.init bootInfo) s c t) :
    CellStep s.cells (s.event (MemoryUtil.init bootInfo) c) t.cells :=
  ((PageClient.guarded_start h hok htables bitmap).runs hrun).cells hcareful hstep

/-- **What was stored is read**: in any such run, a byte that a client has stored at a live address is found there
through the page tables, after any further steps that neither store at this address nor free it. -/
theorem stored_bytes_stay (bootInfo : BootInfo) (bitmap : Bitmap trackedPages) (vmm vmm' : VirtualMemoryManager)
    (m m' : Machine) (imageSize : ℕ) (h : InImage (MemoryUtil.init bootInfo) vmm imageSize)
    (hok : initVirtualMemoryManager (MemoryUtil.init bootInfo) vmm bootInfo m = (true, vmm', m'))
    (htables : TablesReserved bootInfo vmm') (s t u : PageClient)
    (hrun : RunsWhere (PageClient.DataStep (MemoryUtil.init bootInfo)) PageClient.Careful
      (startClient bootInfo bitmap vmm' m') s) (a : VirtualAddress) (b : BitVec 8)
    (hstore : PageClient.DataStep (MemoryUtil.init bootInfo) s (.store a b) t)
    (hrest : RunsWhere (PageClient.DataStep (MemoryUtil.init bootInfo))
      (fun s c => s.Careful c ∧ ¬ (s.event (MemoryUtil.init bootInfo) c).Touches a) t u) :
    ∃ x, u.kernel.physicalAddress a = some x ∧ u.kernel.machine.mem x = b := by
  have hs := (PageClient.guarded_start h hok htables bitmap).runs hrun
  have hcareful : s.Careful (.store a b) := trivial
  have hseen : u.cells a = some b :=
    written_of_runs (hs.cells hcareful hstore) ((hs.step hcareful hstore).cells_of_runs hrest).2
  obtain ⟨hlive, hplace⟩ : a ∈ u.live ∧ u.kernel.physicalAddress a ≠ none :=
    view_ne_none.mp (show u.cells a ≠ none by simp [hseen])
  obtain ⟨x, hx⟩ := Option.ne_none_iff_exists'.mp hplace
  rw [PageClient.cells, view_of_mem hlive hx] at hseen
  exact ⟨x, hx, Option.some.inj hseen⟩

/-- **The pages reserved at the start**: in every state of such a run they are still reserved, no live address is mapped
to one of them, and no store at a live address changes what any address is mapped to. -/
theorem boot_pages_kept (bootInfo : BootInfo) (bitmap : Bitmap trackedPages) (vmm vmm' : VirtualMemoryManager)
    (m m' : Machine) (imageSize : ℕ) (h : InImage (MemoryUtil.init bootInfo) vmm imageSize)
    (hok : initVirtualMemoryManager (MemoryUtil.init bootInfo) vmm bootInfo m = (true, vmm', m'))
    (htables : TablesReserved bootInfo vmm') (s : PageClient)
    (hrun : RunsWhere (PageClient.DataStep (MemoryUtil.init bootInfo)) PageClient.Careful
      (startClient bootInfo bitmap vmm' m') s) :
    (∀ q < trackedPages, ReservedAtBoot bootInfo q → s.kernel.pmm.bitmap.bit q = true ∧
      ∀ a ∈ s.live, s.kernel.translate a ≠ some ⟨s.kernel.pmm.pageNumberToAddress (BitVec.ofNat 32 q), true⟩) ∧
    ∀ a b t, PageClient.DataStep (MemoryUtil.init bootInfo) s (.store a b) t →
      ∀ v, t.kernel.translate v = s.kernel.translate v := by
  have hs := (PageClient.guarded_start h hok htables bitmap).runs hrun
  refine ⟨fun q hq hres => ⟨hs.reserved q hres hq, hs.apart q hres hq⟩, ?_⟩
  rintro a b t ⟨⟩ v
  rename_i x ha hx
  exact (hs.agree (hs.store_agrees ha hx b)).2 v

/-- **The kernel's own addresses**: when its image is at most 4 MB long and where the linker script puts it, the first 4 MB
are mapped to themselves and the first 4 MB from `0xC0000000` on to those of the image, in every state of such a run, and
none of these addresses is ever a client's. -/
theorem kernel_mappings_kept (bootInfo : BootInfo) (bitmap : Bitmap trackedPages) (vmm : VirtualMemoryManager) (m : Machine)
    (h : InImage (MemoryUtil.init bootInfo) vmm bootInfo.kernelSize.toNat)
    (hstart : bootInfo.kernelPhysicalStartAddress = 0x200000#32)
    (hend : bootInfo.kernelPhysicalEndAddress = 0x200000#32 + bootInfo.kernelSize)
    (hsize : bootInfo.kernelSize.toNat ≤ 0x400000) :
    ∃ vmm' m', initVirtualMemoryManager (MemoryUtil.init bootInfo) vmm bootInfo m = (true, vmm', m') ∧
      (TablesReserved bootInfo vmm' → ∀ s, RunsWhere (PageClient.DataStep (MemoryUtil.init bootInfo)) PageClient.Careful
        (startClient bootInfo bitmap vmm' m') s → ∀ a, Aligned a → startTranslation a ≠ none →
          s.kernel.translate a = startTranslation a ∧ Disjoint (Span a 4096) s.live) := by
  obtain ⟨vmm', m', hok, hwalk⟩ := initVirtualMemoryManager_walk h hstart hend hsize m
  refine ⟨vmm', m', hok, fun htables s hrun a ha hmapped => ?_⟩
  have hguarded := PageClient.guarded_start h hok htables bitmap
  have hfirst : (startClient bootInfo bitmap vmm' m').kernel.translate a = startTranslation a := hwalk a ha
  have hpage : ∀ b ∈ Span a 4096, b ∉ s.live ∧ s.kernel.translate b = startTranslation a := by
    intro b hb
    obtain ⟨i, hi, hsame⟩ := (inPages_iff_mem_span (n := 1) ha).mpr hb
    obtain rfl := Nat.lt_one_iff.mp hi
    have hb' : (startClient bootInfo bitmap vmm' m').kernel.translate b = startTranslation a := by
      rw [← hfirst, ← hguarded.inv.paged.translate_congr hsame, pageAt_zero]
    obtain ⟨hnot, hkept⟩ := hguarded.kept_others_of_runs hrun (Set.notMem_empty b) (by rwa [hb'])
    exact ⟨hnot, hkept.trans hb'⟩
  exact ⟨(hpage a (self_mem_span (by decide))).2, Set.disjoint_left.mpr fun b hb => (hpage b hb).1⟩

theorem physicalAddress_reservePages (k : Kernel) (v a : VirtualAddress) (n : SizeT) :
    (reservePages k v n).physicalAddress a = k.physicalAddress a := rfl

/-! ### The machine with 512 MB -/

/-- The machine with 512 MB: the first allocation gets the 247 pages between the two images. -/
theorem exists_start512 :
    ∃ vmm' m' s₀, initVirtualMemoryManager (MemoryUtil.init bootInfo512) vmm512 bootInfo512
        ⟨fun _ => 0#8, 0#32, []⟩ = (true, vmm', m') ∧ TablesReserved bootInfo512 vmm' ∧
      s₀ = startClient bootInfo512 Bitmap.resetAll vmm' m' ∧ s₀.live = ∅ ∧ s₀.kernel.pmm.Searchable 247#32 ∧
      (allocatePages (MemoryUtil.init bootInfo512) s₀.kernel 247#32).1 = 0xC1000000#32 ∧
      (allocatePages (MemoryUtil.init bootInfo512) s₀.kernel 247#32).2.translate 0xC1000000#32 =
        some ⟨0x109000#32, true⟩ := by
  obtain ⟨vmm', m', hok, hwalk⟩ := initVirtualMemoryManager_walk inImage_vmm512 (by decide) (by decide) (by decide)
    ⟨fun _ => 0#8, 0#32, []⟩
  have hvmm : vmm' = vmm512 := by
    rw [initVirtualMemoryManager_eq] at hok
    exact (congrArg (fun r => r.2.1) hok).symm
  subst hvmm
  have htables : TablesReserved bootInfo512 vmm512 := tablesReserved_of_inImage inImage_vmm512 rfl (by decide) (by decide)
  have hpaged := paged_start inImage_vmm512 hok (initPhysicalMemoryManager bootInfo512 Bitmap.resetAll).2
    (initVirtualMemoryAllocator bootInfo512).2
  obtain ⟨start, hpmm, haddr, hbit⟩ := initPhysicalMemoryManager_bootInfo512
  rw [← hpmm] at hpaged
  have hT : trackedPages = 131072 := rfl
  have hgap := unset_between_images hbit
  have hfound := PhysicalMemoryManager.allocatePages_found (n := 247#32) (by decide) hgap
    fun q hq => Bitmap.not_unset_of_bit ((hbit q (by omega)).mpr (by omega)) le_rfl (by simp)
  have hframe : (start.allocatePages 247#32).1 = 0x109000#32 := by
    have hpage : start.pageNumberToAddress 9#32 = 0x109000#32 := by
      rw [PhysicalMemoryManager.pageNumberToAddress, start.pageSize_eq, haddr]
      decide
    exact (congrArg Prod.fst hfound).trans hpage
  obtain ⟨halloc, -, -, hpages, -⟩ := hpaged.allocates_next (c := 0) (n := 247#32) rfl (fun i _ => Bitmap.bit_resetAll i) hframe
    (by decide) (by decide) (by decide) (by decide) fun i hi => by
      have hn : (247#32).toNat = 247 := rfl
      exact (hwalk _ (aligned_pageAt (by decide) _)).trans (startTranslation_window (by omega))
  rw [pageAt_zero] at halloc
  have hfirst := hpages 0 (by decide)
  rw [Nat.zero_add, pageAt_zero, pageAt_zero] at hfirst
  refine ⟨vmm512, m', ⟨⟨m', vmm512, start, (initVirtualMemoryAllocator bootInfo512).2⟩, ∅⟩, hok, htables, ?_, rfl,
    .inr (.inl ⟨9, hgap⟩), halloc, hfirst⟩
  rw [startClient, ← hpmm]

/-- A client has been given them. -/
theorem exists_client512 :
    ∃ vmm' m' s, initVirtualMemoryManager (MemoryUtil.init bootInfo512) vmm512 bootInfo512
        ⟨fun _ => 0#8, 0#32, []⟩ = (true, vmm', m') ∧ TablesReserved bootInfo512 vmm' ∧
      RunsWhere (PageClient.DataStep (MemoryUtil.init bootInfo512)) PageClient.Careful
        (startClient bootInfo512 Bitmap.resetAll vmm' m') s ∧
      0xC1000000#32 ∈ s.live ∧ s.kernel.physicalAddress 0xC1000000#32 = some 0x109000#32 := by
  obtain ⟨vmm', m', s₀, hok, htables, hs₀, -, hsearch, halloc, hfirst⟩ := exists_start512
  have hcareful : s₀.Careful (.call (.allocatePages 247#32)) := hsearch
  refine ⟨vmm', m', ⟨AllocatorCall.apply (MemoryUtil.init bootInfo512) s₀.kernel (.allocatePages 247#32),
    s₀.liveAfter (MemoryUtil.init bootInfo512) (.call (.allocatePages 247#32))⟩, hok, htables, ?_, ?_, ?_⟩
  · rw [← hs₀]
    exact .single hcareful .call
  · simp only [PageClient.liveAfter, halloc]
    exact .inr (self_mem_span (by decide))
  · rw [AllocatorCall.apply, Kernel.physicalAddress, hfirst]
    decide

/-- There it stores a byte. -/
theorem client_memory_is_cells_vmm512 :
    ∃ s t : PageClient, PageClient.DataStep (MemoryUtil.init bootInfo512) s (.store 0xC1000000#32 7#8) t ∧
      CellStep s.cells (.write 0xC1000000#32 7#8) t.cells := by
  obtain ⟨vmm', m', s, hok, htables, hrun, hlive, hplace⟩ := exists_client512
  have hstep : PageClient.DataStep (MemoryUtil.init bootInfo512) s (.store 0xC1000000#32 7#8) _ := .store hlive hplace
  exact ⟨s, _, hstep, client_memory_is_cells bootInfo512 Bitmap.resetAll vmm512 vmm' _ m' _ inImage_vmm512 hok htables s hrun
    (.store 0xC1000000#32 7#8) _ trivial hstep⟩

/-- And reads it after a page has been reserved. -/
theorem stored_bytes_stay_vmm512 :
    ∃ s u : PageClient, s.kernel.physicalAddress 0xC1000000#32 = some 0x109000#32 ∧
      Runs (PageClient.DataStep (MemoryUtil.init bootInfo512)) s u ∧ u.kernel.machine.mem 0x109000#32 = 7#8 := by
  obtain ⟨vmm', m', s, hok, htables, hrun, hlive, hplace⟩ := exists_client512
  have hs := (PageClient.guarded_start inImage_vmm512 hok htables Bitmap.resetAll).runs hrun
  have hstep : PageClient.DataStep (MemoryUtil.init bootInfo512) s (.store 0xC1000000#32 7#8) _ := .store hlive hplace
  obtain ⟨t, ht⟩ : ∃ t, t = PageClient.mk (s.kernel.store 0x109000#32 7#8) s.live := ⟨_, rfl⟩
  rw [← ht] at hstep
  have hreserve : PageClient.DataStep (MemoryUtil.init bootInfo512) t (.call (.reservePages 0xC2000000#32 1#32)) _ := .call
  have hrest : RunsWhere (PageClient.DataStep (MemoryUtil.init bootInfo512))
      (fun s c => s.Careful c ∧ ¬ (s.event (MemoryUtil.init bootInfo512) c).Touches 0xC1000000#32) t _ :=
    .single (c := .call (.reservePages _ _)) ⟨trivial, id⟩ hreserve
  obtain ⟨x, hx, hb⟩ := stored_bytes_stay bootInfo512 Bitmap.resetAll vmm512 vmm' _ m' _ inImage_vmm512 hok htables s t _ hrun
    0xC1000000#32 7#8 hstep hrest
  have hplace' : t.kernel.physicalAddress 0xC1000000#32 = some 0x109000#32 := by
    rw [ht]
    exact (physicalAddress_congr ((hs.agree (hs.store_agrees hlive hplace 7#8)).2 _)).trans hplace
  rw [AllocatorCall.apply, physicalAddress_reservePages, hplace'] at hx
  obtain rfl := Option.some.inj hx
  exact ⟨s, _, hplace, (RunsWhere.single trivial hstep).tail trivial hreserve, hb⟩

/-- The page that the kernel's image starts with is reserved there. -/
theorem boot_pages_kept_vmm512 :
    ∃ s : PageClient, 0xC1000000#32 ∈ s.live ∧ s.kernel.pmm.bitmap.bit 256 = true := by
  obtain ⟨vmm', m', s, hok, htables, hrun, hlive, -⟩ := exists_client512
  have hkept := boot_pages_kept bootInfo512 Bitmap.resetAll vmm512 vmm' _ m' _ inImage_vmm512 hok htables s hrun
  exact ⟨s, hlive, (hkept.1 256 (by decide) ((reservedAtBoot_bootInfo512 256).mpr (.inr (.inr ⟨le_rfl, by decide⟩)))).1⟩

/-- The page of the screen is mapped to itself there. -/
theorem kernel_mappings_kept_vmm512 :
    ∃ s : PageClient, 0xC1000000#32 ∈ s.live ∧ s.kernel.translate 0xB8000#32 = some ⟨0xB8000#32, true⟩ := by
  obtain ⟨vmm', m', s, hok, htables, hrun, hlive, -⟩ := exists_client512
  obtain ⟨vmm'', m'', hok', hkept⟩ := kernel_mappings_kept bootInfo512 Bitmap.resetAll vmm512 ⟨fun _ => 0#8, 0#32, []⟩
    inImage_vmm512 rfl (by decide) (by decide)
  rw [hok, Prod.mk.injEq, Prod.mk.injEq] at hok'
  obtain ⟨-, rfl, rfl⟩ := hok'
  exact ⟨s, hlive, (hkept htables s hrun 0xB8000#32 (by decide) (by decide)).1⟩

end

end EagleOS.Memory
