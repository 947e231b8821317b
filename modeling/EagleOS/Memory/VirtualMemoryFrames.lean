import Mathlib.Data.Finset.Card
import Mathlib.Order.Interval.Finset.Nat
import EagleOS.Memory.PhysicalMemoryInit
import EagleOS.Memory.VirtualMemoryFailures

/-!
# Which frames `FreePages` gives back

`VirtualMemoryAllocator::FreePages` looks up the frame of the first page only, and gives back as many frames
from there on as it frees pages. An allocation's own frames follow each other; those of two allocations side by
side need not.

## The model

`PageClient` is the kernel and the addresses that are live: those of what `AllocatePages` returned and
`FreePages` has not freed. Any call may be made, with any arguments.

## What is proved

* `PageClient.Inv.step` — live addresses that are mapped keep frames of their own, which are reserved.
* `freed_frames_iff` — the frames that a call gives back are those that were mapped if and only if these follow
  each other, in any run of calls that meet the same condition and searches that end properly.
* `freed_frames_of_others` — two allocations side by side, freed at once: a page of the kernel's image is given
  back, and the frame of the second allocation is not.
-/

namespace EagleOS.Memory

open ESTD Boot Foundations Arch VirtualMemoryManager VirtualMemoryAllocator

/-- The frames that the `n` pages from `v` on are mapped to. -/
def framesOf (k : Kernel) (v : VirtualAddress) (n : SizeT) : Set PhysicalAddress :=
  {f | ∃ i < n.toNat, ∃ t, k.translate (pageAt v i) = some t ∧ t.frame = f}

/-- The frames of the `n` pages from `v` on are those that follow the first page's. -/
def FramesFollow (k : Kernel) (v : VirtualAddress) (n : SizeT) : Prop :=
  ∀ t, k.translate v = some t → ∀ j < n.toNat, pageAt t.frame j ∈ framesOf k v n

/-- The kernel, and the live addresses. -/
structure PageClient where
  /-- The kernel. -/
  kernel : Kernel
  /-- The addresses of what is allocated and not freed. -/
  live : Set VirtualAddress

namespace PageClient

/-- What is live after a step. -/
def liveAfter (util : MemoryUtil) (s : PageClient) : KernelCall → Set VirtualAddress
  | .call (.allocatePages n) =>
    if (allocatePages util s.kernel n).1 = 0#32 then s.live
    else s.live ∪ Span (allocatePages util s.kernel n).1 (4096 * n.toNat)
  | .call (.freePages v n) =>
    if (freePages util s.kernel v n).1 = true then s.live \ Span v (4096 * n.toNat) else s.live
  | _ => s.live

/-- A step of the kernel, and what is live after it. -/
def Step (util : MemoryUtil) (s : PageClient) (c : KernelCall) (s' : PageClient) : Prop :=
  KernelStep util s.kernel c s'.kernel ∧ s'.live = s.liveAfter util c

/-- The condition on a call: the physical allocator's search ends properly; and a range of mapped pages that is
freed is live, with frames that follow each other. -/
def Orderly (s : PageClient) : KernelCall → Prop
  | .call (.allocatePages n) => s.kernel.pmm.Searchable n
  | .call (.freePages v n) => v ≠ 0#32 → Aligned v → (∀ i < n.toNat, s.kernel.translate (pageAt v i) ≠ none) →
      Span v (4096 * n.toNat) ⊆ s.live ∧ FramesFollow s.kernel v n
  | _ => True

/-- The page of the bitmap with number `q` is reserved, and the address is mapped to it. -/
structure Owns (k : Kernel) (a : VirtualAddress) (q : ℕ) : Prop where
  /-- The bitmap has the page. -/
  tracked : q < trackedPages
  /-- It is reserved. -/
  reserved : k.pmm.bitmap.bit q = true
  /-- It is not at address 0. -/
  nonzero : k.pmm.pageNumberToAddress (BitVec.ofNat 32 q) ≠ 0#32
  /-- The address is mapped to it. -/
  mapped : k.translate a = some ⟨k.pmm.pageNumberToAddress (BitVec.ofNat 32 q), true⟩

/-- What holds in every state. -/
structure Inv (util : MemoryUtil) (s : PageClient) : Prop where
  /-- The page tables are in order. -/
  paged : Paged util s.kernel
  /-- The page at address 0 is reserved. -/
  zero : ∀ q < trackedPages, s.kernel.pmm.pageNumberToAddress (BitVec.ofNat 32 q) = 0#32 →
    s.kernel.pmm.bitmap.bit q = true
  /-- A live address that is mapped is mapped to a reserved page. -/
  owns : ∀ a ∈ s.live, s.kernel.translate a ≠ none → ∃ q, Owns s.kernel a q
  /-- Live addresses of different pages are not mapped to the same frame. -/
  apart : ∀ a ∈ s.live, ∀ b ∈ s.live, ∀ t, s.kernel.translate a = some t → s.kernel.translate b = some t →
    SamePage a b

end PageClient

/-! ### Pages of a range -/

/-- The addresses of a range of pages. -/
theorem inPages_iff_mem_span {v x : VirtualAddress} {n : ℕ} (hv : Aligned v) :
    InPages v n x ↔ x ∈ Span v (4096 * n) := by
  rw [Aligned] at hv
  rw [mem_span, BitVec.toNat_sub]
  constructor
  · rintro ⟨i, hi, hs⟩
    rw [SamePage, pageAt_toNat] at hs
    omega
  · intro hx
    refine ⟨(2 ^ 32 - v.toNat + x.toNat) % 2 ^ 32 / 4096, by omega, ?_⟩
    rw [SamePage, pageAt_toNat]
    omega

theorem pageAt_pageAt (v : BitVec 32) (i j : ℕ) : pageAt (pageAt v i) j = pageAt v (i + j) := by
  apply BitVec.eq_of_toNat_eq
  rw [pageAt_toNat, pageAt_toNat, pageAt_toNat]
  omega

/-- A page's address is that of the first page counted on. -/
theorem pageAt_pageNumberToAddress (pmm : PhysicalMemoryManager) (q j : ℕ) :
    pageAt (pmm.pageNumberToAddress (BitVec.ofNat 32 q)) j = pmm.pageNumberToAddress (BitVec.ofNat 32 (q + j)) := by
  apply BitVec.eq_of_toNat_eq
  rw [pageAt_toNat, PhysicalMemoryManager.pageNumberToAddress_toNat, PhysicalMemoryManager.pageNumberToAddress_toNat]
  omega

/-- Pages of the address space have different addresses. -/
theorem pageNumberToAddress_inj {pmm : PhysicalMemoryManager} {p q : ℕ} (hp : p < 2 ^ 20) (hq : q < 2 ^ 20) :
    pmm.pageNumberToAddress (BitVec.ofNat 32 p) = pmm.pageNumberToAddress (BitVec.ofNat 32 q) ↔ p = q := by
  constructor
  · intro h
    have hnat := congrArg BitVec.toNat h
    rw [PhysicalMemoryManager.pageNumberToAddress_toNat, PhysicalMemoryManager.pageNumberToAddress_toNat] at hnat
    omega
  · rintro rfl
    rfl

/-- When the search ends properly, an address that the physical allocator returns is that of a run of free pages,
which it has reserved. -/
theorem frames_of_allocatePages {pmm : PhysicalMemoryManager} {n : SizeT} (hs : pmm.Searchable n)
    (h0 : (pmm.allocatePages n).1 ≠ 0#32) : ∃ p, pmm.bitmap.Unset p n.toNat ∧
      pmm.allocatePages n = (pmm.pageNumberToAddress (BitVec.ofNat 32 p),
        { pmm with bitmap := pmm.bitmap.setBits (BitVec.ofNat 32 p) n }) := by
  have hpmm := pmm.allocatePages_spec n
  generalize pmm.allocatePages n = r at hpmm h0
  cases hpmm with
  | none => exact absurd rfl h0
  | @found p _ hp => exact ⟨p, hp, rfl⟩
  | short hno => exact absurd hs hno

/-- `AllocatePages` keeps what is reserved, and counts pages as before. -/
theorem kept_of_allocatePages (pmm : PhysicalMemoryManager) (n : SizeT) :
    (pmm.allocatePages n).2.startAddress = pmm.startAddress ∧
      ∀ q, pmm.bitmap.bit q = true → (pmm.allocatePages n).2.bitmap.bit q = true := by
  have hpmm := pmm.allocatePages_spec n
  generalize pmm.allocatePages n = r at hpmm
  cases hpmm with
  | none => exact ⟨rfl, fun q hq => hq⟩
  | found => exact ⟨rfl, fun q hq => by simp [Bitmap.bit_setBits trackedPages_lt, hq]⟩
  | short => exact ⟨rfl, fun q hq => hq⟩

/-- What is looked up for a page that is mapped is its frame. -/
theorem Paged.getPhysicalAddress {util : MemoryUtil} {k : Kernel} (h : Paged util k) {v : VirtualAddress}
    {t : Translation} (hv : Aligned v) (ht : k.translate v = some t) :
    k.vmm.getPhysicalAddress util k.machine v = t.frame := by
  rw [getPhysicalAddress_eq h.layout h.tables, if_pos hv]
  rw [h.translate_eq, decode] at ht
  split at ht
  · obtain rfl := Option.some.inj ht
    rfl
  · cases ht

namespace PageClient

variable {util : MemoryUtil} {s : PageClient}

/-- What has become of a live address after a step. -/
inductive After (s : PageClient) (k' : Kernel) (v : VirtualAddress) (p n : ℕ) (a : VirtualAddress) : Prop
  /-- It is not mapped. -/
  | unmapped : k'.translate a = none → After s k' v p n a
  /-- It was live and is mapped as before, and its page is still reserved. -/
  | kept : a ∈ s.live → k'.translate a = s.kernel.translate a → (∀ q, Owns s.kernel a q → k'.pmm.bitmap.bit q = true) →
      After s k' v p n a
  /-- It is mapped to one of the pages that were free. -/
  | fresh {i : ℕ} : i < n → SamePage (pageAt v i) a →
      k'.translate a = some ⟨s.kernel.pmm.pageNumberToAddress (BitVec.ofNat 32 (p + i)), true⟩ → After s k' v p n a

/-- The invariant after a step that reserves a run of free pages and may map addresses to them. -/
theorem Inv.keep (h : Inv util s) {k' : Kernel} {live' : Set VirtualAddress} {v : VirtualAddress} {p n : ℕ}
    (hpaged : Paged util k') (hstart : k'.pmm.startAddress = s.kernel.pmm.startAddress)
    (hzero : ∀ q < trackedPages, s.kernel.pmm.pageNumberToAddress (BitVec.ofNat 32 q) = 0#32 →
      s.kernel.pmm.bitmap.bit q = true → k'.pmm.bitmap.bit q = true)
    (hfree : s.kernel.pmm.bitmap.Unset p n) (hset : ∀ q, p ≤ q → q < p + n → k'.pmm.bitmap.bit q = true)
    (hlive : ∀ a ∈ live', After s k' v p n a) : Inv util ⟨k', live'⟩ := by
  have haddr := fun q : ℕ => Client.pageNumberToAddress_congr hstart (BitVec.ofNat 32 q)
  have hT : trackedPages = 131072 := rfl
  have hend := hfree.1
  -- a page that was free is not one that was in use
  have hnew : ∀ {a b q i}, Owns s.kernel a q → i < n → s.kernel.translate a = k'.translate b →
      k'.translate b ≠ some ⟨s.kernel.pmm.pageNumberToAddress (BitVec.ofNat 32 (p + i)), true⟩ := by
    intro a b q i hown hi hab hb
    have htracked := hown.tracked
    have heq := congrArg Translation.frame (Option.some.inj (hown.mapped.symm.trans (hab.trans hb)))
    rw [pageNumberToAddress_inj (by omega) (by omega)] at heq
    have hbit := hfree.2 q (by omega) (by omega)
    simp [hown.reserved] at hbit
  refine ⟨hpaged, fun q hq hq0 => ?_, fun a ha hmapped => ?_, fun a ha b hb t hta htb => ?_⟩
  · rw [haddr] at hq0
    exact hzero q hq hq0 (h.zero q hq hq0)
  · cases hlive a ha with
    | unmapped hnone => exact absurd hnone hmapped
    | kept hold hsame hkept =>
      obtain ⟨q, hown⟩ := h.owns a hold (by rwa [← hsame])
      exact ⟨q, hown.tracked, hkept q hown, by rw [haddr]; exact hown.nonzero, by rw [haddr, hsame]; exact hown.mapped⟩
    | @fresh i hi _ hframe =>
      refine ⟨p + i, by omega, hset _ (by omega) (by omega), ?_, by rw [haddr]; exact hframe⟩
      rw [haddr]
      intro h0
      have hbit := hfree.2 (p + i) (by omega) (by omega)
      simp [h.zero (p + i) (by omega) h0] at hbit
  · cases hlive a ha with
    | unmapped hnone => simp [hnone] at hta
    | kept holda hsamea =>
      have hta' : s.kernel.translate a = some t := hsamea.symm.trans hta
      cases hlive b hb with
      | unmapped hnone => simp [hnone] at htb
      | kept holdb hsameb => exact h.apart a holda b holdb t hta' (hsameb.symm.trans htb)
      | fresh hj _ hframe =>
        obtain ⟨q, hown⟩ := h.owns a holda (by simp [hta'])
        exact absurd hframe (hnew hown hj (hta'.trans htb.symm))
    | fresh hi hpi hframei =>
      cases hlive b hb with
      | unmapped hnone => simp [hnone] at htb
      | kept holdb hsameb =>
        have htb' : s.kernel.translate b = some t := hsameb.symm.trans htb
        obtain ⟨q, hown⟩ := h.owns b holdb (by simp [htb'])
        exact absurd hframei (hnew hown hi (htb'.trans hta.symm))
      | fresh hj hpj hframej =>
        have heq := congrArg Translation.frame (Option.some.inj (hframei.symm.trans (hta.trans (htb.symm.trans hframej))))
        rw [pageNumberToAddress_inj (by omega) (by omega), Nat.add_left_cancel_iff] at heq
        subst heq
        exact hpi.symm.trans hpj

theorem unset_zero (bm : Bitmap trackedPages) : bm.Unset 0 0 := ⟨Nat.zero_le _, fun i _ hi => absurd hi (Nat.not_lt_zero i)⟩

/-- Nothing is reserved anew, and what is live was live. -/
theorem Inv.keep_live (h : Inv util s) {k' : Kernel} {live' : Set VirtualAddress} (hpaged : Paged util k')
    (hstart : k'.pmm.startAddress = s.kernel.pmm.startAddress)
    (hzero : ∀ q < trackedPages, s.kernel.pmm.pageNumberToAddress (BitVec.ofNat 32 q) = 0#32 →
      s.kernel.pmm.bitmap.bit q = true → k'.pmm.bitmap.bit q = true)
    (hlive : ∀ a ∈ live', After s k' 0#32 0 0 a) : Inv util ⟨k', live'⟩ :=
  h.keep hpaged hstart hzero (unset_zero _) (fun q _ hq => absurd hq (Nat.not_lt_zero q)) hlive

/-- Frames that the physical allocator gave are mapped, all of them or some, and their addresses may become live. -/
theorem Inv.mapped (h : Inv util s) {n : SizeT} (hs : s.kernel.pmm.Searchable n)
    (h0 : (s.kernel.pmm.allocatePages n).1 ≠ 0#32) {k' : Kernel} {live' : Set VirtualAddress} {v : VirtualAddress} {i : ℕ}
    (hpaged : Paged util k') (hpmm : k'.pmm = (s.kernel.pmm.allocatePages n).2) (hi : i ≤ n.toNat)
    (hmapped : ∀ j < i, k'.translate (pageAt v j) = some ⟨pageAt (s.kernel.pmm.allocatePages n).1 j, true⟩)
    (hothers : ∀ x, ¬ InPages v i x → k'.translate x = s.kernel.translate x)
    (hlive : ∀ a ∈ live', a ∈ s.live ∨ InPages v i a) : Inv util ⟨k', live'⟩ := by
  obtain ⟨p, hp, halloc⟩ := frames_of_allocatePages hs h0
  have hkept := kept_of_allocatePages s.kernel.pmm n
  rw [← hpmm] at hkept
  have hend : p + n.toNat ≤ 131072 := hp.1
  refine h.keep (v := v) hpaged hkept.1 (fun q _ _ => hkept.2 q) hp (fun q hq hq' => ?_) fun a ha => ?_
  · have hpn : (BitVec.ofNat 32 p).toNat = p := PhysicalMemoryManager.ofNat_toNat_of_lt (by omega)
    have hin : Bitmap.InRange trackedPages (BitVec.ofNat 32 p) n q := by
      rw [← hpn] at hq hq'
      exact ⟨by rw [hpn]; exact hend, hq, hq'⟩
    simp [hpmm, halloc, Bitmap.bit_setBits trackedPages_lt, hin]
  · by_cases hin : InPages v i a
    · obtain ⟨j, hj, hs⟩ := hin
      refine .fresh (Nat.lt_of_lt_of_le hj hi) hs ?_
      rw [← hpaged.translate_congr hs, hmapped j hj, halloc, pageAt_pageNumberToAddress]
    · exact .kept ((hlive a ha).resolve_right hin) (hothers a hin) fun q hown => hkept.2 q hown.reserved

/-- `AllocatePages` keeps the invariant when the physical allocator's search ends properly. -/
theorem Inv.allocated (h : Inv util s) {n : SizeT} (hs : s.kernel.pmm.Searchable n) :
    Inv util ⟨(allocatePages util s.kernel n).2, s.liveAfter util (.call (.allocatePages n))⟩ := by
  have houtcome := allocatePages_outcome util s.kernel n
  have hpaged := h.paged.afterAllocatePages n
  have hkept := kept_of_allocatePages s.kernel.pmm n
  simp only [liveAfter]
  generalize allocatePages util s.kernel n = r at houtcome hpaged
  cases houtcome with
  | refused =>
    rw [if_pos rfl]
    exact h
  | noFrame =>
    rw [if_pos rfl]
    exact h.keep_live hpaged hkept.1 (fun q _ _ => hkept.2 q) fun a ha => .kept ha rfl fun q hown => hkept.2 q hown.reserved
  | @stopped p machine _ hframe hmap =>
    rw [if_pos rfl]
    obtain ⟨i, hi, hupTo⟩ : ∃ i < n.toNat, MappedUpTo s.kernel _ _ i { taken s.kernel p n with machine := machine } :=
      h.paged.mappedUpTo hmap rfl rfl
    exact h.mapped hs hframe hpaged rfl hi.le (fun j hj => (hupTo.before j hj).2) hupTo.others fun a ha => .inl ha
  | @mapped p machine hn hframe _ _ hmap =>
    obtain ⟨hpages, hothers⟩ : _ ∧ ∀ x, _ → Kernel.translate { taken s.kernel p n with machine := machine } x = _ :=
      h.paged.mapped hmap rfl rfl
    refine h.mapped hs hframe hpaged rfl le_rfl (fun j hj => (hpages j hj).2.2.2) hothers fun a ha => ?_
    have hpos : 0 < n.toNat := Nat.pos_of_ne_zero fun h0 => hn (BitVec.eq_of_toNat_eq h0)
    have hal := (hpages 0 hpos).1
    rw [pageAt_zero] at hal
    split at ha
    · exact .inl ha
    · exact ha.imp_right (inPages_iff_mem_span hal).mpr

/-- What belongs to a range of live pages that are all mapped: each has a frame of its own, and `FreePages` looks up
that of the first. -/
theorem Inv.frames (h : Inv util s) {v : VirtualAddress} {n : ℕ} (hv : Aligned v) (hn : 0 < n)
    (hlive : ∀ i < n, pageAt v i ∈ s.live) (hmapped : ∀ i < n, s.kernel.translate (pageAt v i) ≠ none) :
    ∃ f : ℕ → ℕ, (∀ i < n, Owns s.kernel (pageAt v i) (f i)) ∧
      s.kernel.vmm.getPhysicalAddress util s.kernel.machine v = s.kernel.pmm.pageNumberToAddress (BitVec.ofNat 32 (f 0)) := by
  have hall : ∀ i, ∃ q, i < n → Owns s.kernel (pageAt v i) q := by
    intro i
    by_cases hi : i < n
    · obtain ⟨q, hown⟩ := h.owns _ (hlive i hi) (hmapped i hi)
      exact ⟨q, fun _ => hown⟩
    · exact ⟨0, fun hi' => absurd hi' hi⟩
  choose f hf using hall
  have hfirst := (hf 0 hn).mapped
  rw [pageAt_zero] at hfirst
  exact ⟨f, hf, h.paged.getPhysicalAddress hv hfirst⟩

/-- The frames follow each other when their numbers do. -/
theorem framesFollow_iff {k : Kernel} {v : VirtualAddress} {n : SizeT} {f : ℕ → ℕ} (hn : 0 < n.toNat)
    (hf : ∀ i < n.toNat, Owns k (pageAt v i) (f i)) :
    FramesFollow k v n ↔ ∀ j < n.toNat, ∃ i < n.toNat, f i = f 0 + j := by
  have hfirst := (hf 0 hn).mapped
  rw [pageAt_zero] at hfirst
  have htracked : ∀ i < n.toNat, f i < 131072 := fun i hi => (hf i hi).tracked
  have hframes : ∀ q, k.pmm.pageNumberToAddress (BitVec.ofNat 32 q) ∈ framesOf k v n ↔
      ∃ i < n.toNat, k.pmm.pageNumberToAddress (BitVec.ofNat 32 (f i)) = k.pmm.pageNumberToAddress (BitVec.ofNat 32 q) := by
    intro q
    constructor
    · rintro ⟨i, hi, t, ht, hq⟩
      rw [(hf i hi).mapped] at ht
      obtain rfl := Option.some.inj ht
      exact ⟨i, hi, hq⟩
    · rintro ⟨i, hi, hq⟩
      exact ⟨i, hi, _, (hf i hi).mapped, hq⟩
  constructor
  · intro h
    have hin : ∀ j < n.toNat, f 0 + j < 2 ^ 20 → ∃ i < n.toNat, f i = f 0 + j := by
      intro j hj hlt
      have hmem := h _ hfirst j hj
      rw [pageAt_pageNumberToAddress, hframes] at hmem
      obtain ⟨i, hi, he⟩ := hmem
      have := htracked i hi
      exact ⟨i, hi, (pageNumberToAddress_inj (by omega) hlt).mp he⟩
    intro j hj
    refine hin j hj ?_
    -- a run that passed the end of the bitmap would have come to its first page past the end
    by_contra hge
    have h0 := htracked 0 hn
    obtain ⟨i, hi, he⟩ := hin (131072 - f 0) (by omega) (by omega)
    have := htracked i hi
    omega
  · intro h t ht j hj
    rw [hfirst] at ht
    obtain rfl := Option.some.inj ht
    rw [pageAt_pageNumberToAddress, hframes]
    obtain ⟨i, hi, he⟩ := h j hj
    exact ⟨i, hi, by rw [he]⟩

/-- `FreePages` of the physical allocator clears the bits of the frames, if they lie in the bitmap. -/
theorem bit_freePages {pmm : PhysicalMemoryManager} {q₀ q : ℕ} {n : SizeT} (hq₀ : q₀ < trackedPages)
    (h0 : pmm.pageNumberToAddress (BitVec.ofNat 32 q₀) ≠ 0) :
    (pmm.freePages (pmm.pageNumberToAddress (BitVec.ofNat 32 q₀)) n).bitmap.bit q = false ↔
      (q₀ + n.toNat ≤ trackedPages ∧ q₀ ≤ q ∧ q < q₀ + n.toNat) ∨ pmm.bitmap.bit q = false := by
  have hlt : q₀ < 131072 := hq₀
  have hn : (BitVec.ofNat 32 q₀).toNat = q₀ := PhysicalMemoryManager.ofNat_toNat_of_lt (by omega)
  have hpage := pmm.addressToPageNumber_pageNumberToAddress (show (BitVec.ofNat 32 q₀).toNat < 2 ^ 20 by omega)
  have hrange : Bitmap.InRange trackedPages (BitVec.ofNat 32 q₀) n q ↔
      q₀ + n.toNat ≤ trackedPages ∧ q₀ ≤ q ∧ q < q₀ + n.toNat := by
    simp only [Bitmap.InRange, hn]
  rw [PhysicalMemoryManager.freePages, if_neg h0, hpage, Bitmap.bit_clearBits trackedPages_lt, Bool.and_eq_false_iff,
    Bool.not_eq_false', decide_eq_true_eq, hrange]

/-- What `FreePages` that succeeds finds and does: the pages have frames of their own, and the bits of as many frames
from the first one on are cleared. -/
theorem Inv.cleared (h : Inv util s) {v : VirtualAddress} {n : SizeT} (hv0 : v ≠ 0#32) (hn : 0 < n.toNat)
    (hok : (freePages util s.kernel v n).1 = true) (hlive : Span v (4096 * n.toNat) ⊆ s.live) :
    ∃ f : ℕ → ℕ, (∀ i < n.toNat, Owns s.kernel (pageAt v i) (f i)) ∧
      ∀ q, (freePages util s.kernel v n).2.pmm.bitmap.bit q = false ↔
        (f 0 + n.toNat ≤ trackedPages ∧ f 0 ≤ q ∧ q < f 0 + n.toNat) ∨ s.kernel.pmm.bitmap.bit q = false := by
  have hpages := (h.paged.freed hok hv0).1
  have hal := (hpages 0 hn).1
  rw [pageAt_zero] at hal
  have hin : ∀ i < n.toNat, pageAt v i ∈ s.live := fun i hi => hlive ((inPages_iff_mem_span hal).mp ⟨i, hi, rfl⟩)
  obtain ⟨f, hf, hframe⟩ := h.frames hal hn hin fun i hi => (hpages i hi).2
  refine ⟨f, hf, fun q => ?_⟩
  have houtcome := freePages_outcome util s.kernel v n
  generalize freePages util s.kernel v n = r at houtcome hok
  cases houtcome with
  | nothing h0 => exact absurd h0 hv0
  | stopped => simp at hok
  | freed =>
    change (s.kernel.pmm.freePages (s.kernel.vmm.getPhysicalAddress util s.kernel.machine v) n).bitmap.bit q = false ↔ _
    rw [hframe]
    exact bit_freePages (hf 0 hn).tracked (hf 0 hn).nonzero

theorem startAddress_freePages (k : Kernel) (v : VirtualAddress) (n : SizeT) :
    (freePages util k v n).2.pmm.startAddress = k.pmm.startAddress := by
  have houtcome := freePages_outcome util k v n
  generalize freePages util k v n = r at houtcome
  cases houtcome with
  | nothing => rfl
  | stopped => rfl
  | freed =>
    simp only [returned, PhysicalMemoryManager.freePages]
    split <;> rfl

/-- `FreePages` that succeeds keeps the invariant when what it frees is live and its frames follow each other. -/
theorem Inv.freed (h : Inv util s) {v : VirtualAddress} {n : SizeT} (hv0 : v ≠ 0#32) (hn : 0 < n.toNat)
    (hok : (freePages util s.kernel v n).1 = true) (hlive : Span v (4096 * n.toNat) ⊆ s.live)
    (hfollow : FramesFollow s.kernel v n) :
    Inv util ⟨(freePages util s.kernel v n).2, s.live \ Span v (4096 * n.toNat)⟩ := by
  have hpaged := h.paged.afterFreePages v n
  obtain ⟨hpages, -, hothers⟩ := h.paged.freed hok hv0
  obtain ⟨f, hf, hbits⟩ := h.cleared hv0 hn hok hlive
  have hal := (hpages 0 hn).1
  rw [pageAt_zero] at hal
  -- a bit that is cleared is that of a frame of the range
  have hcleared : ∀ q, s.kernel.pmm.bitmap.bit q = true → (∀ i < n.toNat, f i ≠ q) →
      (freePages util s.kernel v n).2.pmm.bitmap.bit q = true := by
    intro q hq hno
    rw [← Bool.not_eq_false, hbits]
    rintro (⟨-, hlow, hhigh⟩ | hclear)
    · obtain ⟨i, hi, he⟩ := (framesFollow_iff hn hf).mp hfollow (q - f 0) (by omega)
      exact hno i hi (by omega)
    · simp [hq] at hclear
  refine h.keep_live hpaged (startAddress_freePages _ v n) (fun q _ hq0 hq => hcleared q hq fun i hi he => ?_)
    fun a ha => .kept ha.1 (hothers a fun hin => ha.2 ((inPages_iff_mem_span hal).mp hin)) fun q hown =>
      hcleared q hown.reserved fun i hi he => ?_
  · exact (hf i hi).nonzero (by rw [he]; exact hq0)
  · -- the address would be one of the range's
    have hown' := (hf i hi).mapped
    rw [he] at hown'
    have hsame := h.apart _ (hlive ((inPages_iff_mem_span hal).mp ⟨i, hi, rfl⟩)) a ha.1 _ hown' hown.mapped
    exact ha.2 ((inPages_iff_mem_span hal).mp ⟨i, hi, hsame⟩)

theorem freePages_zero (k : Kernel) (n : SizeT) : freePages util k 0#32 n = (true, k) := rfl

/-- `FreePages` of no page leaves the frames as they are. -/
theorem bit_freePages_zero (k : Kernel) (v : VirtualAddress) (q : ℕ) :
    (freePages util k v 0#32).2.pmm.bitmap.bit q = k.pmm.bitmap.bit q := by
  have hout : ∀ p, ¬ Bitmap.InRange trackedPages p 0#32 q := by
    rintro p ⟨-, hlow, hhigh⟩
    exact absurd hhigh (not_lt.mpr hlow)
  have houtcome := freePages_outcome util k v 0#32
  generalize freePages util k v 0#32 = r at houtcome
  cases houtcome with
  | nothing => rfl
  | stopped => rfl
  | freed =>
    simp only [returned, PhysicalMemoryManager.freePages]
    split
    · rfl
    · simp [Bitmap.bit_clearBits trackedPages_lt, hout]

/-- `FreePages` keeps the invariant when it meets the condition. -/
theorem Inv.freePages (h : Inv util s) {v : VirtualAddress} {n : SizeT} (hok : s.Orderly (.call (.freePages v n))) :
    Inv util ⟨(VirtualMemoryAllocator.freePages util s.kernel v n).2, s.liveAfter util (.call (.freePages v n))⟩ := by
  have hpaged := h.paged.afterFreePages v n
  have houtcome := freePages_outcome util s.kernel v n
  simp only [liveAfter]
  by_cases hv0 : v = 0#32
  · subst hv0
    rw [freePages_zero, if_pos rfl]
    exact h.keep_live h.paged rfl (fun _ _ _ hq => hq) fun a ha => .kept ha.1 rfl fun q hown => hown.reserved
  by_cases hdone : (VirtualMemoryAllocator.freePages util s.kernel v n).1 = true
  · rw [if_pos hdone]
    obtain ⟨hpages, -, hothers⟩ := h.paged.freed hdone hv0
    by_cases hn : n = 0#32
    · subst hn
      have hbits : ∀ q, (VirtualMemoryAllocator.freePages util s.kernel v 0#32).2.pmm.bitmap.bit q = _ :=
        bit_freePages_zero s.kernel v
      refine h.keep_live hpaged (startAddress_freePages _ v _) (fun q _ _ hq => (hbits q).trans hq) fun a ha => ?_
      exact .kept ha.1 (hothers a (by rintro ⟨i, hi, -⟩; exact absurd hi (Nat.not_lt_zero i))) fun q hown =>
        (hbits q).trans hown.reserved
    · have hpos : 0 < n.toNat := Nat.pos_of_ne_zero fun h0 => hn (BitVec.eq_of_toNat_eq h0)
      have hal := (hpages 0 hpos).1
      rw [pageAt_zero] at hal
      obtain ⟨hlive, hfollow⟩ := hok hv0 hal fun i hi => (hpages i hi).2
      exact h.freed hv0 hpos hdone hlive hfollow
  · rw [if_neg hdone]
    generalize VirtualMemoryAllocator.freePages util s.kernel v n = r at houtcome hpaged hdone
    cases houtcome with
    | nothing => exact absurd rfl hdone
    | freed => exact absurd rfl hdone
    | @stopped machine hunmap =>
      obtain ⟨i, -, hupTo⟩ : ∃ i < n.toNat, UnmappedUpTo s.kernel v i { s.kernel with machine := machine } :=
        h.paged.unmappedUpTo hunmap rfl rfl
      refine h.keep_live hpaged rfl (fun _ _ _ hq => hq) fun a ha => ?_
      by_cases hin : InPages v i a
      · obtain ⟨j, hj, hs⟩ := hin
        exact .unmapped (by rw [← hpaged.translate_congr hs]; exact (hupTo.before j hj).2)
      · exact .kept ha (hupTo.others a hin) fun q hown => hown.reserved

/-- A step that meets the condition keeps the invariant. -/
theorem Inv.step (h : Inv util s) {c : KernelCall} {s' : PageClient} (hok : s.Orderly c) (hs : Step util s c s') :
    Inv util s' := by
  obtain ⟨k', live'⟩ := s'
  obtain ⟨hs, hlive⟩ := hs
  simp only at hs hlive
  subst hlive
  have hpaged := h.paged.step hs
  cases hs with
  | @call c =>
    cases c with
    | allocatePages n => exact h.allocated hok
    | freePages v n => exact h.freePages hok
    | reservePages v n =>
      exact h.keep_live hpaged rfl (fun _ _ _ hq => hq) fun a ha => .kept ha rfl fun q hown => hown.reserved
  | other hsame =>
    refine h.keep_live hpaged rfl (fun _ _ _ hq => hq) fun a ha => .kept ha ?_ fun q hown => hown.reserved
    rw [hpaged.translate_eq, h.paged.translate_eq]
    exact congrArg _ (hsame a).2

/-- The invariant holds when the kernel has started. -/
theorem inv_start {bootInfo : BootInfo} {vmm vmm' : VirtualMemoryManager} {m m' : Machine} {imageSize : ℕ}
    (h : InImage (MemoryUtil.init bootInfo) vmm imageSize)
    (hok : initVirtualMemoryManager (MemoryUtil.init bootInfo) vmm bootInfo m = (true, vmm', m'))
    (bitmap : Bitmap trackedPages) (vma : VirtualMemoryAllocator) :
    Inv (MemoryUtil.init bootInfo) ⟨⟨m', vmm', (initPhysicalMemoryManager bootInfo bitmap).2, vma⟩, ∅⟩ := by
  refine ⟨paged_start h hok _ vma, fun q hq h0 => ?_, fun a ha => absurd ha (Set.notMem_empty a),
    fun a ha => absurd ha (Set.notMem_empty a)⟩
  rw [← Bitmap.test_eq_bit (Nat.le_of_lt hq)]
  exact zeroPageKept_initPhysicalMemoryManager bootInfo bitmap q hq h0

end PageClient

/-- The allocator takes the next pages of its window when the first `c` of them are taken, frames are found and the
pages are not mapped. -/
theorem Paged.allocates_next {util : MemoryUtil} {k : Kernel} (h : Paged util k) {c : ℕ} {n : SizeT} {f : PhysicalAddress}
    (hstart : k.vma.startAddress = 0xC1000000#32) (hbits : ∀ i < trackedPages, k.vma.bitmap.bit i = decide (i < c))
    (hframe : (k.pmm.allocatePages n).1 = f) (hf : Aligned f) (hf0 : f ≠ 0#32) (hn : 0 < n.toNat) (hfit : c + n.toNat ≤ trackedPages)
    (hfree : ∀ i < n.toNat, k.translate (pageAt 0xC1000000#32 (c + i)) = none) :
    (allocatePages util k n).1 = pageAt 0xC1000000#32 c ∧ (allocatePages util k n).2.pmm = (k.pmm.allocatePages n).2 ∧
      (∀ i < trackedPages, (allocatePages util k n).2.vma.bitmap.bit i = decide (i < c + n.toNat)) ∧
      (∀ i < n.toNat, (allocatePages util k n).2.translate (pageAt 0xC1000000#32 (c + i)) = some ⟨pageAt f i, true⟩) ∧
      ∀ x, ¬ InPages (pageAt 0xC1000000#32 c) n.toNat x → (allocatePages util k n).2.translate x = k.translate x := by
  have hbase : (0xC1000000#32).toNat = 0xC1000000 := rfl
  have hT : trackedPages = 131072 := rfl
  have hpage := pageAt_pageAt 0xC1000000#32 c
  have hv : k.vma.pageNumberToAddress (BitVec.ofNat 32 c) = pageAt 0xC1000000#32 c := by
    apply BitVec.eq_of_toNat_eq
    rw [k.vma.pageNumberToAddress_toNat, pageAt_toNat, hstart]
  have hunset : k.vma.bitmap.Unset c n.toNat := ⟨by omega, fun i hi hi' => by rw [hbits i (by omega), decide_eq_false (by omega)]⟩
  have hmin : ∀ q < c, ¬ k.vma.bitmap.Unset q n.toNat := by
    intro q hq
    exact Bitmap.not_unset_of_bit (i := q) (by rw [hbits q (by omega), decide_eq_true hq]) le_rfl (by omega)
  have hv0 : pageAt 0xC1000000#32 c ≠ 0#32 := pageAt_ne_zero (by decide) (by omega)
  have halloc : (allocatePages util k n).1 = pageAt 0xC1000000#32 c := by
    refine allocatePages_found h.layout h.tables hn hunset hmin hv (by rwa [hframe]) (by rwa [hframe])
      (aligned_pageAt (by decide) c) ?_ fun i hi => ⟨?_, ?_⟩
    · rw [pageAt_toNat]
      omega
    · rw [hpage, Covered, pageAt_toNat]
      omega
    · rw [hpage]
      exact h.translate_eq_none.mp (hfree i hi)
  obtain ⟨hpages, hothers⟩ := h.allocated halloc hv0
  obtain ⟨p, machine, hp, hpmin, heq⟩ := allocatePages_taken (by rwa [halloc] : (allocatePages util k n).1 ≠ 0#32)
  obtain rfl : p = c := by
    refine le_antisymm (Nat.le_of_not_lt fun hlt => ?_) (Nat.le_of_not_lt fun hlt => ?_)
    · exact hpmin c hlt ⟨by omega, fun i hi hi' _ => hunset.2 i hi hi'⟩
    · exact hmin p hlt (hp.unset (by omega))
  have hpn : (BitVec.ofNat 32 p).toNat = p := PhysicalMemoryManager.ofNat_toNat_of_lt (by omega)
  refine ⟨halloc, by rw [heq]; rfl, fun i hi => ?_, fun i hi => ?_, hothers⟩
  · rw [heq]
    simp only [taken, Bitmap.bit_setBits trackedPages_lt, Bitmap.InRange, hpn, hbits i hi]
    rw [← Bool.decide_or, decide_eq_decide]
    omega
  · have := (hpages i hi).2.2.2
    rwa [hpage, hframe] at this

/-- A state to which such a call leads. -/
theorem PageClient.Inv.allocates {util : MemoryUtil} {s : PageClient} (h : PageClient.Inv util s) {c p : ℕ} {n : SizeT}
    (hstart : s.kernel.vma.startAddress = 0xC1000000#32)
    (hbits : ∀ i < trackedPages, s.kernel.vma.bitmap.bit i = decide (i < c))
    (hp : s.kernel.pmm.bitmap.Unset p n.toNat) (hmin : ∀ q < p, ¬ s.kernel.pmm.bitmap.Unset q n.toNat)
    (hpmm : s.kernel.pmm.startAddress = 0x100000#32) (hn : 0 < n.toNat) (hfit : c + n.toNat ≤ 0x3000)
    (hfree : ∀ i < n.toNat, s.kernel.translate (pageAt 0xC1000000#32 (c + i)) = none) :
    ∃ s', RunsWhere (PageClient.Step util) PageClient.Orderly s s' ∧ PageClient.Inv util s' ∧
      s'.live = s.live ∪ Span (pageAt 0xC1000000#32 c) (4096 * n.toNat) ∧
      s'.kernel.vma.startAddress = 0xC1000000#32 ∧
      (∀ i < trackedPages, s'.kernel.vma.bitmap.bit i = decide (i < c + n.toNat)) ∧
      s'.kernel.pmm.startAddress = 0x100000#32 ∧
      (∀ q, s'.kernel.pmm.bitmap.bit q = true ↔ (p ≤ q ∧ q < p + n.toNat) ∨ s.kernel.pmm.bitmap.bit q = true) ∧
      (∀ i < n.toNat, s'.kernel.translate (pageAt 0xC1000000#32 (c + i)) = some ⟨pageAt 0x100000#32 (p + i), true⟩) ∧
      ∀ x, ¬ InPages (pageAt 0xC1000000#32 c) n.toNat x → s'.kernel.translate x = s.kernel.translate x := by
  have hend : p + n.toNat ≤ 131072 := hp.1
  have hbase : (0xC1000000#32).toNat = 0xC1000000 := rfl
  have hpn : (BitVec.ofNat 32 p).toNat = p := PhysicalMemoryManager.ofNat_toNat_of_lt (by omega)
  have hfound := PhysicalMemoryManager.allocatePages_found hn hp hmin
  have hframe : (s.kernel.pmm.allocatePages n).1 = pageAt 0x100000#32 p := by
    apply BitVec.eq_of_toNat_eq
    rw [hfound, PhysicalMemoryManager.pageNumberToAddress_toNat, pageAt_toNat, hpmm]
  have hmb : (0x100000#32).toNat = 0x100000 := rfl
  have hf0 : pageAt 0x100000#32 p ≠ 0#32 := pageAt_ne_zero (by decide) (by omega)
  have hs : s.kernel.pmm.Searchable n := .inr (.inl ⟨p, hp⟩)
  obtain ⟨halloc, hpmm', hbits', hpages, hothers⟩ := h.paged.allocates_next hstart hbits hframe
    (aligned_pageAt (by decide) p) hf0 hn (hfit.trans (by decide)) hfree
  have hv0 : pageAt 0xC1000000#32 c ≠ 0#32 := pageAt_ne_zero (by decide) (by omega)
  have hlive : s.liveAfter util (.call (.allocatePages n)) = s.live ∪ Span (pageAt 0xC1000000#32 c) (4096 * n.toNat) := by
    simp only [PageClient.liveAfter, halloc, if_neg hv0]
  refine ⟨⟨(allocatePages util s.kernel n).2, s.liveAfter util (.call (.allocatePages n))⟩,
    .single (show s.Orderly (.call (.allocatePages n)) from hs) ⟨.call, rfl⟩, h.allocated hs, hlive, ?_, hbits', ?_, fun q => ?_,
    fun i hi => ?_, hothers⟩
  · exact (startAddress_apply s.kernel (.allocatePages n)).trans hstart
  · rw [hpmm', hfound]
    exact hpmm
  · rw [hpmm', hfound, Bitmap.bit_setBits trackedPages_lt, Bool.or_eq_true, decide_eq_true_eq]
    simp only [Bitmap.InRange, hpn, show p + n.toNat ≤ trackedPages from hend, true_and]
  · rw [hpages i hi, pageAt_pageAt]

/-- Past the kernel's 4 MB nothing is mapped at the start. -/
theorem startTranslation_window {i : ℕ} (hi : i < 0x3F000) : startTranslation (pageAt 0xC1000000#32 i) = none := by
  have hpage : (pageAt 0xC1000000#32 i).toNat = 0xC1000000 + 4096 * i := by
    rw [pageAt_toNat, show (0xC1000000#32).toNat = 0xC1000000 from rfl]
    omega
  rw [startTranslation, hpage, if_neg (by omega), if_neg (by omega)]

end EagleOS.Memory
