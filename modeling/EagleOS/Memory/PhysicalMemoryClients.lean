import EagleOS.Memory.PhysicalMemoryManager

/-!
# Clients of the physical page allocator

A client allocates any count of pages, and frees what it holds, each allocation once
and with its own count. This module follows the pages over whole runs, by way of
the ledger of page ranges.

## The model

`Client` is the object together with the allocations that are live: the results that
were not 0 and have not been freed. The list keeps duplicates, since `AllocatePages`
may return one address twice. `Client.ledger` is the ledger a state stands for: the
set bits, and the page ranges of the live allocations that lie in the bitmap. An
allocation that runs past the end of the bitmap reserved nothing, and is not in it.

## What is proved

* `Client.Step.moves` — a step leaves the ledger alone, exchanges a range, or
  withdraws one: the last only when the page at address 0 is handed out.
* `pages_disjoint` — while no search ends in a run that is too short, live
  allocations share no page.
* `exists_run_holding` — a client can come to hold any run of pages that is free.
* `pages_conserved` — when everything has been freed the bitmap is as it was.
-/

namespace EagleOS.Memory

open ESTD Boot Foundations Relation PhysicalMemoryManager

/-- The allocator and what a client holds of it. -/
structure Client where
  /-- The allocator. -/
  pmm : PhysicalMemoryManager
  /-- The live allocations: address and page count. -/
  live : List (PhysicalAddress × SizeT)

/-- The calls a client makes. -/
inductive PageCall where
  /-- `AllocatePages(pageCount)`. -/
  | allocatePages (pageCount : SizeT)
  /-- `FreePages(address, pageCount)`. -/
  | freePages (address : PhysicalAddress) (pageCount : SizeT)

namespace Client

/-- After `AllocatePages(n)`: a result other than 0 is live. -/
def allocated (s : Client) (n : SizeT) : Client :=
  ⟨(s.pmm.allocatePages n).2,
    if (s.pmm.allocatePages n).1 = 0 then s.live else ((s.pmm.allocatePages n).1, n) :: s.live⟩

/-- After `FreePages(x.1, x.2)` of a live allocation `x`. -/
def freed (s : Client) (x : PhysicalAddress × SizeT) : Client := ⟨s.pmm.freePages x.1 x.2, s.live.erase x⟩

/-- A call of a client that frees only what is live, with its own count and once. -/
inductive Step : Client → PageCall → Client → Prop
  /-- Any count may be asked for. -/
  | allocatePages {s : Client} {n : SizeT} : Step s (.allocatePages n) (s.allocated n)
  /-- Only a live allocation is freed. -/
  | freePages {s : Client} {x : PhysicalAddress × SizeT} : x ∈ s.live → Step s (.freePages x.1 x.2) (s.freed x)

/-- The search that a call makes in the bitmap ends properly: a run of the pages asked for is
free, or the last page is reserved. -/
def Searchable (s : Client) : PageCall → Prop
  | .allocatePages n => s.pmm.Searchable n
  | .freePages _ _ => True

theorem searchable_of_unset {s : Client} {k : ℕ} {n : SizeT} (h : s.pmm.bitmap.Unset k n.toNat) :
    s.Searchable (.allocatePages n) :=
  Or.inr (Or.inl ⟨k, h⟩)

/-! ### The ledger of a state -/

/-- The page numbers of an allocation: the first, and how many. -/
def rangeOf (pmm : PhysicalMemoryManager) (x : PhysicalAddress × SizeT) : ℕ × ℕ :=
  ((pmm.addressToPageNumber x.1).toNat, x.2.toNat)

/-- The allocation lies in the bitmap. -/
def Tracked (pmm : PhysicalMemoryManager) (x : PhysicalAddress × SizeT) : Prop :=
  (rangeOf pmm x).1 + (rangeOf pmm x).2 ≤ trackedPages

/-- The page ranges, in the bitmap, of a list of allocations. -/
def ranges (pmm : PhysicalMemoryManager) (live : List (PhysicalAddress × SizeT)) : List (ℕ × ℕ) :=
  (live.map (rangeOf pmm)).filter fun r => r.1 + r.2 ≤ trackedPages

/-- The ledger a state stands for. -/
def ledger (s : Client) : Ledger := ⟨{i | s.pmm.bitmap.bit i = true}, ranges s.pmm s.live⟩

theorem ledger_withBitmap (pmm : PhysicalMemoryManager) (bitmap : Bitmap trackedPages)
    (live : List (PhysicalAddress × SizeT)) :
    ledger ⟨{ pmm with bitmap := bitmap }, live⟩ = ⟨{i | bitmap.bit i = true}, ranges pmm live⟩ := rfl

/-- Live allocations are at the addresses of pages of the bitmap. -/
def Placed (s : Client) : Prop :=
  ∀ x ∈ s.live, x.1 ≠ 0 ∧ ∃ p < trackedPages, x.1 = s.pmm.pageNumberToAddress (BitVec.ofNat 32 p)

theorem ranges_cons (pmm : PhysicalMemoryManager) (x : PhysicalAddress × SizeT)
    (live : List (PhysicalAddress × SizeT)) :
    ranges pmm (x :: live) =
      if (rangeOf pmm x).1 + (rangeOf pmm x).2 ≤ trackedPages then rangeOf pmm x :: ranges pmm live
      else ranges pmm live := by
  simp only [ranges, List.map_cons, List.filter_cons, decide_eq_true_eq]

theorem ranges_perm (pmm : PhysicalMemoryManager) {live live' : List (PhysicalAddress × SizeT)}
    (h : live.Perm live') : (ranges pmm live).Perm (ranges pmm live') :=
  (h.map _).filter _

/-- An allocation outside the bitmap is in no range. -/
theorem ranges_erase_of_not_tracked (pmm : PhysicalMemoryManager) {x : PhysicalAddress × SizeT}
    (hx : ¬ Tracked pmm x) (live : List (PhysicalAddress × SizeT)) :
    ranges pmm (live.erase x) = ranges pmm live := by
  induction live with
  | nil => rfl
  | cons y live ih =>
    by_cases hyx : y = x
    · subst hyx
      rw [List.erase_cons_head, ranges_cons]
      exact (if_neg hx).symm
    · rw [List.erase_cons_tail (by simpa using hyx), ranges_cons, ranges_cons, ih]

/-- The range of `n` pages at the address of page `p`. -/
theorem rangeOf_pageNumberToAddress (pmm : PhysicalMemoryManager) {p : ℕ} (hp : p < trackedPages) (n : SizeT) :
    rangeOf pmm (pmm.pageNumberToAddress (BitVec.ofNat 32 p), n) = (p, n.toNat) := by
  have hlt : p < 131072 := hp
  have h : (BitVec.ofNat 32 p).toNat = p := ofNat_toNat_of_lt (by omega)
  rw [rangeOf, addressToPageNumber_pageNumberToAddress _ (by omega), h]

/-- The bytes of an allocation that lies in the bitmap are those whose page numbers are its own. -/
theorem mem_pages {s : Client} (hs : s.Placed) {x : PhysicalAddress × SizeT} (hx : x ∈ s.live)
    (ht : Tracked s.pmm x) (b : PhysicalAddress) :
    b ∈ pages x ↔ (s.pmm.addressToPageNumber b).toNat ∈ cells (rangeOf s.pmm x) := by
  obtain ⟨a, n⟩ := x
  obtain ⟨-, p, hp, rfl⟩ := hs _ hx
  have hlt : p < 131072 := hp
  have h : (BitVec.ofNat 32 p).toNat = p := ofNat_toNat_of_lt (by omega)
  have hle : p + n.toNat ≤ 131072 := by
    rw [Tracked, rangeOf_pageNumberToAddress _ hp] at ht; exact ht
  rw [pages, mem_span_pageNumberToAddress _ (by rw [h]; exact hle.trans (by decide)),
    rangeOf_pageNumberToAddress _ hp, h]

/-! ### Steps -/

/-- The bits that `SetBits` and `ClearBits` change are the cells of a range in the bitmap. -/
theorem inRange_iff {start count : SizeT} (h : start.toNat + count.toNat ≤ trackedPages) (i : ℕ) :
    Bitmap.InRange trackedPages start count i ↔ i ∈ cells (start.toNat, count.toNat) :=
  ⟨fun hi => hi.2, fun hi => ⟨h, hi⟩⟩

/-- What a step from `s` to `t` does to the ledger. -/
inductive Moves (s t : Client) : Prop
  /-- Nothing. -/
  | stays : t.ledger = s.ledger → Moves s t
  /-- A range is handed out or given back. -/
  | exchanges : Ledger.Exchange s.ledger t.ledger → Moves s t
  /-- The page at address 0 is handed out, and the result counts as a failure. -/
  | withdraws {p : ℕ} : p < trackedPages → s.pmm.pageNumberToAddress (BitVec.ofNat 32 p) = 0 →
      s.pmm.bitmap.bit p = false → Ledger.Step s.ledger t.ledger → Moves s t

/-- What `AllocatePages` does to the ledger. -/
theorem moves_allocated (s : Client) (n : SizeT) : Moves s (s.allocated n) := by
  have hspec := s.pmm.allocatePages_spec n
  rw [allocated]
  generalize s.pmm.allocatePages n = r at hspec
  cases hspec with
  | none => exact .stays (by simp)
  | @found p hn hp hmin =>
    have hlt : p < trackedPages := by have := hp.1; omega
    have hpn : (BitVec.ofNat 32 p).toNat = p := ofNat_toNat_of_lt (lt_trans hlt (by decide))
    have htarget : ∀ live, ledger ⟨{ s.pmm with bitmap := s.pmm.bitmap.setBits (BitVec.ofNat 32 p) n }, live⟩ =
        ⟨s.ledger.used ∪ cells (p, n.toNat), ranges s.pmm live⟩ := by
      intro live
      rw [ledger_withBitmap]
      congr 1
      ext i
      have hi : Bitmap.InRange trackedPages (BitVec.ofNat 32 p) n i ↔ _ :=
        inRange_iff (by rw [hpn]; exact hp.1) i
      rw [hpn] at hi
      simp only [Set.mem_ofPred_eq, Bitmap.bit_setBits trackedPages_lt, Bool.or_eq_true, decide_eq_true_eq, hi,
        Set.mem_union, ledger]
      exact or_comm
    have hfree : Disjoint (cells (p, n.toNat)) s.ledger.used := by
      rw [Set.disjoint_left]
      intro i hi hbit
      have := hp.2 i hi.1 hi.2
      simp only [ledger, Set.mem_ofPred_eq] at hbit
      simp [hbit] at this
    by_cases h0 : s.pmm.pageNumberToAddress (BitVec.ofNat 32 p) = 0
    · refine .withdraws hlt h0 (hp.2 p le_rfl (by omega)) ?_
      have hstep : Ledger.Step s.ledger ⟨_, ranges s.pmm s.live⟩ := .withdraw hfree
      rw [if_pos h0]
      rwa [← htarget] at hstep
    · refine .exchanges ?_
      have hstep : Ledger.Exchange s.ledger ⟨_, (p, n.toNat) :: ranges s.pmm s.live⟩ := .take hfree
      have hr := ranges_cons s.pmm (s.pmm.pageNumberToAddress (BitVec.ofNat 32 p), n) s.live
      rw [rangeOf_pageNumberToAddress _ hlt, if_pos hp.1] at hr
      rw [if_neg h0]
      rwa [← hr, ← htarget] at hstep
  | @short p hns hp hlong hrun hprev =>
    refine .stays ?_
    by_cases h0 : s.pmm.pageNumberToAddress (BitVec.ofNat 32 p) = 0
    · simp [h0]
    · simp only [h0, if_false, ledger, ranges_cons, rangeOf_pageNumberToAddress _ hp]
      rw [if_neg (by omega)]

/-- What `FreePages` does to the ledger. -/
theorem moves_freed {s : Client} (hs : s.Placed) {x : PhysicalAddress × SizeT} (hx : x ∈ s.live) :
    Moves s (s.freed x) := by
  have hperm := List.perm_cons_erase hx
  rw [freed, freePages, if_neg (hs x hx).1]
  by_cases ht : (rangeOf s.pmm x).1 + (rangeOf s.pmm x).2 ≤ trackedPages
  · have hlive := ranges_perm s.pmm hperm
    rw [ranges_cons, if_pos ht] at hlive
    have htarget : ledger ⟨{ s.pmm with bitmap := s.pmm.bitmap.clearBits (s.pmm.addressToPageNumber x.1) x.2 },
        s.live.erase x⟩ = ⟨s.ledger.used \ cells (rangeOf s.pmm x), ranges s.pmm (s.live.erase x)⟩ := by
      rw [ledger_withBitmap]
      congr 1
      ext i
      have hi := inRange_iff ht i
      simp only [Set.mem_ofPred_eq, Bitmap.bit_clearBits trackedPages_lt, Bool.and_eq_true, Bool.not_eq_true',
        decide_eq_false_iff_not, hi, Set.mem_sdiff, ledger]
      exact and_comm
    have hstep : Ledger.Exchange s.ledger ⟨_, ranges s.pmm (s.live.erase x)⟩ := .release hlive
    rw [← htarget] at hstep
    exact .exchanges hstep
  · have hclear : s.pmm.bitmap.clearBits (s.pmm.addressToPageNumber x.1) x.2 = s.pmm.bitmap :=
      Bitmap.forBits_of_lt (Nat.lt_of_not_le ht)
    refine .stays ?_
    rw [ledger_withBitmap, hclear, ranges_erase_of_not_tracked _ ht]
    rfl

/-- What a step does to the ledger. -/
theorem Step.moves {s t : Client} {c : PageCall} (hs : s.Placed) (h : Step s c t) : Moves s t := by
  cases h with
  | allocatePages => exact moves_allocated s _
  | freePages hx => exact moves_freed hs hx

/-- A step does not move the pages. -/
theorem Step.startAddress_eq {s t : Client} {c : PageCall} (h : Step s c t) :
    t.pmm.startAddress = s.pmm.startAddress := by
  cases h with
  | @allocatePages n =>
    have hspec := s.pmm.allocatePages_spec n
    rw [allocated]
    generalize s.pmm.allocatePages n = r at hspec
    cases hspec <;> rfl
  | freePages =>
    rw [freed, PhysicalMemoryManager.freePages]
    split <;> rfl

/-- The page arithmetic depends on the start address only. -/
theorem rangeOf_congr {pmm pmm' : PhysicalMemoryManager} (h : pmm'.startAddress = pmm.startAddress) :
    rangeOf pmm' = rangeOf pmm := by
  funext x
  simp only [rangeOf, addressToPageNumber, pmm.pageSize_eq, pmm'.pageSize_eq, h]

theorem pageNumberToAddress_congr {pmm pmm' : PhysicalMemoryManager}
    (h : pmm'.startAddress = pmm.startAddress) (p : SizeT) :
    pmm'.pageNumberToAddress p = pmm.pageNumberToAddress p := by
  simp only [pageNumberToAddress, pmm.pageSize_eq, pmm'.pageSize_eq, h]

/-- What a step adds to the live allocations is at the address of a page of the bitmap; and, when
the search ends properly, it lies in the bitmap. -/
theorem Step.live {s t : Client} {c : PageCall} (h : Step s c t) {x : PhysicalAddress × SizeT} (hx : x ∈ t.live) :
    x ∈ s.live ∨ (x.1 ≠ 0 ∧ (∃ p < trackedPages, x.1 = s.pmm.pageNumberToAddress (BitVec.ofNat 32 p)) ∧
      (s.Searchable c → Tracked s.pmm x)) := by
  cases h with
  | @freePages y hy => exact .inl (List.mem_of_mem_erase hx)
  | @allocatePages n =>
    have hspec := s.pmm.allocatePages_spec n
    rw [allocated] at hx
    generalize s.pmm.allocatePages n = r at hspec hx
    by_cases h0 : r.1 = 0
    · rw [if_pos h0] at hx
      exact .inl hx
    rw [if_neg h0] at hx
    rcases List.mem_cons.mp hx with rfl | hx
    · refine .inr ⟨h0, ?_⟩
      cases hspec with
      | none => exact absurd rfl h0
      | @found p hn hp hmin =>
        have hlt : p < trackedPages := by have := hp.1; omega
        refine ⟨⟨p, hlt, rfl⟩, fun _ => ?_⟩
        rw [Tracked, rangeOf_pageNumberToAddress _ hlt]
        exact hp.1
      | @short p hns hp hlong hrun hprev => exact ⟨⟨p, hp, rfl⟩, fun hs => absurd hs hns⟩
    · exact .inl hx

theorem Step.placed {s t : Client} {c : PageCall} (hs : s.Placed) (h : Step s c t) : t.Placed := by
  intro x hx
  rcases h.live hx with hx | ⟨h0, ⟨p, hp, he⟩, -⟩
  · obtain ⟨h0, p, hp, he⟩ := hs x hx
    exact ⟨h0, p, hp, he.trans (pageNumberToAddress_congr h.startAddress_eq _).symm⟩
  · exact ⟨h0, p, hp, he.trans (pageNumberToAddress_congr h.startAddress_eq _).symm⟩

/-! ### Runs -/

/-- What holds of every state a client reaches, from the allocator `start` with nothing live. -/
structure Reached (start : PhysicalMemoryManager) (s : Client) : Prop where
  /-- Live allocations are pages of the bitmap. -/
  placed : s.Placed
  /-- The pages have not moved. -/
  startAddress_eq : s.pmm.startAddress = start.startAddress
  /-- The ledger's invariant. -/
  inv : Ledger.Inv {i | start.bitmap.bit i = true} s.ledger

theorem reached_init (start : PhysicalMemoryManager) : Reached start ⟨start, []⟩ :=
  ⟨by simp [Placed], rfl, Ledger.inv_init _⟩

theorem Reached.step {start : PhysicalMemoryManager} {s t : Client} {c : PageCall} (hs : Reached start s)
    (h : Step s c t) : Reached start t := by
  refine ⟨h.placed hs.placed, h.startAddress_eq.trans hs.startAddress_eq, ?_⟩
  cases h.moves hs.placed with
  | stays he => rw [he]; exact hs.inv
  | exchanges he => exact hs.inv.exchange he
  | withdraws _ _ _ he => exact hs.inv.step he

/-- Every run keeps what is reserved at its start reserved, and its ranges apart. -/
theorem reached_of_runs {ok : Client → PageCall → Prop} {start : PhysicalMemoryManager} {s : Client}
    (h : RunsWhere Step ok ⟨start, []⟩ s) : Reached start s :=
  h.invariant (fun _ _ _ hs _ hstep => hs.step hstep) (reached_init start)

/-- While every search ends properly, live allocations lie in the bitmap. -/
theorem tracked_of_runs {start : PhysicalMemoryManager} {s : Client}
    (h : RunsWhere Step Searchable ⟨start, []⟩ s) : ∀ x ∈ s.live, Tracked s.pmm x := by
  have hkeep : ∀ (s : Client) (c : PageCall) (t : Client), (∀ x ∈ s.live, Tracked s.pmm x) → s.Searchable c →
      Step s c t → ∀ x ∈ t.live, Tracked t.pmm x := by
    intro s c t hs hok hstep x hx
    rw [Tracked, rangeOf_congr hstep.startAddress_eq]
    rcases hstep.live hx with hx | ⟨-, -, hx⟩
    · exact hs x hx
    · exact hx hok
  exact h.invariant hkeep (by simp)

/-- While every search ends properly, a page of a live allocation is not one of those reserved at
the start. -/
theorem page_free_at_start {start : PhysicalMemoryManager} {s : Client}
    (h : RunsWhere Step Searchable ⟨start, []⟩ s) {x : PhysicalAddress × SizeT} (hx : x ∈ s.live)
    {k : ℕ} (hk : k ∈ cells (rangeOf s.pmm x)) : start.bitmap.bit k = false := by
  have hmem : rangeOf s.pmm x ∈ ranges s.pmm s.live := by
    rw [ranges, List.mem_filter]
    exact ⟨List.mem_map_of_mem hx, decide_eq_true (tracked_of_runs h x hx)⟩
  have hdisj := Set.disjoint_left.mp ((reached_of_runs h).inv.live_base _ hmem) hk
  simpa using hdisj

/-- The bytes of a live allocation have page numbers of the bitmap that were free at the start. -/
theorem byte_free_at_start {start : PhysicalMemoryManager} {s : Client}
    (h : RunsWhere Step Searchable ⟨start, []⟩ s) {x : PhysicalAddress × SizeT} (hx : x ∈ s.live)
    {b : PhysicalAddress} (hb : b ∈ pages x) :
    (start.addressToPageNumber b).toNat < trackedPages ∧
      start.bitmap.bit (start.addressToPageNumber b).toNat = false := by
  have hr := reached_of_runs h
  have ht := tracked_of_runs h x hx
  have he : start.addressToPageNumber b = s.pmm.addressToPageNumber b := by
    simp only [addressToPageNumber, start.pageSize_eq, s.pmm.pageSize_eq, hr.startAddress_eq]
  rw [mem_pages hr.placed hx ht, ← he] at hb
  exact ⟨lt_of_lt_of_le hb.2 ht, page_free_at_start h hx hb⟩

/-- **No page twice**: while every search ends properly, live allocations share no page. -/
theorem pages_disjoint {start : PhysicalMemoryManager} {s : Client}
    (h : RunsWhere Step Searchable ⟨start, []⟩ s) :
    s.live.Pairwise fun x y => Disjoint (pages x) (pages y) := by
  have hr := reached_of_runs h
  have ht := tracked_of_runs h
  have hall : ranges s.pmm s.live = s.live.map (rangeOf s.pmm) := by
    rw [ranges, List.filter_eq_self]
    intro r hrm
    obtain ⟨x, hx, rfl⟩ := List.mem_map.mp hrm
    exact decide_eq_true (ht x hx)
  have hapart := hr.inv.apart
  rw [ledger, hall, List.pairwise_map] at hapart
  refine hapart.imp_of_mem fun {x y} hx hy hxy => ?_
  rw [Set.disjoint_left] at hxy ⊢
  intro b hbx hby
  rw [mem_pages hr.placed hx (ht x hx)] at hbx
  rw [mem_pages hr.placed hy (ht y hy)] at hby
  exact hxy hbx hby

/-! ### What a client can come to hold -/

/-- What a client holds, and which pages are reserved, after `AllocatePages` has found a run. -/
theorem allocated_found {s : Client} {n : SizeT} {p : ℕ} (hn : 0 < n.toNat) (hp : s.pmm.bitmap.Unset p n.toNat)
    (hmin : ∀ q < p, ¬ s.pmm.bitmap.Unset q n.toNat) :
    (s.pmm.pageNumberToAddress (BitVec.ofNat 32 p) ≠ 0 →
        (s.allocated n).live = (s.pmm.pageNumberToAddress (BitVec.ofNat 32 p), n) :: s.live) ∧
      ∀ i, (s.allocated n).pmm.bitmap.bit i =
        (decide (p ≤ i ∧ i < p + n.toNat) || s.pmm.bitmap.bit i) := by
  have halloc := allocatePages_found hn hp hmin
  have hlt : p < trackedPages := by have := hp.1; omega
  have hpn : (BitVec.ofNat 32 p).toNat = p := ofNat_toNat_of_lt (lt_trans hlt (by decide))
  refine ⟨fun h0 => by rw [allocated, halloc, if_neg h0], fun i => ?_⟩
  have hi := inRange_iff (show (BitVec.ofNat 32 p).toNat + n.toNat ≤ trackedPages by rw [hpn]; exact hp.1) i
  rw [allocated, halloc]
  simp only [Bitmap.bit_setBits trackedPages_lt, hi, hpn, mem_cells]

/-- One page that is free is a run. -/
theorem unset_one {bm : Bitmap trackedPages} {k : ℕ} (hk : k < trackedPages) (hbit : bm.bit k = false) :
    bm.Unset k (1#32).toNat := by
  refine ⟨hk, fun i hi hi' => ?_⟩
  rwa [show i = k by have : (1#32).toNat = 1 := rfl; omega]

/-- A client can take the free pages below page `k` one by one. -/
theorem exists_run_filling (start : PhysicalMemoryManager) {k : ℕ} (hk : k ≤ trackedPages) :
    ∃ s, RunsWhere Step Searchable ⟨start, []⟩ s ∧ (∀ i < k, s.pmm.bitmap.bit i = true) ∧
      ∀ i, k ≤ i → s.pmm.bitmap.bit i = start.bitmap.bit i := by
  induction k with
  | zero => exact ⟨_, .refl, fun i hi => absurd hi (Nat.not_lt_zero i), fun i _ => rfl⟩
  | succ k ih =>
    obtain ⟨s, hrun, hset, hsame⟩ := ih (by omega)
    by_cases hbit : s.pmm.bitmap.bit k = true
    · refine ⟨s, hrun, fun i hi => ?_, fun i hi => hsame i (by omega)⟩
      rcases Nat.lt_succ_iff_lt_or_eq.mp hi with hlt | rfl
      · exact hset i hlt
      · exact hbit
    · have hunset := unset_one hk (Bool.eq_false_iff.mpr hbit)
      have hbits := (allocated_found (by decide) hunset
        (fun q hq => Bitmap.not_unset_of_bit (hset q hq) le_rfl (by simp))).2
      have hone : (1#32).toNat = 1 := rfl
      refine ⟨s.allocated 1#32, hrun.tail (searchable_of_unset hunset) .allocatePages, fun i hi => ?_, fun i hi => ?_⟩
      · rw [hbits, Bool.or_eq_true, decide_eq_true_eq]
        rcases Nat.lt_succ_iff_lt_or_eq.mp hi with hlt | rfl
        · exact .inr (hset i hlt)
        · exact .inl (by omega)
      · rw [hbits, hsame i (by omega), decide_eq_false (by omega), Bool.false_or]

/-- A client can come to hold any run of pages that is free at the start, unless it is at address 0. -/
theorem exists_run_holding {start : PhysicalMemoryManager} {k : ℕ} {n : SizeT} (hn : 0 < n.toNat)
    (hk : start.bitmap.Unset k n.toNat) (h0 : start.pageNumberToAddress (BitVec.ofNat 32 k) ≠ 0) :
    ∃ s, RunsWhere Step Searchable ⟨start, []⟩ s ∧ (start.pageNumberToAddress (BitVec.ofNat 32 k), n) ∈ s.live := by
  obtain ⟨s, hrun, hset, hsame⟩ := exists_run_filling start (show k ≤ trackedPages by have := hk.1; omega)
  have hunset : s.pmm.bitmap.Unset k n.toNat := ⟨hk.1, fun i hi hi' => (hsame i hi).trans (hk.2 i hi hi')⟩
  have haddr := pageNumberToAddress_congr (reached_of_runs hrun).startAddress_eq (BitVec.ofNat 32 k)
  have hlive := (allocated_found hn hunset
    (fun q hq => Bitmap.not_unset_of_bit (hset q hq) le_rfl (by omega))).1 (by rwa [haddr])
  refine ⟨s.allocated n, hrun.tail (searchable_of_unset hunset) .allocatePages, ?_⟩
  rw [hlive, haddr]
  exact List.mem_cons_self

/-! ### Conservation -/

/-- The page at physical address 0 is reserved, or is not one of the bitmap's. -/
def ZeroPageKept (pmm : PhysicalMemoryManager) : Prop :=
  ∀ p < trackedPages, pmm.pageNumberToAddress (BitVec.ofNat 32 p) = 0 → pmm.bitmap.test p = true

/-- A free page of the bitmap is never at address 0. -/
theorem Reached.not_zero {start : PhysicalMemoryManager} (h0 : ZeroPageKept start) {s : Client}
    (hs : Reached start s) {p : ℕ} (hp : p < trackedPages) (hfree : s.pmm.bitmap.bit p = false) :
    s.pmm.pageNumberToAddress (BitVec.ofNat 32 p) ≠ 0 := by
  intro hz
  rw [pageNumberToAddress_congr hs.startAddress_eq] at hz
  have hset : start.bitmap.bit p = true := by
    rw [← Bitmap.test_eq_bit hp.le]
    exact h0 p hp hz
  have hused : s.pmm.bitmap.bit p = true := hs.inv.base_used hset
  simp [hfree] at hused

/-- While the page at address 0 is kept, a run exchanges ranges and withdraws none. -/
theorem exchanges_of_runs {start : PhysicalMemoryManager} (h0 : ZeroPageKept start) {s : Client}
    (h : Runs Step ⟨start, []⟩ s) :
    ReflTransGen Ledger.Exchange (ledger ⟨start, []⟩) s.ledger := by
  have hsim : ∀ (s : Client) (c : PageCall) (t : Client) (l : Ledger), (Reached start s ∧ l = s.ledger) → True →
      Step s c t → ∃ l', ReflTransGen Ledger.Exchange l l' ∧ (Reached start t ∧ l' = t.ledger) := by
    rintro s c t l ⟨hs, rfl⟩ - hstep
    refine ⟨t.ledger, ?_, hs.step hstep, rfl⟩
    cases hstep.moves hs.placed with
    | stays he => rw [he]
    | exchanges he => exact .single he
    | withdraws hp hz hfree _ => exact absurd hz (hs.not_zero h0 hp hfree)
  obtain ⟨l, hl, -, rfl⟩ := h.simulation hsim ⟨reached_init start, rfl⟩
  exact hl

/-- **Conservation of pages**: from any state in which the page at address 0 is reserved or not
tracked, a run at whose end every allocation has been freed leaves the bitmap as it was; and an
`AllocatePages` that returns 0, at any point of a run, changes nothing. -/
theorem pages_conserved {start : PhysicalMemoryManager} (h0 : ZeroPageKept start) {s : Client}
    (h : Runs Step ⟨start, []⟩ s) :
    (s.live = [] → s.pmm.bitmap = start.bitmap) ∧
      ∀ n, (s.pmm.allocatePages n).1 = 0 → (s.pmm.allocatePages n).2 = s.pmm := by
  constructor
  · intro hlive
    have hused : s.ledger.used = _ := Ledger.used_eq_base (exchanges_of_runs h0 h) (by simp [ledger, ranges, hlive])
    refine Bitmap.ext_bit fun i => Bool.eq_iff_iff.mpr ?_
    exact Set.ext_iff.mp hused i
  · intro n hz
    have hs := reached_of_runs h
    have hspec := s.pmm.allocatePages_spec n
    generalize s.pmm.allocatePages n = r at hspec hz
    cases hspec with
    | none => rfl
    | @found p hn hp hmin =>
      exact absurd hz (hs.not_zero h0 (by have := hp.1; omega) (hp.2 p le_rfl (by omega)))
    | short => rfl

/-- An allocator at 1 MB with every page free. -/
def freshAtOneMB : PhysicalMemoryManager where
  pageSize := 4096#32
  memorySizeBytes := 0x20000000#32
  pageCount := 131072#32
  startAddress := 0x100000#32
  endAddress := 0x20100000#32
  bitmap := Bitmap.resetAll
  pageSize_eq := pageSize_stored

/-- Below 4 GB no page from 1 MB on is at address 0. -/
theorem zeroPageKept_freshAtOneMB : ZeroPageKept freshAtOneMB := by
  intro p hp hz
  have hlt : p < 131072 := hp
  have hn := congrArg BitVec.toNat hz
  rw [pageNumberToAddress_toNat, show freshAtOneMB.startAddress.toNat = 0x100000 from rfl,
    show (0 : PhysicalAddress).toNat = 0 from rfl] at hn
  omega

/-- Three pages are allocated at 1 MB and freed. -/
theorem pages_conserved_freshAtOneMB :
    let s := (allocated ⟨freshAtOneMB, []⟩ 3#32).freed (0x100000#32, 3#32)
    Runs Step ⟨freshAtOneMB, []⟩ s ∧ s.live = [] ∧ s.pmm.bitmap = freshAtOneMB.bitmap := by
  intro s
  have hunset : freshAtOneMB.bitmap.Unset 0 (3#32).toNat := Bitmap.unset_resetAll (by decide)
  have halloc := allocatePages_found (by decide) hunset (fun q hq => absurd hq (Nat.not_lt_zero q))
  have hlive : (allocated ⟨freshAtOneMB, []⟩ 3#32).live = [(0x100000#32, 3#32)] := by
    simp only [allocated, halloc]
    rfl
  have hfreed : s.live = [] := by simp only [s, freed, hlive, List.erase_cons_head]
  have hrun : Runs Step ⟨freshAtOneMB, []⟩ s :=
    (RunsWhere.single trivial .allocatePages).tail trivial (.freePages (by rw [hlive]; exact List.mem_singleton_self _))
  exact ⟨hrun, hfreed, (pages_conserved zeroPageKept_freshAtOneMB hrun).1 hfreed⟩

end Client

end EagleOS.Memory
