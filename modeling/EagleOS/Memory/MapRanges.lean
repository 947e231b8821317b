import EagleOS.Memory.MapCalls

/-!
# What `MapRange` and `UnmapRange` do

The range calls go page by page and stop at the first page that cannot be mapped or unmapped, leaving
what they have done. Addresses wrap around at 4 GB.

## What is proved

* `mapRange_spec`, `unmapRange_spec` — what holds of the words of the tables after the calls, whether
  they succeed or stop midway.
* `mapRange_succeeds`, `unmapRange_succeeds` — when the pages allow it, the calls succeed.
* `mapLoop_stops`, `unmapLoop_stops` — where the calls stop, and what they have done by then.
-/

namespace EagleOS.Memory

open ESTD Boot Foundations Arch

/-- The address of page `i` of a range that starts at `v`. -/
def pageAt (v : BitVec 32) (i : ℕ) : BitVec 32 := v + pageSize * BitVec.ofNat 32 i

theorem pageAt_toNat (v : BitVec 32) (i : ℕ) : (pageAt v i).toNat = (v.toNat + 4096 * i) % 2 ^ 32 := by
  rw [pageAt, BitVec.toNat_add, BitVec.toNat_mul, show pageSize.toNat = 4096 from rfl, BitVec.toNat_ofNat]
  omega

/-- A page after one that is not at zero is not at zero, if the address space does not end before it. -/
theorem pageAt_ne_zero {v : BitVec 32} {i : ℕ} (hv : 0 < v.toNat) (hi : v.toNat + 4096 * i < 2 ^ 32) : pageAt v i ≠ 0#32 := by
  intro h0
  have hzero : (pageAt v i).toNat = 0 := by rw [h0]; rfl
  rw [pageAt_toNat] at hzero
  omega

@[simp] theorem pageAt_zero (v : BitVec 32) : pageAt v 0 = v := by
  rw [← BitVec.toNat_inj, pageAt_toNat]
  omega

theorem pageAt_succ (v : BitVec 32) (i : ℕ) : pageAt (v + pageSize) i = pageAt v (i + 1) := by
  rw [← BitVec.toNat_inj, pageAt_toNat, pageAt_toNat, BitVec.toNat_add, show pageSize.toNat = 4096 from rfl]
  omega

theorem aligned_pageAt {v : BitVec 32} (hv : Aligned v) (i : ℕ) : Aligned (pageAt v i) := by
  rw [Aligned] at hv ⊢
  rw [pageAt_toNat]
  omega

theorem aligned_next_page {v : BitVec 32} (hv : Aligned v) : Aligned (v + pageSize) := by
  have := aligned_pageAt hv 1
  rwa [← pageAt_succ, pageAt_zero] at this

/-- If two or more pages do not pass the end of the address space, neither do those after the first. -/
theorem next_page_le {v : BitVec 32} {k : ℕ} (hend : v.toNat + 4096 * (k + 1) ≤ 2 ^ 32) :
    (v + pageSize).toNat + 4096 * k ≤ 2 ^ 32 := by
  rw [Nat.mul_succ] at hend
  rw [BitVec.toNat_add, show pageSize.toNat = 4096 from rfl]
  omega

namespace VirtualMemoryManager

/-- The address lies in one of the `n` pages from `v` on. -/
def InPages (v : VirtualAddress) (n : ℕ) (x : VirtualAddress) : Prop := ∃ i < n, SamePage (pageAt v i) x

instance (v : VirtualAddress) (n : ℕ) (x : VirtualAddress) : Decidable (InPages v n x) :=
  inferInstanceAs (Decidable (∃ i < n, _))

theorem inPages_succ {v x : VirtualAddress} {n : ℕ} :
    InPages v (n + 1) x ↔ SamePage v x ∨ InPages (v + pageSize) n x := by
  constructor
  · rintro ⟨i, hi, hs⟩
    cases i with
    | zero => exact .inl (by simpa using hs)
    | succ i => exact .inr ⟨i, by omega, by rwa [pageAt_succ]⟩
  · rintro (hs | ⟨i, hi, hs⟩)
    · exact ⟨0, by omega, by simpa using hs⟩
    · exact ⟨i + 1, by omega, by rwa [← pageAt_succ]⟩

variable {util : MemoryUtil} {vmm : VirtualMemoryManager} {m : Machine} {v : VirtualAddress}
  {p : PhysicalAddress} {writable : Bool}

/-- What holds after `MapRange`, of `n` pages. -/
structure MapRangeSpec (util : MemoryUtil) (vmm : VirtualMemoryManager) (m : Machine) (v : VirtualAddress)
    (p : PhysicalAddress) (n : ℕ) (r : Bool × Machine) : Prop where
  /-- The tables are in order. -/
  tables : Tables util vmm r.2.mem
  /-- The directory in use is the same. -/
  cr3 : r.2.cr3 = m.cr3
  /-- What was mapped stays as it was. -/
  kept : ∀ x, vmm.entryAt util m.mem x ≠ 0#32 → vmm.entryAt util r.2.mem x = vmm.entryAt util m.mem x
  /-- Other pages stay as they were. -/
  frame : ∀ x, ¬ InPages v n x → vmm.entryAt util r.2.mem x = vmm.entryAt util m.mem x
  /-- When the call succeeds, every page was not mapped, and is now. -/
  mapped : r.1 = true → ∀ i < n, Aligned (pageAt v i) ∧ Aligned (pageAt p i) ∧ Covered (pageAt v i) ∧
    vmm.entryAt util m.mem (pageAt v i) = 0#32 ∧ vmm.entryAt util r.2.mem (pageAt v i) = entryFor (pageAt p i)

theorem mapLoop_spec (hL : Layout util vmm) (n : ℕ) :
    ∀ {m : Machine} {v : VirtualAddress} {p : PhysicalAddress}, Tables util vmm m.mem →
      MapRangeSpec util vmm m v p n (vmm.mapLoop util writable n m v p) := by
  induction n with
  | zero => exact fun hT => ⟨hT, rfl, fun _ _ => rfl, fun _ _ => rfl, fun _ i hi => absurd hi (Nat.not_lt_zero i)⟩
  | succ n ih =>
    intro m v p hT
    obtain ⟨hT', hok, he⟩ := (map_result hL hT v p writable).spec hL hT
    have hcr3 := (map_result hL hT v p writable).cr3
    rw [mapLoop]
    generalize vmm.map util m v p writable = r at hT' hok he hcr3
    obtain ⟨b, m'⟩ := r
    simp only at hT' hok he hcr3
    cases b with
    | false => exact ⟨hT', hcr3, fun x _ => by simp [he], fun x _ => by simp [he], fun h => absurd h (by simp)⟩
    | true =>
      obtain ⟨hp, hv, hc, h0⟩ := hok.mp rfl
      obtain ⟨hT'', hcr3', hkept, hframe, hmapped⟩ := ih (v := v + pageSize) (p := p + pageSize) hT'
      -- a word that was in use is still so after the first page
      have hstep : ∀ x, vmm.entryAt util m.mem x ≠ 0#32 → vmm.entryAt util m'.mem x = vmm.entryAt util m.mem x := by
        intro x hx
        rw [he, if_neg]
        rintro ⟨-, hs⟩
        exact hx ((entryAt_congr hL hs).symm.trans h0)
      have hself : vmm.entryAt util m'.mem v = entryFor p := by rw [he, if_pos ⟨rfl, rfl⟩]
      refine ⟨hT'', hcr3'.trans hcr3, fun x hx => ?_, fun x hx => ?_, fun hr i hi => ?_⟩
      · rw [← hstep x hx]
        exact hkept x (by rwa [hstep x hx])
      · rw [inPages_succ, not_or] at hx
        rw [hframe x hx.2, he, if_neg fun h => hx.1 h.2]
      · cases i with
        | zero =>
          simp only [pageAt_zero]
          refine ⟨hv, hp, hc, h0, ?_⟩
          rw [← hself]
          exact hkept v (by rw [hself]; exact entryFor_ne_zero p)
        | succ i =>
          rw [← pageAt_succ, ← pageAt_succ]
          obtain ⟨h1, h2, h3, h4, h5⟩ := hmapped hr i (by omega)
          refine ⟨h1, h2, h3, ?_, h5⟩
          by_contra hne
          exact hne ((hstep _ hne).symm.trans h4)

/-- What `MapRange` does. -/
theorem mapRange_spec (hL : Layout util vmm) (hT : Tables util vmm m.mem) (v : VirtualAddress)
    (p : PhysicalAddress) (writable : Bool) (count : SizeT) :
    MapRangeSpec util vmm m v p count.toNat (vmm.mapRange util m v p writable count) :=
  mapLoop_spec hL count.toNat hT

/-- Where `MapRange` stops: the pages before are mapped, and this one cannot be. -/
theorem mapLoop_stops (hL : Layout util vmm) (n : ℕ) :
    ∀ {m m' : Machine} {v : VirtualAddress} {p : PhysicalAddress}, Tables util vmm m.mem →
      vmm.mapLoop util writable n m v p = (false, m') →
      ∃ i < n, vmm.mapLoop util writable i m v p = (true, m') ∧ ¬ vmm.Mappable util m'.mem (pageAt v i) (pageAt p i) := by
  induction n with
  | zero =>
    intro m m' v p _ h
    simp [mapLoop] at h
  | succ n ih =>
    intro m m' v p hT h
    have hresult := map_result hL hT v p writable
    have hT' := (hresult.spec hL hT).1
    unfold mapLoop at h
    generalize hr : vmm.map util m v p writable = r at h hresult hT'
    cases hresult with
    | refused hno =>
      cases h
      exact ⟨0, Nat.succ_pos n, rfl, by simpa using hno⟩
    | mapped =>
      obtain ⟨i, hi, hloop, hno⟩ := ih hT' h
      refine ⟨i + 1, Nat.succ_lt_succ hi, ?_, by simpa [pageAt_succ] using hno⟩
      unfold mapLoop
      rw [hr]
      exact hloop

/-- Pages that do not pass the end of the address space are distinct. -/
theorem not_samePage_pageAt {n i : ℕ} (hend : v.toNat + 4096 * n ≤ 2 ^ 32) (hi : i + 1 < n) :
    ¬ SamePage v (pageAt v (i + 1)) := by
  rw [SamePage, pageAt_toNat]
  omega

theorem mapLoop_succeeds (hL : Layout util vmm) (n : ℕ) :
    ∀ {m : Machine} {v : VirtualAddress} {p : PhysicalAddress}, Tables util vmm m.mem → Aligned v → Aligned p →
      v.toNat + 4096 * n ≤ 2 ^ 32 →
      (∀ i < n, Covered (pageAt v i) ∧ vmm.entryAt util m.mem (pageAt v i) = 0#32) →
      (vmm.mapLoop util writable n m v p).1 = true := by
  induction n with
  | zero => exact fun _ _ _ _ _ => rfl
  | succ n ih =>
    intro m v p hT hv hp hend hfree
    obtain ⟨hT', hok, he⟩ := (map_result hL hT v p writable).spec hL hT
    have h0 := hfree 0 (by omega)
    rw [pageAt_zero] at h0
    rw [mapLoop]
    generalize vmm.map util m v p writable = r at hT' hok he
    obtain ⟨b, m'⟩ := r
    obtain rfl : b = true := hok.mpr ⟨hp, hv, h0⟩
    cases n with
    | zero => rfl
    | succ n =>
      have hend' := next_page_le hend
      have hv' := aligned_next_page hv
      have hp' := aligned_next_page hp
      refine ih hT' hv' hp' hend' fun i hi => ?_
      obtain ⟨hc, hz⟩ := hfree (i + 1) (by omega)
      rw [pageAt_succ]
      refine ⟨hc, ?_⟩
      rw [he, if_neg fun h => not_samePage_pageAt hend (by omega) h.2]
      exact hz

/-- `MapRange` succeeds when no page is mapped and there is a table for each. -/
theorem mapRange_succeeds (hL : Layout util vmm) (hT : Tables util vmm m.mem) {count : SizeT} (hv : Aligned v)
    (hp : Aligned p) (hend : v.toNat + 4096 * count.toNat ≤ 2 ^ 32)
    (hfree : ∀ i < count.toNat, Covered (pageAt v i) ∧ vmm.entryAt util m.mem (pageAt v i) = 0#32) :
    (vmm.mapRange util m v p writable count).1 = true :=
  mapLoop_succeeds hL count.toNat hT hv hp hend hfree

/-! ### `UnmapRange` -/

/-- What holds after `UnmapRange`, of `n` pages. -/
structure UnmapRangeSpec (util : MemoryUtil) (vmm : VirtualMemoryManager) (m : Machine) (v : VirtualAddress)
    (n : ℕ) (r : Bool × Machine) : Prop where
  /-- The tables are in order. -/
  tables : Tables util vmm r.2.mem
  /-- The directory in use is the same. -/
  cr3 : r.2.cr3 = m.cr3
  /-- No page is mapped anew. -/
  shrinks : ∀ x, vmm.entryAt util m.mem x = 0#32 → vmm.entryAt util r.2.mem x = 0#32
  /-- Other pages stay as they were. -/
  frame : ∀ x, ¬ InPages v n x → vmm.entryAt util r.2.mem x = vmm.entryAt util m.mem x
  /-- When the call succeeds, no page of the range is mapped any more. -/
  unmapped : r.1 = true → ∀ x, InPages v n x → vmm.entryAt util r.2.mem x = 0#32

/-- `FlushTLB` does not touch the memory. -/
@[simp] theorem mem_flushTLB (m : Machine) (v : VirtualAddress) : (flushTLB m v).mem = m.mem := rfl

theorem unmapLoop_spec (hL : Layout util vmm) (n : ℕ) :
    ∀ {m : Machine} {v : VirtualAddress}, Tables util vmm m.mem →
      UnmapRangeSpec util vmm m v n (vmm.unmapLoop util n m v) := by
  induction n with
  | zero => exact fun hT => ⟨hT, rfl, fun _ h => h, fun _ _ => rfl, fun _ x ⟨i, hi, _⟩ => absurd hi (Nat.not_lt_zero i)⟩
  | succ n ih =>
    intro m v hT
    obtain ⟨hT', -, he⟩ := (unmap_result hL hT v).spec hL hT
    have hcr3 := (unmap_result hL hT v).cr3
    rw [unmapLoop]
    generalize vmm.unmap util m v = r at hT' he hcr3
    obtain ⟨b, m'⟩ := r
    simp only at hT' he hcr3
    cases b with
    | false => exact ⟨hT', hcr3, fun x hx => by simp [he, hx], fun x _ => by simp [he], fun h => absurd h (by simp)⟩
    | true =>
      obtain ⟨hT'', hcr3', hshrinks, hframe, hunmapped⟩ := ih (m := flushTLB m' v) (v := v + pageSize) hT'
      have hstep : ∀ x, vmm.entryAt util m.mem x = 0#32 → vmm.entryAt util m'.mem x = 0#32 := by
        intro x hx
        rw [he]
        split
        · rfl
        · exact hx
      refine ⟨hT'', hcr3'.trans hcr3, fun x hx => hshrinks x (hstep x hx), fun x hx => ?_, fun hr x hx => ?_⟩
      · rw [inPages_succ, not_or] at hx
        rw [hframe x hx.2, mem_flushTLB, he, if_neg fun h => hx.1 h.2]
      · rcases inPages_succ.mp hx with hs | hs
        · exact hshrinks x (by rw [mem_flushTLB, he, if_pos ⟨rfl, hs⟩])
        · exact hunmapped hr x hs

/-- What `UnmapRange` does. -/
theorem unmapRange_spec (hL : Layout util vmm) (hT : Tables util vmm m.mem) (v : VirtualAddress) (count : SizeT) :
    UnmapRangeSpec util vmm m v count.toNat (vmm.unmapRange util m v count) :=
  unmapLoop_spec hL count.toNat hT

/-- What `UnmapRange` unmaps was mapped. -/
theorem unmapLoop_used (hL : Layout util vmm) (n : ℕ) :
    ∀ {m : Machine} {v : VirtualAddress}, Tables util vmm m.mem → (vmm.unmapLoop util n m v).1 = true →
      ∀ i < n, Aligned (pageAt v i) ∧ vmm.entryAt util m.mem (pageAt v i) ≠ 0#32 := by
  induction n with
  | zero => exact fun _ _ i hi => absurd hi (Nat.not_lt_zero i)
  | succ n ih =>
    intro m v hT h i hi
    obtain ⟨hT', hok, he⟩ := (unmap_result hL hT v).spec hL hT
    unfold unmapLoop at h
    generalize vmm.unmap util m v = r at h hT' hok he
    obtain ⟨b, m'⟩ := r
    cases b with
    | false => simp at h
    | true =>
      cases i with
      | zero => simpa using hok.mp rfl
      | succ i =>
        obtain ⟨hal, hne⟩ := ih (m := flushTLB m' v) hT' h i (by omega)
        rw [pageAt_succ] at hal hne
        refine ⟨hal, fun h0 => hne ?_⟩
        rw [mem_flushTLB, he]
        split
        · rfl
        · exact h0

/-- Where `UnmapRange` stops: the pages before are unmapped, and this one cannot be. -/
theorem unmapLoop_stops (hL : Layout util vmm) (n : ℕ) :
    ∀ {m m' : Machine} {v : VirtualAddress}, Tables util vmm m.mem → vmm.unmapLoop util n m v = (false, m') →
      ∃ i < n, vmm.unmapLoop util i m v = (true, m') ∧
        ¬ (Aligned (pageAt v i) ∧ vmm.entryAt util m'.mem (pageAt v i) ≠ 0#32) := by
  induction n with
  | zero =>
    intro m m' v _ h
    simp [unmapLoop] at h
  | succ n ih =>
    intro m m' v hT h
    have hresult := unmap_result hL hT v
    have hT' := (hresult.spec hL hT).1
    unfold unmapLoop at h
    generalize hr : vmm.unmap util m v = r at h hresult hT'
    cases hresult with
    | refused hno =>
      cases h
      exact ⟨0, Nat.succ_pos n, rfl, by simpa using hno⟩
    | unmapped =>
      obtain ⟨i, hi, hloop, hno⟩ := ih (by exact hT') h
      refine ⟨i + 1, Nat.succ_lt_succ hi, ?_, by simpa [pageAt_succ] using hno⟩
      unfold unmapLoop
      rw [hr]
      exact hloop

/-- As many pages as the address space has are distinct, also where they wrap around. -/
theorem not_samePage_pageAt_of_le {n i : ℕ} (hn : n ≤ 2 ^ 20) (hi : i + 1 < n) : ¬ SamePage v (pageAt v (i + 1)) := by
  rw [SamePage, pageAt_toNat]
  omega

theorem unmapLoop_succeeds (hL : Layout util vmm) (n : ℕ) :
    ∀ {m : Machine} {v : VirtualAddress}, Tables util vmm m.mem → Aligned v → n ≤ 2 ^ 20 →
      (∀ i < n, vmm.entryAt util m.mem (pageAt v i) ≠ 0#32) → (vmm.unmapLoop util n m v).1 = true := by
  induction n with
  | zero => exact fun _ _ _ _ => rfl
  | succ n ih =>
    intro m v hT hv hn hused
    obtain ⟨hT', hok, he⟩ := (unmap_result hL hT v).spec hL hT
    have h0 := hused 0 (by omega)
    rw [pageAt_zero] at h0
    rw [unmapLoop]
    generalize vmm.unmap util m v = r at hT' hok he
    obtain ⟨b, m'⟩ := r
    obtain rfl : b = true := hok.mpr ⟨hv, h0⟩
    have hv' := aligned_next_page hv
    refine ih (m := flushTLB m' v) hT' hv' (by omega) fun i hi => ?_
    rw [pageAt_succ, mem_flushTLB, he, if_neg fun h => not_samePage_pageAt_of_le hn (by omega) h.2]
    exact hused (i + 1) (by omega)

/-- `UnmapRange` succeeds when every page is mapped, also where the range wraps around. -/
theorem unmapRange_succeeds_of_le (hL : Layout util vmm) (hT : Tables util vmm m.mem) {count : SizeT} (hv : Aligned v)
    (hcount : count.toNat ≤ 2 ^ 20) (hused : ∀ i < count.toNat, vmm.entryAt util m.mem (pageAt v i) ≠ 0#32) :
    (vmm.unmapRange util m v count).1 = true :=
  unmapLoop_succeeds hL count.toNat hT hv hcount hused

/-- `UnmapRange` succeeds when every page is mapped. -/
theorem unmapRange_succeeds (hL : Layout util vmm) (hT : Tables util vmm m.mem) {count : SizeT} (hv : Aligned v)
    (hend : v.toNat + 4096 * count.toNat ≤ 2 ^ 32)
    (hused : ∀ i < count.toNat, vmm.entryAt util m.mem (pageAt v i) ≠ 0#32) :
    (vmm.unmapRange util m v count).1 = true :=
  unmapRange_succeeds_of_le hL hT hv (by omega) hused

end VirtualMemoryManager

end EagleOS.Memory
