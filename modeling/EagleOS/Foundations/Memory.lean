import Mathlib.Algebra.Group.Nat.Defs
import Mathlib.Data.Set.Lattice
import Mathlib.Order.CompletePartialOrder
import Mathlib.Tactic.Common

/-!
# A byte memory with 32-bit addresses

Addresses are 32-bit words and wrap around, as the arithmetic of a 32-bit
machine does. `Span a n` is the set of the `n` addresses from `a` on, taken
around the end of the address space: `x` is in it when `x - a` is below `n`.
A memory is a function from addresses to bytes; a 32-bit word lies in four
bytes, the least significant one first.

## What is proved

* `disjoint_span` — two spans are disjoint when each starts past the other's end.
* `load32_store32` — a word that was stored is loaded back.
* `storeWords_apply` — pairs of bytes that are stored one after the other fill a span.
* `SameOutside.store8`, `SameOutside.store16` — stores into a span leave what is outside.
* `load32_congr`, `load32_store32_of_disjoint` — a word depends on its own four
  bytes only, so a store elsewhere leaves it alone.
-/

namespace EagleOS.Foundations

/-- The addresses `a, a + 1, …, a + (n - 1)`, modulo `2 ^ 32`. -/
def Span (a : BitVec 32) (n : ℕ) : Set (BitVec 32) := {x | (x - a).toNat < n}

theorem mem_span {a x : BitVec 32} {n : ℕ} : x ∈ Span a n ↔ (x - a).toNat < n := Iff.rfl

@[simp] theorem span_zero (a : BitVec 32) : Span a 0 = ∅ := by
  ext x; simp [mem_span]

theorem Span.mono {a : BitVec 32} {m n : ℕ} (h : m ≤ n) : Span a m ⊆ Span a n :=
  fun _ hx => lt_of_lt_of_le hx h

theorem self_mem_span {a : BitVec 32} {n : ℕ} (h : 0 < n) : a ∈ Span a n := by
  simpa [mem_span] using h

/-- A span that does not pass the end of the address space is an interval. -/
theorem mem_span_iff {a x : BitVec 32} {n : ℕ} (h : a.toNat + n ≤ 2 ^ 32) :
    x ∈ Span a n ↔ a.toNat ≤ x.toNat ∧ x.toNat < a.toNat + n := by
  rw [mem_span, BitVec.toNat_sub]
  omega

/-- The addresses of a span, counted from its start. -/
theorem mem_span_iff_exists {a x : BitVec 32} {n : ℕ} (h : n ≤ 2 ^ 32) :
    x ∈ Span a n ↔ ∃ i < n, x = a + BitVec.ofNat 32 i := by
  constructor
  · intro hx
    refine ⟨(x - a).toNat, hx, ?_⟩
    rw [BitVec.ofNat_toNat, BitVec.setWidth_eq, BitVec.add_comm, BitVec.sub_add_cancel]
  · rintro ⟨i, hi, rfl⟩
    rw [mem_span, BitVec.add_comm, BitVec.add_sub_cancel, BitVec.toNat_ofNat, Nat.mod_eq_of_lt (by omega)]
    exact hi

/-- Two spans are disjoint when each starts past the other's end. -/
theorem disjoint_span {a b : BitVec 32} {m n : ℕ} (hm : m ≤ (b - a).toNat) (hn : n ≤ (a - b).toNat) :
    Disjoint (Span a m) (Span b n) := by
  rw [Set.disjoint_left]
  intro x hx hx'
  rw [mem_span, BitVec.toNat_sub] at hx hx'
  rw [BitVec.toNat_sub] at hm hn
  omega

/-- Two spans that do not pass the end of the address space are disjoint when one
ends before the other starts. -/
theorem disjoint_span_of_le {a b : BitVec 32} {m n : ℕ} (hab : a.toNat + m ≤ b.toNat)
    (hb : b.toNat + n ≤ 2 ^ 32) : Disjoint (Span a m) (Span b n) := by
  rw [Set.disjoint_left]
  intro x hx hx'
  rw [mem_span_iff (by omega)] at hx
  rw [mem_span_iff hb] at hx'
  omega

/-- The first address of a span, and the rest. -/
theorem mem_span_succ {a x : BitVec 32} {n : ℕ} (hn : n + 1 ≤ 2 ^ 32) :
    x ∈ Span a (n + 1) ↔ x = a ∨ x ∈ Span (a + 1#32) n := by
  rw [mem_span, mem_span, BitVec.toNat_sub, BitVec.toNat_sub, BitVec.toNat_add, ← BitVec.toNat_inj]
  have : (1#32).toNat = 1 := rfl
  omega

/-- Addresses that are counted from one place. -/
theorem add_ofNat_inj {a : BitVec 32} {i k : ℕ} (hi : i < 2 ^ 32) (hk : k < 2 ^ 32) :
    a + BitVec.ofNat 32 i = a + BitVec.ofNat 32 k ↔ i = k := by
  rw [BitVec.add_right_inj, ← BitVec.toNat_inj, BitVec.toNat_ofNat, BitVec.toNat_ofNat, Nat.mod_eq_of_lt hi, Nat.mod_eq_of_lt hk]

theorem add_ofNat_mem_span {a : BitVec 32} {i k n : ℕ} (hi : i < 2 ^ 32) (hk : k + n ≤ 2 ^ 32) :
    a + BitVec.ofNat 32 i ∈ Span (a + BitVec.ofNat 32 k) n ↔ k ≤ i ∧ i < k + n := by
  simp only [mem_span, BitVec.toNat_sub, BitVec.toNat_add, BitVec.toNat_ofNat]
  omega

/-- The bytes of a memory, by address. -/
abbrev Memory := BitVec 32 → BitVec 8

namespace Memory

/-- Store one byte. -/
def store8 (m : Memory) (a : BitVec 32) (b : BitVec 8) : Memory := fun x => if x = a then b else m x

/-- Store two bytes, the least significant one at `a`. -/
def store16 (m : Memory) (a : BitVec 32) (v : BitVec 16) : Memory :=
  (m.store8 a (v.extractLsb' 0 8)).store8 (a + 1#32) (v.extractLsb' 8 8)

/-- Load two bytes, the least significant one from `a`. -/
def load16 (m : Memory) (a : BitVec 32) : BitVec 16 := (m a).setWidth 16 ||| (m (a + 1#32)).setWidth 16 <<< 8

/-- Load the word whose least significant byte is at `a`. -/
def load32 (m : Memory) (a : BitVec 32) : BitVec 32 :=
  (m a).setWidth 32 ||| (m (a + 1#32)).setWidth 32 <<< 8 |||
    (m (a + 2#32)).setWidth 32 <<< 16 ||| (m (a + 3#32)).setWidth 32 <<< 24

/-- Store a word, least significant byte at `a`. -/
def store32 (m : Memory) (a v : BitVec 32) : Memory := fun x =>
  if (x - a).toNat < 4 then v.extractLsb' (8 * (x - a).toNat) 8 else m x

/-- Store pairs of bytes one after the other. -/
def storeWords (m : Memory) (a : BitVec 32) : List (BitVec 16) → Memory
  | [] => m
  | w :: ws => (m.store16 a w).storeWords (a + 2#32) ws

variable {m m' : Memory} {a b x v : BitVec 32}

@[simp] theorem store8_self (m : Memory) (a : BitVec 32) (b : BitVec 8) : m.store8 a b a = b := by
  simp [store8]

theorem store8_of_ne {b : BitVec 8} (h : x ≠ a) : m.store8 a b x = m x := by
  simp [store8, h]

/-- The two bytes that are loaded. -/
theorem extractLsb'_load16 (m : Memory) (a : BitVec 32) {i : ℕ} (hi : i < 2) :
    (m.load16 a).extractLsb' (8 * i) 8 = m (a + BitVec.ofNat 32 i) := by
  have hcases : i = 0 ∨ i = 1 := by omega
  rcases hcases with rfl | rfl
  · rw [BitVec.add_zero]
    ext j hj
    simp [load16, hj]
    omega
  · ext j hj
    have h16 : 8 + j < 16 := by omega
    have h8 : ¬ 8 + j < 8 := by omega
    simp [load16, hj, h16, h8]

theorem store16_of_notMem {v : BitVec 16} (h : x ∉ Span a 2) : m.store16 a v x = m x := by
  rw [mem_span_succ (by omega), mem_span_succ (by omega), not_or, not_or] at h
  rw [store16, store8_of_ne h.2.1, store8_of_ne h.1]

/-- Two memories are the same outside of a span. -/
def SameOutside (a : BitVec 32) (n : ℕ) (m m' : Memory) : Prop := ∀ x ∉ Span a n, m' x = m x

theorem SameOutside.refl (a : BitVec 32) (n : ℕ) (m : Memory) : SameOutside a n m m := fun _ _ => rfl

/-- A byte is stored in the span. -/
theorem SameOutside.store8 {n : ℕ} (h : SameOutside a n m m') (hn : n ≤ 2 ^ 32) {i : ℕ} (hi : i < n) (b : BitVec 8) :
    SameOutside a n m (m'.store8 (a + BitVec.ofNat 32 i) b) := by
  intro x hx
  have hne : x ≠ a + BitVec.ofNat 32 i := fun he => hx ((mem_span_iff_exists hn).mpr ⟨i, hi, he⟩)
  rw [store8_of_ne hne, h x hx]

/-- Two bytes are. -/
theorem SameOutside.store16 {n : ℕ} (h : SameOutside a n m m') (hn : n ≤ 2 ^ 32) {i : ℕ} (hi : i + 1 < n)
    (v : BitVec 16) : SameOutside a n m (m'.store16 (a + BitVec.ofNat 32 i) v) := by
  have hsecond : a + BitVec.ofNat 32 i + 1#32 = a + BitVec.ofNat 32 (i + 1) := by
    rw [BitVec.add_assoc, BitVec.ofNat_add]
  rw [Memory.store16, hsecond]
  exact (h.store8 hn (Nat.lt_of_succ_lt hi) _).store8 hn hi _

/-- The two bytes that are stored. -/
theorem store16_byte (m : Memory) (a : BitVec 32) (v : BitVec 16) {i : ℕ} (hi : i < 2) :
    m.store16 a v (a + BitVec.ofNat 32 i) = v.extractLsb' (8 * i) 8 := by
  have hcases : i = 0 ∨ i = 1 := by omega
  rcases hcases with rfl | rfl
  · have hne : a + BitVec.ofNat 32 0 ≠ a + BitVec.ofNat 32 1 := by
      rw [ne_eq, add_ofNat_inj (by omega) (by omega)]
      omega
    rw [store16, store8_of_ne hne, BitVec.add_zero, store8_self]
  · rw [store16, store8_self]

/-- Pairs of bytes that are stored one after the other fill a span, and leave the rest. -/
theorem storeWords_apply (ws : List (BitVec 16)) (hlen : 2 * ws.length ≤ 2 ^ 32) (m : Memory) (a x : BitVec 32) :
    (x ∈ Span a (2 * ws.length) →
        m.storeWords a ws x = (ws.getD ((x - a).toNat / 2) 0#16).extractLsb' (8 * ((x - a).toNat % 2)) 8) ∧
      (x ∉ Span a (2 * ws.length) → m.storeWords a ws x = m x) := by
  induction ws generalizing m a with
  | nil => simp [storeWords]
  | cons w ws ih =>
    rw [List.length_cons] at hlen
    obtain ⟨hin, hout⟩ := ih (by omega) (m.store16 a w) (a + 2#32)
    have hspan : x ∈ Span a (2 * (ws.length + 1)) ↔ x ∈ Span a 2 ∨ x ∈ Span (a + 2#32) (2 * ws.length) := by
      simp only [mem_span, BitVec.toNat_sub, BitVec.toNat_add, BitVec.toNat_ofNat]
      omega
    rw [List.length_cons, hspan, storeWords]
    by_cases hx : x ∈ Span (a + 2#32) (2 * ws.length)
    · refine ⟨fun _ => ?_, fun h => absurd (.inr hx) h⟩
      have hoffset : (x - a).toNat = (x - (a + 2#32)).toNat + 2 := by
        rw [mem_span] at hx
        simp only [BitVec.toNat_sub, BitVec.toNat_add, BitVec.toNat_ofNat] at hx ⊢
        omega
      rw [hin hx, hoffset, Nat.add_div_right _ (by decide), Nat.add_mod_right, List.getD_cons_succ]
    · rw [hout hx]
      refine ⟨?_, fun h => store16_of_notMem fun e => h (.inl e)⟩
      rintro (h | h)
      · have hx' : x = a + BitVec.ofNat 32 (x - a).toNat := by
          rw [BitVec.ofNat_toNat, BitVec.setWidth_eq, BitVec.add_comm, BitVec.sub_add_cancel]
        rw [mem_span] at h
        rw [Nat.div_eq_of_lt h, Nat.mod_eq_of_lt h, List.getD_cons_zero, ← store16_byte m a w h, ← hx']
      · exact absurd h hx

theorem store32_of_notMem (h : x ∉ Span a 4) : m.store32 a v x = m x := by
  exact if_neg h

/-- Of two stores to one word the last one counts. -/
@[simp] theorem store32_store32 (m : Memory) (a v w : BitVec 32) : (m.store32 a v).store32 a w = m.store32 a w := by
  funext x
  simp only [store32]
  split <;> rfl

/-- A word is made of its four bytes. -/
theorem load32_congr (h : ∀ x ∈ Span a 4, m' x = m x) : m'.load32 a = m.load32 a := by
  have hmem : ∀ i : ℕ, i < 4 → a + BitVec.ofNat 32 i ∈ Span a 4 :=
    fun i hi => (mem_span_iff_exists (by decide)).mpr ⟨i, hi, rfl⟩
  have h0 := h _ (hmem 0 (by decide)); have h1 := h _ (hmem 1 (by decide))
  have h2 := h _ (hmem 2 (by decide)); have h3 := h _ (hmem 3 (by decide))
  rw [BitVec.add_zero] at h0
  rw [load32, load32, h0, h1, h2, h3]

theorem load32_store32_of_disjoint (h : Disjoint (Span b 4) (Span a 4)) :
    (m.store32 a v).load32 b = m.load32 b :=
  load32_congr fun _ hx => store32_of_notMem (Set.disjoint_left.mp h hx)

theorem load32_store8_of_notMem {c : BitVec 8} (h : a ∉ Span b 4) : (m.store8 a c).load32 b = m.load32 b :=
  load32_congr fun _ hx => store8_of_ne fun e => h (e ▸ hx)

theorem store32_byte (m : Memory) (a v : BitVec 32) {i : ℕ} (hi : i < 4) :
    m.store32 a v (a + BitVec.ofNat 32 i) = v.extractLsb' (8 * i) 8 := by
  have : (a + BitVec.ofNat 32 i - a).toNat = i := by
    rw [BitVec.add_comm, BitVec.add_sub_cancel, BitVec.toNat_ofNat, Nat.mod_eq_of_lt (by omega)]
  simp only [store32, this, hi, if_true]

/-- A word is the four bytes it is cut into. -/
theorem join_bytes (v : BitVec 32) :
    (v.extractLsb' 0 8).setWidth 32 ||| (v.extractLsb' 8 8).setWidth 32 <<< 8 |||
      (v.extractLsb' 16 8).setWidth 32 <<< 16 ||| (v.extractLsb' 24 8).setWidth 32 <<< 24 = v := by
  ext i hi
  simp only [BitVec.getElem_or, BitVec.getElem_setWidth, BitVec.getElem_shiftLeft,
    BitVec.getLsbD_extractLsb']
  grind

/-- A word that was stored is loaded back. -/
@[simp] theorem load32_store32 (m : Memory) (a v : BitVec 32) : (m.store32 a v).load32 a = v := by
  have h0 := store32_byte m a v (show 0 < 4 by decide)
  have h1 := store32_byte m a v (show 1 < 4 by decide)
  have h2 := store32_byte m a v (show 2 < 4 by decide)
  have h3 := store32_byte m a v (show 3 < 4 by decide)
  rw [BitVec.add_zero] at h0
  rw [load32, h0, h1, h2, h3]
  exact join_bytes v

end Memory

end EagleOS.Foundations
