import Mathlib.Algebra.Group.Nat.Defs
import Mathlib.Data.Int.Notation
import Mathlib.Tactic.Common

/-!
# `ESTD::Bitmap`

`Bitmap<TSize>` keeps `TSize` bits in an array of `TSize` bytes, eight to a byte;
seven eighths of the array are never touched by a single-bit operation. The
physical and the virtual page allocator both sit on one of 131072 bits.

## The model

`Bitmap.bits` is the array `m_Bits`. Positions are natural numbers where nothing
wraps; the range operations take 32-bit words, since `start + count` may wrap.
`Bitmap.bit` is bit `i % 8` of byte `i / 8`, and everything is proved in terms of it.

Two things are kept as the source has them. `SetAll` fills the bytes with the value
`1`, which sets one bit in eight. `FindUnsetBits` returns the first position of the
last run of unset bits when the run reaches the end of the bitmap, also when the run
is shorter than asked.

## What is proved

* `bit_set`, `bit_reset`, `bit_setAll`, `bit_resetAll` — what the operations do to a bit.
* `bit_setBits`, `bit_clearBits` — the range operations are all or nothing, also
  when `start + count` wraps.
* `setBits_clearBits_range` — the same for whole ranges and for both operations.
* `findUnsetBits_spec` — the three ways the search ends (`FindResult`).
* `findUnsetBits_first` — what the search finds in any case.
* `findUnsetBits_firstFit_iff` — when it is the first fit.
-/

namespace EagleOS.ESTD

/-- `size_t` of the 32-bit target. -/
abbrev SizeT := BitVec 32

/-- `Bitmap<TSize>`. -/
structure Bitmap (TSize : ℕ) where
  /-- `uint8_t m_Bits[TSize]`. -/
  bits : Vector (BitVec 8) TSize
  deriving DecidableEq

namespace Bitmap

variable {TSize : ℕ}

/-- `m_Bits[byteIndex]`. -/
def byteAt (bm : Bitmap TSize) (byteIndex : ℕ) : BitVec 8 := bm.bits[byteIndex]?.getD 0

/-- `m_Bits[byteIndex] = f(m_Bits[byteIndex])`. -/
def updateByte (bm : Bitmap TSize) (byteIndex : ℕ) (f : BitVec 8 → BitVec 8) : Bitmap TSize :=
  ⟨bm.bits.setIfInBounds byteIndex (f (bm.byteAt byteIndex))⟩

/-- `1 << bitIndex`, cut to the byte it is combined with. -/
def mask (bitIndex : ℕ) : BitVec 8 := 1#8 <<< bitIndex

/-- `Set`. -/
def set (bm : Bitmap TSize) (pos : ℕ) : Bitmap TSize :=
  if pos > TSize then bm else bm.updateByte (pos / 8) fun b => b ||| mask (pos % 8)

/-- `SetAll`: `Memset(m_Bits, 1, sizeof(m_Bits))` stores the value `1` in every byte. -/
def setAll : Bitmap TSize := ⟨Vector.replicate TSize 1#8⟩

/-- `Test`. -/
def test (bm : Bitmap TSize) (pos : ℕ) : Bool :=
  if pos > TSize then false else (bm.byteAt (pos / 8) &&& mask (pos % 8)) != 0#8

/-- `Reset`. -/
def reset (bm : Bitmap TSize) (pos : ℕ) : Bitmap TSize :=
  if pos > TSize then bm else bm.updateByte (pos / 8) fun b => b &&& ~~~mask (pos % 8)

/-- `ResetAll`. -/
def resetAll : Bitmap TSize := ⟨Vector.replicate TSize 0#8⟩

/-- `Toggle`. -/
def toggle (bm : Bitmap TSize) (pos : ℕ) : Bitmap TSize :=
  if pos > TSize then bm else bm.updateByte (pos / 8) fun b => b ^^^ mask (pos % 8)

/-- The loop of `FindUnsetBits`: how many iterations are left, `i`, `firstBit` (an
`int32_t`) and `currentBit`. -/
def findLoop (bm : Bitmap TSize) (count : SizeT) : ℕ → ℕ → ℤ → ℕ → ℤ
  | 0, _, firstBit, _ => firstBit
  | left + 1, i, firstBit, currentBit =>
    if bm.test i then bm.findLoop count left (i + 1) (-1) 0
    else
      let firstBit := if firstBit = -1 then (BitVec.ofNat 32 i).toInt else firstBit
      let currentBit := currentBit + 1
      if currentBit = count.toNat then firstBit
      else bm.findLoop count left (i + 1) firstBit currentBit

/-- `FindUnsetBits`. -/
def findUnsetBits (bm : Bitmap TSize) (count : SizeT) : ℤ :=
  let firstBit := bm.findLoop count TSize 0 (-1) 0
  if firstBit = -1 then -1 else firstBit

/-- What `SetBits` and `ClearBits` have in common: the test of `start + count` and
the loop over `i` from `start` to below `start + count`, both on the wrapped sum. -/
def forBits (f : Bitmap TSize → ℕ → Bitmap TSize) (bm : Bitmap TSize) (start count : SizeT) : Bitmap TSize :=
  if (start + count).toNat > TSize then bm
  else (List.range' start.toNat ((start + count).toNat - start.toNat)).foldl f bm

/-- `SetBits`. -/
def setBits (bm : Bitmap TSize) (start count : SizeT) : Bitmap TSize := forBits set bm start count

/-- `ClearBits`. -/
def clearBits (bm : Bitmap TSize) (start count : SizeT) : Bitmap TSize := forBits reset bm start count

/-! ### Bits -/

/-- Bit `i % 8` of byte `i / 8`. -/
def bit (bm : Bitmap TSize) (i : ℕ) : Bool := (bm.byteAt (i / 8)).getLsbD (i % 8)

theorem byteAt_updateByte {bm : Bitmap TSize} {j k : ℕ} {f : BitVec 8 → BitVec 8} (hj : j < TSize) :
    (bm.updateByte j f).byteAt k = if k = j then f (bm.byteAt j) else bm.byteAt k := by
  simp only [byteAt, updateByte, Vector.getElem?_setIfInBounds]
  by_cases hk : j = k
  · subst hk; simp [hj]
  · simp [hk, Ne.symm hk]

/-- Bitmaps with the same bits are the same array. -/
theorem ext_bit {bm bm' : Bitmap TSize} (h : ∀ i, bm.bit i = bm'.bit i) : bm = bm' := by
  obtain ⟨v⟩ := bm
  obtain ⟨v'⟩ := bm'
  congr 1
  refine Vector.ext fun k hk => BitVec.eq_of_getLsbD_eq fun j hj => ?_
  have := h (8 * k + j)
  simp only [bit, byteAt, show (8 * k + j) / 8 = k by omega, show (8 * k + j) % 8 = j by omega] at this
  simpa [hk] using this

theorem getLsbD_mask {j k : ℕ} (hj : j < 8) : (mask k).getLsbD j = decide (j = k) := by
  simp only [mask, BitVec.getLsbD_shiftLeft, BitVec.getLsbD_one]
  grind

/-- `i / 8` and `i % 8` name bit `i`. -/
theorem div_mod_eq_iff {i j : ℕ} : (i / 8 = j / 8 ∧ i % 8 = j % 8) ↔ i = j := by omega

theorem test_eq_bit {bm : Bitmap TSize} {pos : ℕ} (h : pos ≤ TSize) : bm.test pos = bm.bit pos := by
  have hlt : pos % 8 < 8 := Nat.mod_lt _ (by decide)
  rw [test, if_neg (Nat.not_lt.mpr h), bit, Bool.eq_iff_iff, bne_iff_ne, ne_eq]
  constructor
  · intro hne
    by_contra hbit
    refine hne (BitVec.eq_of_getLsbD_eq fun j hj => ?_)
    rw [BitVec.getLsbD_and, getLsbD_mask hj]
    by_cases hjk : j = pos % 8
    · simp [hjk, Bool.eq_false_iff.mpr hbit]
    · simp [hjk]
  · intro hbit h0
    have := congrArg (·.getLsbD (pos % 8)) h0
    simp [getLsbD_mask hlt, hbit] at this

theorem bit_updateByte {bm : Bitmap TSize} {pos i : ℕ} {f : BitVec 8 → BitVec 8} (h : pos / 8 < TSize) :
    (bm.updateByte (pos / 8) f).bit i =
      if i / 8 = pos / 8 then (f (bm.byteAt (pos / 8))).getLsbD (i % 8) else bm.bit i := by
  simp only [bit, byteAt_updateByte h]
  split <;> rfl

/-- What a combination with the mask does to a bit: the one bit is changed as `g` says, also the one past the last
position. -/
theorem bit_updateByte_mask {bm : Bitmap TSize} {pos : ℕ} (hT : 0 < TSize) (h : pos ≤ TSize) {f : BitVec 8 → BitVec 8}
    {g : Bool → Bool → Bool} (hf : ∀ b, ∀ j < 8, (f b).getLsbD j = g (decide (j = pos % 8)) (b.getLsbD j))
    (hg : ∀ b, g false b = b) (i : ℕ) :
    (bm.updateByte (pos / 8) f).bit i = g (decide (i = pos)) (bm.bit i) := by
  rw [bit_updateByte (by omega)]
  by_cases hd : i / 8 = pos / 8
  · have hsame : (i % 8 = pos % 8) = (i = pos) := propext ⟨fun hm => div_mod_eq_iff.mp ⟨hd, hm⟩, fun e => e ▸ rfl⟩
    rw [if_pos hd, ← hd, hf _ _ (Nat.mod_lt _ (by decide))]
    simp only [hsame, bit]
  · have hne : i ≠ pos := fun e => hd (e ▸ rfl)
    simp [hd, hne, hg]

/-- `Set` sets the one bit, also the one past the last position. -/
theorem bit_set_of_le {bm : Bitmap TSize} {pos : ℕ} (hT : 0 < TSize) (h : pos ≤ TSize) (i : ℕ) :
    (bm.set pos).bit i = (decide (i = pos) || bm.bit i) := by
  rw [set, if_neg (Nat.not_lt.mpr h)]
  refine bit_updateByte_mask hT h (g := fun m b => m || b) (fun b j hj => ?_) Bool.false_or i
  rw [BitVec.getLsbD_or, getLsbD_mask hj, Bool.or_comm]

/-- `Set` sets the one bit. -/
theorem bit_set {bm : Bitmap TSize} {pos : ℕ} (h : pos < TSize) (i : ℕ) :
    (bm.set pos).bit i = (decide (i = pos) || bm.bit i) := bit_set_of_le (by omega) (Nat.le_of_lt h) i

/-- `Reset` clears the one bit, also the one past the last position. -/
theorem bit_reset_of_le {bm : Bitmap TSize} {pos : ℕ} (hT : 0 < TSize) (h : pos ≤ TSize) (i : ℕ) :
    (bm.reset pos).bit i = (!decide (i = pos) && bm.bit i) := by
  rw [reset, if_neg (Nat.not_lt.mpr h)]
  refine bit_updateByte_mask hT h (g := fun m b => !m && b) (fun b j hj => ?_) Bool.true_and i
  rw [BitVec.getLsbD_and, BitVec.getLsbD_not, getLsbD_mask hj, decide_eq_true hj, Bool.true_and, Bool.and_comm]

/-- `Reset` clears the one bit. -/
theorem bit_reset {bm : Bitmap TSize} {pos : ℕ} (h : pos < TSize) (i : ℕ) :
    (bm.reset pos).bit i = (!decide (i = pos) && bm.bit i) := bit_reset_of_le (by omega) (Nat.le_of_lt h) i

/-- `Toggle` flips the one bit, also the one past the last position. -/
theorem bit_toggle_of_le {bm : Bitmap TSize} {pos : ℕ} (hT : 0 < TSize) (h : pos ≤ TSize) (i : ℕ) :
    (bm.toggle pos).bit i = (decide (i = pos) ^^ bm.bit i) := by
  rw [toggle, if_neg (Nat.not_lt.mpr h)]
  refine bit_updateByte_mask hT h (g := fun m b => m ^^ b) (fun b j hj => ?_) Bool.false_xor i
  rw [BitVec.getLsbD_xor, getLsbD_mask hj, Bool.xor_comm]

/-- `SetAll` sets every eighth bit. -/
theorem bit_setAll (i : ℕ) : (setAll : Bitmap TSize).bit i = (decide (i / 8 < TSize) && decide (i % 8 = 0)) := by
  by_cases h : i / 8 < TSize
  · simp [bit, byteAt, setAll, h]
  · simp [bit, byteAt, setAll, h]

theorem bit_resetAll (i : ℕ) : (resetAll : Bitmap TSize).bit i = false := by
  by_cases h : i / 8 < TSize <;> simp [bit, byteAt, resetAll, h]

/-! ### Ranges of bits -/

theorem bit_foldl_set {bm : Bitmap TSize} {n : ℕ} :
    ∀ {start : ℕ}, start + n ≤ TSize → ∀ i,
      ((List.range' start n).foldl set bm).bit i = (decide (start ≤ i ∧ i < start + n) || bm.bit i) := by
  induction n generalizing bm with
  | zero =>
    intro start _ i
    rw [List.range'_zero, List.foldl_nil, decide_eq_false (by omega), Bool.false_or]
  | succ n ih =>
    intro start h i
    rw [List.range'_succ, List.foldl_cons, ih (by omega), bit_set (by omega)]
    grind

theorem bit_foldl_reset {bm : Bitmap TSize} {n : ℕ} :
    ∀ {start : ℕ}, start + n ≤ TSize → ∀ i,
      ((List.range' start n).foldl reset bm).bit i = (!decide (start ≤ i ∧ i < start + n) && bm.bit i) := by
  induction n generalizing bm with
  | zero =>
    intro start _ i
    rw [List.range'_zero, List.foldl_nil, decide_eq_false (by omega), Bool.not_false, Bool.true_and]
  | succ n ih =>
    intro start h i
    rw [List.range'_succ, List.foldl_cons, ih (by omega), bit_reset (by omega)]
    grind

/-- A range that ends within the bitmap does not wrap: the loop runs over all of it. -/
theorem forBits_of_le {f : Bitmap TSize → ℕ → Bitmap TSize} {bm : Bitmap TSize} {start count : SizeT}
    (hT : TSize < 2 ^ 32) (h : start.toNat + count.toNat ≤ TSize) :
    forBits f bm start count = (List.range' start.toNat count.toNat).foldl f bm := by
  have hsum : (start + count).toNat = start.toNat + count.toNat := by
    rw [BitVec.toNat_add]; omega
  rw [forBits, if_neg (by omega), hsum, Nat.add_sub_cancel_left]

/-- A range that does not end within the bitmap is ignored: its wrapped end is past
the bitmap's, or before its own start. -/
theorem forBits_of_lt {f : Bitmap TSize → ℕ → Bitmap TSize} {bm : Bitmap TSize} {start count : SizeT}
    (h : TSize < start.toNat + count.toNat) : forBits f bm start count = bm := by
  by_cases hgt : (start + count).toNat > TSize
  · rw [forBits, if_pos hgt]
  · rw [forBits, if_neg hgt]
    have hwrap : (start + count).toNat - start.toNat = 0 := by
      rw [BitVec.toNat_add] at hgt ⊢
      omega
    rw [hwrap]; rfl

/-- The positions a range operation changes: those of the range when it ends within
the bitmap, and none otherwise. -/
def InRange (TSize : ℕ) (start count : SizeT) (i : ℕ) : Prop :=
  start.toNat + count.toNat ≤ TSize ∧ start.toNat ≤ i ∧ i < start.toNat + count.toNat

instance {start count : SizeT} {i : ℕ} : Decidable (InRange TSize start count i) :=
  inferInstanceAs (Decidable (_ ∧ _ ∧ _))

/-- `SetBits` sets the bits of the range, or changes nothing. -/
theorem bit_setBits {bm : Bitmap TSize} (hT : TSize < 2 ^ 32) (start count : SizeT) (i : ℕ) :
    (bm.setBits start count).bit i = (decide (InRange TSize start count i) || bm.bit i) := by
  by_cases h : start.toNat + count.toNat ≤ TSize
  · rw [setBits, forBits_of_le hT h, bit_foldl_set h]
    simp [InRange, h]
  · rw [setBits, forBits_of_lt (by omega)]
    simp [InRange, h]

/-- `ClearBits` clears the bits of the range, or changes nothing. -/
theorem bit_clearBits {bm : Bitmap TSize} (hT : TSize < 2 ^ 32) (start count : SizeT) (i : ℕ) :
    (bm.clearBits start count).bit i = (!decide (InRange TSize start count i) && bm.bit i) := by
  by_cases h : start.toNat + count.toNat ≤ TSize
  · rw [clearBits, forBits_of_le hT h, bit_foldl_reset h]
    simp [InRange, h]
  · rw [clearBits, forBits_of_lt (by omega)]
    simp [InRange, h]

/-- **All or nothing**: the range operations set or clear the bits of a range that ends within the bitmap, and no
others; any other range is ignored, also one whose end wraps to within the bitmap. -/
theorem setBits_clearBits_range (hT : TSize < 2 ^ 31) (bm : Bitmap TSize) (start count : SizeT) :
    (start.toNat + count.toNat ≤ TSize → ∀ i,
      (start.toNat ≤ i → i < start.toNat + count.toNat →
        (bm.setBits start count).bit i = true ∧ (bm.clearBits start count).bit i = false) ∧
      (i < start.toNat ∨ start.toNat + count.toNat ≤ i →
        (bm.setBits start count).bit i = bm.bit i ∧ (bm.clearBits start count).bit i = bm.bit i)) ∧
    (TSize < start.toNat + count.toNat → bm.setBits start count = bm ∧ bm.clearBits start count = bm) := by
  constructor
  · intro h i
    rw [bit_setBits (by omega), bit_clearBits (by omega)]
    constructor
    · intro hlo hhi
      have hin : InRange TSize start count i := ⟨h, hlo, hhi⟩
      simp [hin]
    · intro hout
      have hin : ¬ InRange TSize start count i := fun ⟨_, hlo, hhi⟩ => by omega
      simp [hin]
  · exact fun h => ⟨forBits_of_lt h, forBits_of_lt h⟩

/-- In a bitmap of nine bits a range of six is set, and one of almost `2 ^ 32` is ignored although it ends at `2`. -/
theorem setBits_clearBits_range_nine :
    ((∀ i, (0#32).toNat ≤ i → i < (0#32).toNat + (6#32).toNat →
        ((resetAll : Bitmap 9).setBits 0#32 6#32).bit i = true) ∧
      (resetAll : Bitmap 9).setBits 4#32 0xFFFFFFFE#32 = resetAll) ∧ 4#32 + 0xFFFFFFFE#32 = 2#32 :=
  ⟨⟨fun i hlo hhi => (((setBits_clearBits_range (by omega) resetAll 0#32 6#32).1 (by decide) i).1 hlo hhi).1,
    ((setBits_clearBits_range (by omega) resetAll 4#32 0xFFFFFFFE#32).2 (by decide)).1⟩, by decide⟩

/-- Bits of a range that were unset, are set and then cleared are as they were; so are all bits when the
range is ignored. -/
theorem clearBits_setBits {bm : Bitmap TSize} (hT : TSize < 2 ^ 32) {start count : SizeT}
    (h : ∀ i, start.toNat ≤ i → i < start.toNat + count.toNat → i < TSize → bm.bit i = false) :
    (bm.setBits start count).clearBits start count = bm := by
  refine ext_bit fun i => ?_
  rw [bit_clearBits hT, bit_setBits hT]
  by_cases hin : InRange TSize start count i
  · have hi : i < TSize := Nat.lt_of_lt_of_le hin.2.2 hin.1
    rw [decide_eq_true hin, h i hin.2.1 hin.2.2 hi]
    rfl
  · rw [decide_eq_false hin]
    rfl

/-! ### The search for unset bits -/

/-- The `n` bits from `p` on are positions of the bitmap and are unset. -/
def Unset (bm : Bitmap TSize) (p n : ℕ) : Prop := p + n ≤ TSize ∧ ∀ i, p ≤ i → i < p + n → bm.bit i = false

/-- A run cannot contain a set bit. -/
theorem not_unset_of_bit {bm : Bitmap TSize} {p n i : ℕ} (hi : bm.bit i = true) (hp : p ≤ i) (hn : i < p + n) :
    ¬ bm.Unset p n := fun h => by simp [h.2 i hp hn] at hi

/-- The ways `FindUnsetBits` ends. -/
inductive FindResult (bm : Bitmap TSize) (n : ℕ) : ℤ → Prop
  /-- The first run of `n` unset bits. -/
  | found {p : ℕ} : bm.Unset p n → (∀ q < p, ¬ bm.Unset q n) → FindResult bm n p
  /-- There is no run of `n` unset bits, and the last bit is unset: the start of the
  run, shorter than `n`, that reaches the end of the bitmap. -/
  | short {p : ℕ} : (∀ q, ¬ bm.Unset q n) → p < TSize → (∀ i, p ≤ i → i < TSize → bm.bit i = false) →
      (p = 0 ∨ bm.bit (p - 1) = true) → FindResult bm n p
  /-- There is no run of `n` unset bits, and the last bit is set. -/
  | none : (∀ q, ¬ bm.Unset q n) → (TSize = 0 ∨ bm.bit (TSize - 1) = true) → FindResult bm n (-1)

/-- What holds at the head of the loop, when the bits below `i` have been looked at:
no run of `n` has been passed over, and `firstBit` and `currentBit` describe the run
of unset bits that reaches `i`, if there is one. -/
structure FindInv (bm : Bitmap TSize) (n i : ℕ) (firstBit : ℤ) (currentBit : ℕ) : Prop where
  /-- No run of `n` unset bits ends at or before `i`. -/
  passed : ∀ q, q + n ≤ i → ¬ bm.Unset q n
  /-- The run that reaches `i`. -/
  run : (firstBit = -1 ∧ currentBit = 0 ∧ (i = 0 ∨ bm.bit (i - 1) = true)) ∨
    ∃ f : ℕ, firstBit = f ∧ f + currentBit = i ∧ 0 < currentBit ∧ currentBit < n ∧
      (∀ j, f ≤ j → j < i → bm.bit j = false) ∧ (f = 0 ∨ bm.bit (f - 1) = true)

/-- At a set bit the run starts anew. -/
theorem FindInv.skip {bm : Bitmap TSize} {n i cur : ℕ} {fb : ℤ} (hn : 0 < n) (h : FindInv bm n i fb cur)
    (hbit : bm.bit i = true) : FindInv bm n (i + 1) (-1) 0 := by
  refine ⟨fun q hq => ?_, .inl ⟨rfl, rfl, .inr hbit⟩⟩
  by_cases hqi : q + n ≤ i
  · exact h.passed q hqi
  · exact not_unset_of_bit hbit (by omega) (by omega)

/-- The run, extended by an unset bit, starts at some `f` and nothing before `f` belongs to it. -/
theorem FindInv.extend {bm : Bitmap TSize} {n i cur : ℕ} {fb : ℤ} (h : FindInv bm n i fb cur) (hi : i < 2 ^ 31)
    (hbit : bm.bit i = false) :
    ∃ f : ℕ, (if fb = -1 then (BitVec.ofNat 32 i).toInt else fb) = f ∧ f + (cur + 1) = i + 1 ∧
      (∀ j, f ≤ j → j < i + 1 → bm.bit j = false) ∧ (f = 0 ∨ bm.bit (f - 1) = true) := by
  rcases h.run with ⟨rfl, rfl, hprev⟩ | ⟨f, rfl, hf, -, -, hrun, hprev⟩
  · refine ⟨i, ?_, by omega, fun j hj hj' => ?_, hprev⟩
    · rw [if_pos rfl, BitVec.toInt_eq_toNat_of_lt] <;> rw [BitVec.toNat_ofNat] <;> omega
    · rw [show j = i by omega]; exact hbit
  · refine ⟨f, if_neg (by omega), by omega, fun j hj hj' => ?_, hprev⟩
    rcases Nat.lt_succ_iff_lt_or_eq.mp hj' with hlt | rfl
    · exact hrun j hj hlt
    · exact hbit

/-- A run of `n` that starts before `f` contains the set bit before `f`. -/
theorem not_unset_of_boundary {bm : Bitmap TSize} {n f q : ℕ} (hprev : f = 0 ∨ bm.bit (f - 1) = true) (hq : q < f)
    (hqn : f ≤ q + n) : ¬ bm.Unset q n := by
  rcases hprev with rfl | hset
  · omega
  · exact not_unset_of_bit hset (by omega) (by omega)

/-- From a state of the loop that satisfies the invariant, the search ends as it should. -/
theorem findLoop_spec {bm : Bitmap TSize} {count : SizeT} (hT : TSize < 2 ^ 31) (hn : 0 < count.toNat) :
    ∀ (left i : ℕ) (fb : ℤ) (cur : ℕ), left + i = TSize → FindInv bm count.toNat i fb cur →
      FindResult bm count.toNat (bm.findLoop count left i fb cur) := by
  intro left
  induction left with
  | zero =>
    intro i fb cur hi h
    have hno : ∀ q, ¬ bm.Unset q count.toNat := fun q hu => h.passed q (by have := hu.1; omega) hu
    rcases h.run with ⟨rfl, rfl, hprev⟩ | ⟨f, rfl, hf, hpos, -, hrun, hprev⟩
    · obtain rfl : i = TSize := by omega
      exact .none hno hprev
    · exact .short hno (by omega) (fun j hj hj' => hrun j hj (by omega)) hprev
  | succ left ih =>
    intro i fb cur hi h
    rw [findLoop, test_eq_bit (by omega)]
    by_cases hbit : bm.bit i = true
    · rw [if_pos hbit]
      exact ih (i + 1) (-1) 0 (by omega) (h.skip hn hbit)
    · rw [if_neg hbit]
      obtain ⟨f, hf, hsum, hrun, hprev⟩ := h.extend (by omega) (Bool.eq_false_iff.mpr hbit)
      simp only [hf]
      by_cases hdone : cur + 1 = count.toNat
      · rw [if_pos hdone]
        refine .found ⟨by omega, fun j hj hj' => hrun j hj (by omega)⟩ fun q hq => ?_
        by_cases hqi : q + count.toNat ≤ i
        · exact h.passed q hqi
        · exact not_unset_of_boundary hprev hq (by omega)
      · rw [if_neg hdone]
        have hlt : cur + 1 < count.toNat := by
          rcases h.run with ⟨-, rfl, -⟩ | ⟨g, -, -, -, hcur, -, -⟩ <;> omega
        refine ih (i + 1) f (cur + 1) (by omega) ⟨fun q hq => ?_, .inr ⟨f, rfl, hsum, by omega, hlt, hrun, hprev⟩⟩
        by_cases hqi : q + count.toNat ≤ i
        · exact h.passed q hqi
        · exact not_unset_of_boundary hprev (by omega) (by omega)

/-- **The search**: the first run of `count` unset bits if there is one; otherwise the
start of the shorter run at the end of the bitmap if its last bit is unset; else `-1`. -/
theorem findUnsetBits_spec {bm : Bitmap TSize} {count : SizeT} (hT : TSize < 2 ^ 31) (hn : 0 < count.toNat) :
    FindResult bm count.toNat (bm.findUnsetBits count) := by
  have hinv : FindInv bm count.toNat 0 (-1) 0 := ⟨fun q hq => by omega, .inl ⟨rfl, rfl, .inl rfl⟩⟩
  have h := findLoop_spec hT hn TSize 0 (-1) 0 (by omega) hinv
  rw [findUnsetBits]
  split
  · rename_i heq; rwa [heq] at h
  · exact h

/-- In an empty bitmap every run is unset. -/
theorem unset_resetAll {p n : ℕ} (h : p + n ≤ TSize) : (resetAll : Bitmap TSize).Unset p n :=
  ⟨h, fun i _ _ => bit_resetAll i⟩

/-- The search finds the first run. -/
theorem findUnsetBits_found {bm : Bitmap TSize} {count : SizeT} {p : ℕ} (hT : TSize < 2 ^ 31) (hn : 0 < count.toNat)
    (hp : bm.Unset p count.toNat) (hmin : ∀ q < p, ¬ bm.Unset q count.toNat) : bm.findUnsetBits count = p := by
  have hspec : FindResult bm count.toNat (bm.findUnsetBits count) := findUnsetBits_spec hT hn
  generalize bm.findUnsetBits count = r at hspec ⊢
  cases hspec with
  | @found q hq hqmin =>
    have hpq : p = q := by
      rcases Nat.lt_trichotomy p q with hlt | he | hlt
      · exact absurd hp (hqmin p hlt)
      · exact he
      · exact absurd hq (hmin q hlt)
    rw [hpq]
  | short hno => exact absurd hp (hno p)
  | none hno => exact absurd hp (hno p)

/-- The bits from `p` on are unset, `n` of them or as many as the bitmap has. -/
def UnsetFrom (bm : Bitmap TSize) (p n : ℕ) : Prop :=
  p < TSize ∧ ∀ i, p ≤ i → i < p + n → i < TSize → bm.bit i = false

/-- Within the bitmap this is a run. -/
theorem UnsetFrom.unset {bm : Bitmap TSize} {p n : ℕ} (h : bm.UnsetFrom p n) (hle : p + n ≤ TSize) : bm.Unset p n :=
  ⟨hle, fun i hi hi' => h.2 i hi hi' (Nat.lt_of_lt_of_le hi' hle)⟩

/-- Whether or not there is a run, the search finds the first position from which on the bits are unset. -/
theorem findUnsetBits_first {bm : Bitmap TSize} {count : SizeT} (hT : TSize < 2 ^ 31) (hn : 0 < count.toNat) :
    (bm.findUnsetBits count = -1 ∧ ∀ q, ¬ bm.UnsetFrom q count.toNat) ∨
      ∃ p : ℕ, bm.findUnsetBits count = p ∧ bm.UnsetFrom p count.toNat ∧ ∀ q < p, ¬ bm.UnsetFrom q count.toNat := by
  have hspec : FindResult bm count.toNat (bm.findUnsetBits count) := findUnsetBits_spec hT hn
  generalize bm.findUnsetBits count = r at hspec
  cases hspec with
  | @found p hp hmin =>
    have := hp.1
    refine .inr ⟨p, rfl, ⟨by omega, fun i hi hi' _ => hp.2 i hi hi'⟩, fun q hq hfrom => ?_⟩
    exact hmin q hq (hfrom.unset (by omega))
  | @short p hno hp hrun hprev =>
    refine .inr ⟨p, rfl, ⟨hp, fun i hi _ hi' => hrun i hi hi'⟩, fun q hq hfrom => ?_⟩
    -- a position before the last run would have to pass over the bit before that run
    rcases hprev with rfl | hset
    · omega
    · have hlong : TSize < q + count.toNat := Nat.lt_of_not_le fun hle => hno q (hfrom.unset hle)
      have := hfrom.2 (p - 1) (by omega) (by omega) (by omega)
      simp [hset] at this
  | none hno hlast =>
    refine .inl ⟨rfl, fun q hfrom => ?_⟩
    have hq := hfrom.1
    have hlong : TSize < q + count.toNat := Nat.lt_of_not_le fun hle => hno q (hfrom.unset hle)
    rcases hlast with h0 | hset
    · omega
    · have := hfrom.2 (TSize - 1) (by omega) (by omega) (by omega)
      simp [hset] at this

/-- The search for `n` unset bits ends properly: there is such a run, or the bitmap's
last bit is set, so that no shorter run is left over at its end. -/
def Searchable (bm : Bitmap TSize) (n : ℕ) : Prop := (∃ p, bm.Unset p n) ∨ bm.bit (TSize - 1) = true

/-- What the search for `n` unset bits is for: the least position of a run, or `-1` where there is none. -/
def FirstFit (bm : Bitmap TSize) (n : ℕ) (r : ℤ) : Prop :=
  (∃ p : ℕ, r = p ∧ bm.Unset p n ∧ ∀ q < p, ¬ bm.Unset q n) ∨ r = -1 ∧ ∀ q, ¬ bm.Unset q n

/-- **First fit**: the search returns the least position of a run, and `-1` where there is none, if and only if
there is a run or no shorter one is left over at the end of the bitmap. -/
theorem findUnsetBits_firstFit_iff {bm : Bitmap TSize} {count : SizeT} (hT : TSize < 2 ^ 31) (hn : 0 < count.toNat) :
    bm.FirstFit count.toNat (bm.findUnsetBits count) ↔ TSize = 0 ∨ bm.Searchable count.toNat := by
  have hspec : FindResult bm count.toNat (bm.findUnsetBits count) := findUnsetBits_spec hT hn
  generalize bm.findUnsetBits count = r at hspec
  cases hspec with
  | @found p hp hmin => exact ⟨fun _ => .inr (.inl ⟨p, hp⟩), fun _ => .inl ⟨p, rfl, hp, hmin⟩⟩
  | @short p hno hp hrun _ =>
    -- the start of the shorter run is returned, which is neither a run nor `-1`
    constructor
    · rintro (⟨q, -, hq, -⟩ | ⟨hneg, -⟩)
      · exact absurd hq (hno q)
      · omega
    · rintro (h0 | ⟨q, hq⟩ | hlast)
      · omega
      · exact absurd hq (hno q)
      · have hunset : bm.bit (TSize - 1) = false := hrun (TSize - 1) (by omega) (by omega)
        simp [hunset] at hlast
  | none hno hlast => exact ⟨fun _ => hlast.imp_right .inr, fun _ => .inr ⟨rfl, hno⟩⟩

/-- Of nine bits that are set but for the last three, two are found. -/
theorem findUnsetBits_firstFit_nine : ((resetAll : Bitmap 9).setBits 0#32 6#32).FirstFit 2
    (((resetAll : Bitmap 9).setBits 0#32 6#32).findUnsetBits 2#32) := by
  refine (findUnsetBits_firstFit_iff (by omega) (by decide)).mpr (.inr (.inl ⟨6, by decide, fun i hi _ => ?_⟩))
  rw [bit_setBits (by omega), bit_resetAll, Bool.or_false, decide_eq_false_iff_not, InRange]
  have : (0#32).toNat = 0 ∧ (6#32).toNat = 6 := ⟨rfl, rfl⟩
  omega

/-- Nine unset bits are not to be found among eight, but the search returns `0`. -/
theorem findUnsetBits_not_firstFit : (resetAll : Bitmap 8).findUnsetBits 9#32 = 0 ∧
    ¬ (resetAll : Bitmap 8).FirstFit 9 ((resetAll : Bitmap 8).findUnsetBits 9#32) := by
  have hresult : (resetAll : Bitmap 8).findUnsetBits 9#32 = 0 := by decide
  refine ⟨hresult, ?_⟩
  rw [hresult]
  rintro (⟨p, -, hp, -⟩ | ⟨hneg, -⟩)
  · have := hp.1
    omega
  · omega

end Bitmap

end EagleOS.ESTD
