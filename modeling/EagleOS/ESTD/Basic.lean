import EagleOS.ESTD.Bitmap
import EagleOS.Foundations.Memory

/-!
# ESTD: alignment, bit masks, `Memset` and `Memcpy`

The helpers of `Algorithm.h`, `Bitwise.h` and `CString.cpp` that the memory managers use, at the
one type they are used at: 32-bit words.

## What is proved

* `memset_apply`, `memsetw_apply` — `Memset` and `Memsetw` store in their range and nowhere else.
* `memcpy_apply`, `memcpy_moves_down` — `Memcpy` to a lower address moves the bytes, also where the ranges overlap.
* `load32_memset_zero` — a word in a range that was cleared is zero.
-/

namespace EagleOS.ESTD

open Foundations

/-- `IsAligned`. -/
def isAligned (data : BitVec 32) (alignment : SizeT) : Bool := data % alignment == 0#32

/-- `AlignDown`. -/
def alignDown (data : BitVec 32) (alignment : SizeT) : BitVec 32 :=
  if data % alignment ≠ 0#32 then data &&& ~~~(alignment - 1#32) else data

/-- What `AlignDown` returns for a page is aligned. -/
theorem alignDown_page (data : BitVec 32) : (alignDown data 4096#32).toNat % 4096 = 0 := by
  unfold alignDown
  split
  · have hmask : ∀ i < 12, (~~~(4096#32 - 1#32)).getLsbD i = false := by decide
    refine Nat.eq_of_testBit_eq fun i => ?_
    have htest := Nat.testBit_mod_two_pow (data &&& ~~~(4096#32 - 1#32)).toNat 12 i
    rw [BitVec.testBit_toNat, BitVec.getLsbD_and] at htest
    rw [Nat.zero_testBit]
    refine htest.trans ?_
    by_cases hi : i < 12
    · rw [hmask i hi, Bool.and_false, Bool.and_false]
    · simp [hi]
  · rename_i h
    have := congrArg BitVec.toNat (not_not.mp h)
    rwa [BitVec.toNat_umod] at this

/-- `BitmaskSet`. -/
def bitmaskSet (number mask : BitVec 32) : BitVec 32 := number ||| mask

/-- `BitmaskTestOne`. -/
def bitmaskTestOne (number mask : BitVec 32) : Bool := number &&& mask != 0#32

/-- `Memset`: `while (num--) *p1++ = ch`. -/
def memset (m : Memory) (dst : BitVec 32) (ch : BitVec 8) : ℕ → Memory
  | 0 => m
  | num + 1 => memset (m.store8 dst ch) (dst + 1#32) ch num

/-- `Memset` stores the byte in its range and nowhere else. -/
theorem memset_apply {dst : BitVec 32} {ch : BitVec 8} {num : ℕ} (hnum : num ≤ 2 ^ 32) (m : Memory) (x : BitVec 32) :
    (x ∈ Span dst num → memset m dst ch num x = ch) ∧ (x ∉ Span dst num → memset m dst ch num x = m x) := by
  induction num generalizing m dst with
  | zero => simp [memset]
  | succ num ih =>
    obtain ⟨hin, hout⟩ := @ih (dst + 1#32) (by omega) (m.store8 dst ch)
    rw [mem_span_succ hnum, memset]
    by_cases hx : x ∈ Span (dst + 1#32) num
    · exact ⟨fun _ => hin hx, fun h => absurd (.inr hx) h⟩
    · rw [hout hx]
      refine ⟨?_, fun h => Memory.store8_of_ne fun e => h (.inl e)⟩
      rintro (rfl | h)
      · exact Memory.store8_self ..
      · exact absurd h hx

/-- A word in a range that was cleared is zero. -/
theorem load32_memset_zero {dst a : BitVec 32} {num : ℕ} (hnum : num ≤ 2 ^ 32) (h : Span a 4 ⊆ Span dst num)
    (m : Memory) : (memset m dst 0#8 num).load32 a = 0#32 := by
  have hbyte : ∀ x ∈ Span a 4, memset m dst 0#8 num x = (fun _ => 0#8 : Memory) x :=
    fun x hx => (memset_apply hnum m x).1 (h hx)
  rw [Memory.load32_congr hbyte]
  simp [Memory.load32]

/-! ### `Memcpy` and `Memsetw` -/

/-- `Memcpy`: `while (num--) *p1++ = *p2++`. -/
def memcpy (m : Memory) (dst src : BitVec 32) : ℕ → Memory
  | 0 => m
  | num + 1 => memcpy (m.store8 dst (m src)) (dst + 1#32) (src + 1#32) num

/-- `Memsetw`: `while (num--) *p1++ = ch`. -/
def memsetw (m : Memory) (dst : BitVec 32) (ch : BitVec 16) : ℕ → Memory
  | 0 => m
  | num + 1 => memsetw (m.store16 dst ch) (dst + 2#32) ch num

/-- `Memcpy` towards lower addresses moves the bytes, also where source and destination overlap. -/
theorem memcpy_apply {k num : ℕ} (hnum : k + num ≤ 2 ^ 32) (m : Memory) (dst x : BitVec 32) :
    (x ∈ Span dst num → memcpy m dst (dst + BitVec.ofNat 32 k) num x = m (x + BitVec.ofNat 32 k)) ∧
      (x ∉ Span dst num → memcpy m dst (dst + BitVec.ofNat 32 k) num x = m x) := by
  induction num generalizing m dst with
  | zero => simp [memcpy]
  | succ num ih =>
    have hsrc : dst + BitVec.ofNat 32 k + 1#32 = dst + 1#32 + BitVec.ofNat 32 k := by
      rw [BitVec.add_assoc, BitVec.add_comm (BitVec.ofNat 32 k), ← BitVec.add_assoc]
    obtain ⟨hin, hout⟩ := ih (by omega) (m.store8 dst (m (dst + BitVec.ofNat 32 k))) (dst + 1#32)
    rw [mem_span_succ (by omega), memcpy, hsrc]
    by_cases hx : x ∈ Span (dst + 1#32) num
    · refine ⟨fun _ => ?_, fun h => absurd (.inr hx) h⟩
      -- what is read has not been written to
      have hne : x + BitVec.ofNat 32 k ≠ dst := by
        rintro rfl
        rw [mem_span, BitVec.toNat_sub] at hx
        simp only [BitVec.toNat_add, BitVec.toNat_ofNat] at hx
        omega
      rw [hin hx, Memory.store8_of_ne hne]
    · rw [hout hx]
      refine ⟨?_, fun h => Memory.store8_of_ne fun e => h (.inl e)⟩
      rintro (rfl | h)
      · exact Memory.store8_self ..
      · exact absurd h hx

/-- **`Memcpy`** to an address that is not above the source is a move: every byte of the destination becomes what the
byte of the source was before, also where the ranges overlap, and the bytes outside the destination stay. -/
theorem memcpy_moves_down (m : Memory) (dst src : BitVec 32) (num : ℕ) (hle : dst.toNat ≤ src.toNat)
    (hwrap : src.toNat + num ≤ 2 ^ 32) :
    (∀ i < num, memcpy m dst src num (dst + BitVec.ofNat 32 i) = m (src + BitVec.ofNat 32 i)) ∧
      ∀ x : BitVec 32, x.toNat < dst.toNat ∨ dst.toNat + num ≤ x.toNat → memcpy m dst src num x = m x := by
  obtain ⟨k, hk⟩ : ∃ k, src.toNat = dst.toNat + k := Nat.exists_eq_add_of_le hle
  have hsrc : src = dst + BitVec.ofNat 32 k := by
    have hlt := src.isLt
    refine BitVec.eq_of_toNat_eq ?_
    rw [BitVec.toNat_add, BitVec.toNat_ofNat]
    omega
  have happly := memcpy_apply (show k + num ≤ 2 ^ 32 by omega) m dst
  constructor
  · intro i hi
    have hmem : dst + BitVec.ofNat 32 i ∈ Span dst num := (mem_span_iff_exists (by omega)).mpr ⟨i, hi, rfl⟩
    rw [hsrc, (happly _).1 hmem, BitVec.add_assoc, BitVec.add_comm (BitVec.ofNat 32 i), ← BitVec.add_assoc]
  · intro x hx
    rw [hsrc]
    refine (happly x).2 fun hmem => ?_
    rw [mem_span_iff (by omega)] at hmem
    omega

/-- One line of the screen moved up: the 160 bytes that are read first are written to last. -/
theorem memcpy_moves_down_line :
    memcpy (fun x => x.setWidth 8) 0xB8000#32 0xB80A0#32 320 (0xB8000#32 + BitVec.ofNat 32 160) = 0x40#8 :=
  (memcpy_moves_down (fun x => x.setWidth 8) 0xB8000#32 0xB80A0#32 320 (by decide) (by decide)).1 160 (by decide)

/-- `Memsetw` stores the halves of the word in turn in its range, and nothing elsewhere. -/
theorem memsetw_apply {num : ℕ} (hnum : 2 * num ≤ 2 ^ 32) (m : Memory) (dst : BitVec 32) (ch : BitVec 16) (x : BitVec 32) :
    (x ∈ Span dst (2 * num) → memsetw m dst ch num x = ch.extractLsb' (8 * ((x - dst).toNat % 2)) 8) ∧
      (x ∉ Span dst (2 * num) → memsetw m dst ch num x = m x) := by
  induction num generalizing m dst with
  | zero => simp [memsetw]
  | succ num ih =>
    obtain ⟨hin, hout⟩ := ih (by omega) (m.store16 dst ch) (dst + 2#32)
    have hspan : x ∈ Span dst (2 * (num + 1)) ↔ x = dst ∨ x = dst + 1#32 ∨ x ∈ Span (dst + 2#32) (2 * num) := by
      rw [Nat.mul_succ, mem_span_succ (by omega), mem_span_succ (by omega), BitVec.add_assoc]
      rfl
    rw [hspan, memsetw]
    by_cases hx : x ∈ Span (dst + 2#32) (2 * num)
    · refine ⟨fun _ => ?_, fun h => absurd (.inr (.inr hx)) h⟩
      have hpar : (x - (dst + 2#32)).toNat % 2 = (x - dst).toNat % 2 := by
        simp only [BitVec.toNat_sub, BitVec.toNat_add, BitVec.toNat_ofNat]
        omega
      rw [hin hx, hpar]
    · rw [hout hx]
      have hone : (dst + 1#32 - dst).toNat = 1 := by rw [BitVec.add_comm, BitVec.add_sub_cancel]; rfl
      have hne : dst ≠ dst + 1#32 := by
        intro e
        rw [← e, BitVec.sub_self] at hone
        cases hone
      refine ⟨?_, fun h => ?_⟩
      · rintro (rfl | rfl | h)
        · rw [Memory.store16, Memory.store8_of_ne hne, Memory.store8_self, BitVec.sub_self]
          rfl
        · rw [Memory.store16, Memory.store8_self, hone]
        · exact absurd h hx
      · rw [not_or, not_or] at h
        rw [Memory.store16, Memory.store8_of_ne h.2.1, Memory.store8_of_ne h.1]

/-! ### Alignment -/

theorem isAligned_iff {data alignment : BitVec 32} : isAligned data alignment = true ↔
    data.toNat % alignment.toNat = 0 := by
  rw [isAligned, beq_iff_eq, ← BitVec.toNat_inj, BitVec.toNat_umod]
  rfl

end EagleOS.ESTD
