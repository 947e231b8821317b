import Mathlib.Data.BitVec
import Mathlib.Data.List.Basic
import Mathlib.Tactic.Common

/-!
# Fields of words

A mask selects a field of a word. A value is put into the field by clearing what was there and or-ing the value in. The
mask that is read with and the mask that is cleared need not be the same: bits that are read and not cleared pile up.

## What is proved

* `readField_putField_eq_iff` — when the value that is put is the one that is read back.
* `getLsbD_putFields` — the bits that pile up when several values are put, one after the other.
* `readField_putField_of_disjoint`, `readField_putFields_of_disjoint` — another field stays as it was.
-/

namespace EagleOS.Foundations

/-- The field of a word that a mask selects. -/
def readField {n : ℕ} (mask word : BitVec n) : BitVec n := word &&& mask

/-- A value is put into a word, where the bits of `cleared` are cleared first. -/
def putField {n : ℕ} (cleared value word : BitVec n) : BitVec n := word &&& ~~~cleared ||| value

/-- Several values are put, one after the other. -/
def putFields {n : ℕ} (cleared : BitVec n) (values : List (BitVec n)) (word : BitVec n) : BitVec n :=
  values.foldl (fun word value => putField cleared value word) word

section

variable {n i : ℕ} {mask cleared value word : BitVec n} {values : List (BitVec n)}

theorem getLsbD_putField (hi : i < n) : (putField cleared value word).getLsbD i =
    (word.getLsbD i && !cleared.getLsbD i || value.getLsbD i) := by
  simp [putField, hi]

/-- A value that is all in the field is read back when what is read and was not cleared is in the value too. -/
theorem readField_putField_eq_iff (hvalue : readField mask value = value) : readField mask (putField cleared value word) = value ↔
    ∀ i < n, mask.getLsbD i = true → cleared.getLsbD i = false → word.getLsbD i = true → value.getLsbD i = true := by
  have hbit (i : ℕ) : (value.getLsbD i && mask.getLsbD i) = value.getLsbD i := by
    rw [← BitVec.getLsbD_and]
    exact congrArg (BitVec.getLsbD · i) hvalue
  constructor
  · intro h i hi hmask hcleared hword
    have hread := congrArg (BitVec.getLsbD · i) h
    rw [readField, BitVec.getLsbD_and, getLsbD_putField hi, hmask, hcleared, hword] at hread
    exact hread.symm
  · intro h
    refine BitVec.eq_of_getLsbD_eq fun i hi => ?_
    rw [readField, BitVec.getLsbD_and, getLsbD_putField hi, Bool.and_or_distrib_right, hbit i]
    -- a bit that stays from the word is in the value
    refine Bool.or_eq_right_iff_imp.mpr fun hstays => ?_
    rw [Bool.and_eq_true, Bool.and_eq_true, Bool.not_eq_true'] at hstays
    exact h i hi hstays.2 hstays.1.2 hstays.1.1

/-- Where nothing is cleared, every value leaves its bits. -/
theorem getLsbD_putFields (hi : i < n) (hcleared : cleared.getLsbD i = false) :
    (putFields cleared values word).getLsbD i = true ↔ word.getLsbD i = true ∨ ∃ v ∈ values, v.getLsbD i = true := by
  induction values generalizing word with
  | nil => simp [putFields]
  | cons v values ih =>
    have hfirst : (putField cleared v word).getLsbD i = (word.getLsbD i || v.getLsbD i) := by
      rw [getLsbD_putField hi, hcleared, Bool.not_false, Bool.and_true]
    rw [putFields, List.foldl_cons, ← putFields, ih, hfirst, Bool.or_eq_true, or_assoc, List.exists_mem_cons_iff]

/-- Another field stays as it was. -/
theorem readField_putField_of_disjoint (hcleared : cleared &&& mask = 0#n) (hvalue : value &&& mask = 0#n) :
    readField mask (putField cleared value word) = readField mask word := by
  have hkept : ~~~cleared &&& mask = mask := by
    refine BitVec.eq_of_getLsbD_eq fun i hi => ?_
    have hbit := congrArg (BitVec.getLsbD · i) hcleared
    simp only [BitVec.getLsbD_and, BitVec.getLsbD_zero] at hbit
    rw [BitVec.getLsbD_and, BitVec.getLsbD_not, decide_eq_true hi, Bool.true_and]
    cases hmask : mask.getLsbD i
    · rw [Bool.and_false]
    · rw [hmask, Bool.and_true] at hbit
      rw [hbit]
      rfl
  rw [readField, putField, BitVec.and_or_distrib_right, BitVec.and_assoc, hkept, hvalue]
  exact BitVec.or_zero

/-- Another field stays as it was, whatever values are put. -/
theorem readField_putFields_of_disjoint (hcleared : cleared &&& mask = 0#n) (hvalues : ∀ v ∈ values, v &&& mask = 0#n) :
    readField mask (putFields cleared values word) = readField mask word :=
  List.foldlRecOn values (motive := fun w => readField mask w = readField mask word) _ rfl fun _ hw v hv =>
    (readField_putField_of_disjoint hcleared (hvalues v hv)).trans hw

end

end EagleOS.Foundations
