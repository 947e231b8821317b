import EagleOS.ESTD.StringContents
import EagleOS.ESTD.TypeConverter

/-!
# `StringUtil`

`ToString` gives what `IntToStr` returns, and not the buffer, to a constructor of `String`.

## The model

What `IntToStr` returns is an `int32_t`. Of the constructors of `String` with one argument, that of a size and a character,
which has a default, is the only one that takes it. The buffer of the stack is a block, which is deleted at the end.

## What is proved

* `run_toString` — the string has no characters, and no buffer.
* `toString_not_decimal` — so it is never the numeral.
-/

namespace EagleOS.ESTD.StringUtil

open Foundations Buffers TypeConverter Numerals

/-- `ToString`. -/
def toString (num : BitVec 32) : Action String := do
  let buf ← newArray 20#32
  let result ← String.filled (← intToStr num buf 20#32 10#32) 0#8
  deleteArray buf
  pure result

section

variable {w : Buffers} {num : BitVec 32}

/-- A string of no characters and without a buffer is made. -/
theorem run_toString (num : BitVec 32) (hdel : ∀ id ∈ w.deleted, id < w.blocks.length) :
    ∃ w', (toString num).run w = some (⟨.null, 0#32⟩, w') := by
  obtain ⟨bs, hbs, hnew⟩ := run_newArray w (show 20#32 ≠ 0#32 by decide)
  have hlen := length_numeral_ten num
  have htwenty : (20#32).toNat = 20 := rfl
  have hid : (w.grow bs).Has w.blocks.length ([] ++ bs ++ []) := by simpa using has_grow hdel
  have hnumeral := @run_intToStr _ _ _ _ _ _ num 20#32 10#32 (by decide) (by decide) hid rfl hbs (by simp; omega) (by omega)
  rw [put_grow, List.length_nil] at hnumeral
  generalize [] ++ (numeral num 10#32 ++ 0#8 :: bs.drop ((numeral num 10#32).length + 1)) ++ [] = cs at hnumeral
  refine ⟨{ w.grow cs with deleted := w.blocks.length :: w.deleted }, ?_⟩
  rw [toString, Action.run_bind, hnew, Option.bind_eq_bind, Option.bind_some, Action.run_bind, hnumeral, Option.bind_eq_bind,
    Option.bind_some]
  rfl

/-- `ToString` never makes a string with the numeral in it, nor with its length. -/
theorem toString_not_decimal (w : Buffers) (num : BitVec 32) (hdel : ∀ id ∈ w.deleted, id < w.blocks.length) :
    ∃ s w', (toString num).run w = some (s, w') ∧ ¬ w'.IsText s.data (numeral num 10#32) ∧
      s.size.toNat ≠ (numeral num 10#32).length := by
  obtain ⟨w', hrun⟩ := run_toString num hdel
  refine ⟨_, w', hrun, fun htext => htext.base_ne_null rfl, fun hsize => ?_⟩
  exact integer_ne_nil _ _ (List.eq_nil_of_length_eq_zero hsize.symm)

theorem toString_not_decimal_seven : ∃ s w', (toString 7#32).run noBlocks = some (s, w') ∧
    ¬ w'.IsText s.data (numeral 7#32 10#32) ∧ s.size.toNat ≠ (numeral 7#32 10#32).length :=
  toString_not_decimal noBlocks 7#32 fun _ h => absurd h List.not_mem_nil

/-- Seven and eight are both made into a string of no characters. -/
theorem toString_empty : ∃ w' w'', (toString 7#32).run noBlocks = some (⟨.null, 0#32⟩, w') ∧
    (toString 8#32).run noBlocks = some (⟨.null, 0#32⟩, w'') ∧ numeral 7#32 10#32 = [0x37#8] := by
  obtain ⟨w', hrun⟩ := @run_toString noBlocks 7#32 fun _ h => absurd h List.not_mem_nil
  obtain ⟨w'', hrun'⟩ := @run_toString noBlocks 8#32 fun _ h => absurd h List.not_mem_nil
  exact ⟨w', w'', hrun, hrun', by decide⟩

end

end EagleOS.ESTD.StringUtil
