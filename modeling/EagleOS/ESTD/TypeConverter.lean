import EagleOS.ESTD.CString
import EagleOS.Foundations.Numerals

/-!
# `TypeConverter`

`IntToStr` writes the digits of a number into a buffer, the least significant one first, then a minus sign, and turns
the text around with `Strrev`.

## The model

`num % base` and `num / base` are unsigned, since `base` is; so is the comparison of `i` with `len`. The value that is
returned is the bits of an `int32_t`.

## What is proved

* `run_strrev` — the text is turned around.
* `run_digitLoop` — the loop stores as many digits as there is room for.
* `intToStr_numeral` — in a buffer that is large enough, there is the numeral.
* `intToStr_respects_iff` — which buffers are large enough.
-/

namespace EagleOS.ESTD

open Foundations Buffers Numerals

namespace CString

/-- The loop of `Strrev`. -/
def strrevLoop (str : Pointer) (num : ℕ) : ℕ → ℕ → Action Unit
  | 0, _ => pure ()
  | left + 1, i => do
    let tmp ← load (str + i)
    store (str + i) (← load (str + (num - 1 - i)))
    store (str + (num - 1 - i)) tmp
    strrevLoop str num left (i + 1)

/-- `Strrev`. -/
def strrev (str : Pointer) (num : ℕ) : Action Unit := strrevLoop str num (num / 2) 0

end CString

namespace TypeConverter

/-- `(rem > 9) ? (rem - 10) + 'A' : rem + '0'`. -/
def digitOf (rem : BitVec 32) : BitVec 8 :=
  if (9#32).slt rem then (rem - 10#32 + 0x41#32).setWidth 8 else (rem + 0x30#32).setWidth 8

/-- The loop of `IntToStr`: it returns `i`. -/
def digitLoop (buf : Pointer) (base : BitVec 32) : ℕ → ℕ → BitVec 32 → Action ℕ
  | 0, i, _ => pure i
  | left + 1, i, num =>
    if num ≠ 0#32 then do
      store (buf + i) (digitOf (num % base))
      digitLoop buf base left (i + 1) (num / base)
    else pure i

/-- `if (neg) buf[i++] = '-'`: it returns `i`. -/
def putSign (buf : Pointer) (neg : Bool) (i : ℕ) : Action ℕ :=
  if neg then do
    store (buf + i) 0x2D#8
    pure (i + 1)
  else pure i

/-- `IntToStr`. -/
def intToStr (num : BitVec 32) (buf : Pointer) (len base : BitVec 32) : Action (BitVec 32) := do
  if len = 0#32 then return -1#32
  if num = 0#32 then
    store (buf + 0) 0x30#8
    store (buf + 1) 0#8
    return 0#32
  let neg : Bool := num.slt 0#32 && base == 10#32
  let num := if neg then -num else num
  let i ← digitLoop buf base len.toNat 0 num
  let i ← putSign buf neg i
  store (buf + i) 0#8
  CString.strrev buf i
  return 0#32

/-- The number that is written: `num` as it is for base ten, and its bits as an unsigned number for the others. -/
def valueOf (num base : BitVec 32) : ℤ := if base = 10#32 then num.toInt else num.toNat

/-- Its numeral. -/
def numeral (num base : BitVec 32) : List (BitVec 8) := integer base.toNat (valueOf num base)

/-! ### `Strrev` -/

section

variable {w : Buffers} {p : Pointer} {id : ℕ} {pre post old xs ys : List (BitVec 8)} {x y : BitVec 8}

/-- Two bytes of a block are exchanged. -/
theorem run_swap {α : Type} {k l : ℕ} {next : Action α} (hid : w.Has id (pre ++ x :: xs ++ y :: post))
    (hbase : p.base = .block id) (hk : p.offset + k = pre.length) (hl : p.offset + l = (pre ++ x :: xs).length)
    (hroom : (pre ++ x :: xs).length < 2 ^ 32) :
    ((do let tmp ← load (p + k)
         store (p + k) (← load (p + l))
         store (p + l) tmp
         next : Action α)).run w = next.run (w.put id (pre ++ y :: xs ++ x :: post)) := by
  have hlen : (pre ++ y :: xs).length = (pre ++ x :: xs).length := by simp
  have hfirst : w.Has id (pre ++ x :: (xs ++ y :: post)) := by simpa using hid
  have hload := hfirst.run_load (p := p + k) (by simp at hroom; omega) hbase (by simpa using hk)
  have hload' := hid.run_load (p := p + l) hroom hbase (by simpa using hl)
  have hstore := run_store hfirst (p := p + k) (by simp at hroom; omega) hbase (by simpa using hk) y
  have hsecond : (w.put id (pre ++ y :: (xs ++ y :: post))).Has id (pre ++ y :: xs ++ y :: post) := by
    simpa using hid.put (pre ++ y :: (xs ++ y :: post))
  have hstore' := run_store hsecond (p := p + l) (by omega) hbase (by rw [hlen]; simpa using hl) x
  rw [put_put] at hstore'
  simp only [Action.run_bind, hload, hload', hstore, hstore', Option.bind_eq_bind, Option.bind_some]

/-- A text of two characters or more has a first one and a last one. -/
theorem exists_ends (h : 2 ≤ xs.length) : ∃ x ys y, xs = x :: (ys ++ [y]) := by
  obtain ⟨x, zs, rfl⟩ := List.exists_cons_of_length_pos (show 0 < xs.length by omega)
  have hne : zs ≠ [] := by
    rintro rfl
    simp at h
  exact ⟨x, zs.dropLast, zs.getLast hne, by rw [List.dropLast_append_getLast hne]⟩

/-- The loop of `Strrev` turns what is left of a text around. -/
theorem run_strrevLoop {left i num : ℕ} (hid : w.Has id (pre ++ xs ++ post)) (hbase : p.base = .block id)
    (hi : p.offset + i = pre.length) (hnum : num = i + xs.length + i) (hleft : left = xs.length / 2)
    (hroom : pre.length + xs.length ≤ 2 ^ 32) :
    (CString.strrevLoop p num left i).run w = some ((), w.put id (pre ++ xs.reverse ++ post)) := by
  induction left generalizing w pre xs post i with
  | zero =>
    have hrev : xs.reverse = xs := by
      cases xs with
      | nil => rfl
      | cons x xs =>
        obtain rfl : xs = [] := List.eq_nil_of_length_eq_zero (by rw [List.length_cons] at hleft; omega)
        rfl
    rw [hrev, hid.put_self]
    rfl
  | succ left ih =>
    obtain ⟨x, ys, y, rfl⟩ := exists_ends (show 2 ≤ xs.length by omega)
    simp only [List.length_cons, List.length_append, List.length_nil] at hnum hleft hroom
    have hid' : w.Has id (pre ++ x :: ys ++ y :: post) := by simpa using hid
    have hswapped : (w.put id (pre ++ y :: ys ++ x :: post)).Has id ((pre ++ [y]) ++ ys ++ x :: post) := by
      simpa using hid'.put (pre ++ y :: ys ++ x :: post)
    have hlast : p.offset + (num - 1 - i) = (pre ++ x :: ys).length := by
      simp only [List.length_append, List.length_cons]
      omega
    have hrun := @ih _ (pre ++ [y]) (x :: post) ys (i + 1) hswapped (by simpa using by omega) (by omega) (by omega)
      (by simpa using by omega)
    rw [put_put] at hrun
    rw [CString.strrevLoop, run_swap hid' hbase hi hlast (by simp; omega), hrun]
    simp

/-- `Strrev` turns a text around. -/
theorem run_strrev (hid : w.Has id (pre ++ xs ++ post)) (hbase : p.base = .block id) (hoffset : p.offset = pre.length)
    (hroom : pre.length + xs.length ≤ 2 ^ 32) :
    (CString.strrev p xs.length).run w = some ((), w.put id (pre ++ xs.reverse ++ post)) :=
  run_strrevLoop hid hbase hoffset (by omega) rfl hroom

/-! ### The digits -/

/-- The character that is stored for a digit. -/
theorem digitOf_eq {rem : BitVec 32} (h : rem.toNat < 36) : digitOf rem = digitChar rem.toNat := by
  have hint : rem.toInt = rem.toNat := BitVec.toInt_eq_toNat_of_lt (by omega)
  have hslt : (9#32).slt rem = true ↔ ¬ rem.toNat ≤ 9 := by
    rw [BitVec.slt, decide_eq_true_iff, hint, show (9#32).toInt = 9 from rfl]
    omega
  refine BitVec.eq_of_toNat_eq ?_
  rw [toNat_digitChar h, digitOf]
  by_cases hle : rem.toNat ≤ 9
  · rw [if_neg (by rw [hslt]; exact not_not.mpr hle), if_pos hle, BitVec.toNat_setWidth, BitVec.toNat_add,
      show (0x30#32).toNat = 0x30 from rfl]
    omega
  · rw [if_pos (hslt.mpr hle), if_neg hle, BitVec.toNat_setWidth, BitVec.toNat_add, BitVec.toNat_sub,
      show (0x41#32).toNat = 0x41 from rfl, show (10#32).toNat = 10 from rfl]
    omega

/-- The digit loop stores digits, as many as there are or as it is let to. -/
theorem run_digitLoop {left i : ℕ} {num base : BitVec 32} (hbase : 2 ≤ base.toNat) (hbase' : base.toNat ≤ 36)
    (hid : w.Has id (pre ++ old ++ post)) (hp : p.base = .block id) (hi : p.offset + i = pre.length)
    (hold : ((digits base.toNat num.toNat).take left).length ≤ old.length) (hroom : pre.length + old.length ≤ 2 ^ 32) :
    (digitLoop p base left i num).run w = some (i + ((digits base.toNat num.toNat).take left).length,
      w.put id (pre ++ ((digits base.toNat num.toNat).take left ++
        old.drop ((digits base.toNat num.toNat).take left).length) ++ post)) := by
  induction left generalizing w pre old i num with
  | zero =>
    rw [List.take_zero, List.length_nil, List.nil_append, List.drop_zero, hid.put_self]
    rfl
  | succ left ih =>
    by_cases hnum : num = 0#32
    · rw [digitLoop, if_neg (not_not.mpr hnum), hnum, show (0#32).toNat = 0 from rfl, digits_zero, List.take_nil,
        List.length_nil, List.nil_append, List.drop_zero, hid.put_self]
      rfl
    · have hne : num.toNat ≠ 0 := fun h => hnum (BitVec.eq_of_toNat_eq h)
      have hmod : num.toNat % base.toNat < 36 := Nat.lt_of_lt_of_le (Nat.mod_lt _ (by omega)) hbase'
      have hdigit : digitOf (num % base) = digitChar (num.toNat % base.toNat) := by
        rw [digitOf_eq (by rw [BitVec.toNat_umod]; exact hmod), BitVec.toNat_umod]
      rw [digits_of_ne_zero hbase hne, List.take_succ_cons, List.length_cons] at hold ⊢
      obtain ⟨o, old, rfl⟩ : ∃ o old', old = o :: old' := List.exists_cons_of_length_pos (by omega)
      rw [List.length_cons] at hold hroom
      obtain ⟨hstore, hnext⟩ := run_store_next hid (p := p + i) (by omega) hp (by simpa using hi)
        (digitChar (num.toNat % base.toNat))
      have hdiv : (num / base).toNat = num.toNat / base.toNat := BitVec.toNat_udiv
      have hrun := @ih _ _ old (i + 1) (num / base) hnext (by simpa using by omega) (by rw [hdiv]; omega)
        (by simpa using by omega)
      rw [put_put, hdiv] at hrun
      rw [digitLoop, if_pos hnum, hdigit, Action.run_bind, hstore, Option.bind_eq_bind, Option.bind_some, hrun,
        List.drop_succ_cons]
      simp [Nat.add_assoc, Nat.add_comm 1]

/-! ### The numeral -/

/-- The minus sign, if there is one. -/
def sign (neg : Bool) : List (BitVec 8) := if neg then [0x2D#8] else []

/-- Whether `num` is negated. -/
def negates (num base : BitVec 32) : Bool := num.slt 0#32 && base == 10#32

/-- The number whose digits are written. -/
def magnitude (num base : BitVec 32) : BitVec 32 := if negates num base then -num else num

theorem negates_iff {num base : BitVec 32} : negates num base = true ↔ num.toInt < 0 ∧ base = 10#32 := by
  rw [negates, Bool.and_eq_true, beq_iff_eq, BitVec.slt, decide_eq_true_iff]
  rfl

/-- The digits that are written are those of the number. -/
theorem natAbs_valueOf (num base : BitVec 32) : (valueOf num base).natAbs = (magnitude num base).toNat := by
  have hint := BitVec.toInt_eq_toNat_cond num
  have hlt := num.isLt
  by_cases hneg : negates num base
  · obtain ⟨hnum, hbase⟩ := negates_iff.mp hneg
    rw [valueOf, if_pos hbase, magnitude, if_pos hneg, BitVec.toNat_neg]
    omega
  · rw [magnitude, if_neg hneg, valueOf]
    split
    · next hbase =>
      have hnum : ¬ num.toInt < 0 := fun h => hneg (negates_iff.mpr ⟨h, hbase⟩)
      omega
    · rfl

/-- The number is negative if and only if `num` is negated. -/
theorem valueOf_neg_iff {num base : BitVec 32} : valueOf num base < 0 ↔ negates num base = true := by
  rw [negates_iff, valueOf]
  split
  · next hbase => simp [hbase]
  · next hbase => simp [hbase]

/-- The digits and the sign are the numeral, from right to left. -/
theorem numeral_eq_reverse {num base : BitVec 32} (hnum : num ≠ 0#32) :
    numeral num base = (digits base.toNat (magnitude num base).toNat ++ sign (negates num base)).reverse := by
  have hne : (magnitude num base).toNat ≠ 0 := by
    rw [magnitude]
    split <;> bv_omega
  rw [numeral, integer, natAbs_valueOf, natural, if_neg hne, List.reverse_append, sign]
  by_cases hneg : negates num base
  · rw [if_pos (valueOf_neg_iff.mpr hneg), if_pos hneg]
    rfl
  · rw [if_neg fun h => hneg (valueOf_neg_iff.mp h), if_neg hneg]
    rfl

theorem numeral_zero (base : BitVec 32) : numeral 0#32 base = [0x30#8] := by
  have hzero : valueOf 0#32 base = 0 := by
    rw [valueOf]
    split <;> rfl
  rw [numeral, hzero]
  rfl

/-- A number below a power of the base has at most as many digits as the exponent, and a sign. -/
theorem length_numeral_le {num base : BitVec 32} {k : ℕ} (hbase : 2 ≤ base.toNat) (hk : 0 < k)
    (h : (valueOf num base).natAbs < base.toNat ^ k) : (numeral num base).length ≤ (sign (negates num base)).length + k := by
  have hlen := length_natural_le hbase hk h
  rw [numeral, integer, sign]
  by_cases hneg : negates num base
  · rw [if_pos (valueOf_neg_iff.mpr hneg), if_pos hneg, List.length_cons, List.length_singleton]
    omega
  · rw [if_neg fun h => hneg (valueOf_neg_iff.mp h), if_neg hneg, List.length_nil, Nat.zero_add]
    exact hlen

theorem length_sign_le (neg : Bool) : (sign neg).length ≤ 1 := by cases neg <;> decide

/-- In base ten, a number has at most eleven characters. -/
theorem length_numeral_ten (num : BitVec 32) : (numeral num 10#32).length ≤ 11 := by
  have habs := natAbs_valueOf num 10#32
  have hlt := (magnitude num 10#32).isLt
  have hlen := @length_numeral_le num 10#32 10 (by decide) (by decide) (by rw [habs]; exact Nat.lt_trans hlt (by decide))
  have hsign := length_sign_le (negates num 10#32)
  omega

/-- In base sixteen, it has at most eight. -/
theorem length_numeral_sixteen (num : BitVec 32) : (numeral num 16#32).length ≤ 8 := by
  have habs := natAbs_valueOf num 16#32
  have hlt := (magnitude num 16#32).isLt
  have hlen := @length_numeral_le num 16#32 8 (by decide) (by decide) (by rw [habs]; exact hlt)
  have hneg : negates num 16#32 = false := by
    rw [Bool.eq_false_iff]
    intro h
    exact absurd (negates_iff.mp h).2 (by decide)
  rw [hneg] at hlen
  exact hlen

/-- `IntToStr` of a number other than zero. -/
theorem intToStr_of_ne {num len base : BitVec 32} (hlen : len ≠ 0#32) (hnum : num ≠ 0#32) :
    intToStr num p len base = do
      let i ← digitLoop p base len.toNat 0 (magnitude num base)
      let i ← putSign p (negates num base) i
      store (p + i) 0#8
      CString.strrev p i
      return 0#32 := by
  rw [intToStr, if_neg hlen, if_neg hnum]
  rfl

/-- The sign is stored where the buffer has room for it. -/
theorem run_putSign {neg : Bool} {i : ℕ} (hid : w.Has id (pre ++ old ++ post)) (hp : p.base = .block id)
    (hi : p.offset + i = pre.length) (hold : (sign neg).length ≤ old.length) (hroom : pre.length + old.length ≤ 2 ^ 32) :
    (putSign p neg i).run w =
      some (i + (sign neg).length, w.put id (pre ++ (sign neg ++ old.drop (sign neg).length) ++ post)) := by
  cases neg with
  | false =>
    rw [putSign, if_neg Bool.false_ne_true, sign, if_neg Bool.false_ne_true, List.length_nil, List.nil_append, List.drop_zero,
      hid.put_self]
    rfl
  | true =>
    obtain ⟨o, old, rfl⟩ : ∃ o old', old = o :: old' := List.exists_cons_of_length_pos hold
    rw [List.length_cons] at hroom
    obtain ⟨hstore, -⟩ := run_store_next hid (p := p + i) (by omega) hp (by simpa using hi) 0x2D#8
    rw [putSign, if_pos rfl, Action.run_bind, hstore]
    simp [sign]

/-- In a buffer that has room for the numeral and a zero, `IntToStr` stores them, and nothing behind them. -/
theorem run_intToStr {num len base : BitVec 32} (hbase : 2 ≤ base.toNat) (hbase' : base.toNat ≤ 36)
    (hid : w.Has id (pre ++ old ++ post)) (hp : p = ⟨.block id, pre.length⟩) (hold : old.length = len.toNat)
    (hroom : pre.length + old.length ≤ 2 ^ 32) (hlen : (numeral num base).length < len.toNat) :
    (intToStr num p len base).run w = some (0#32,
      w.put id (pre ++ (numeral num base ++ 0#8 :: old.drop ((numeral num base).length + 1)) ++ post)) := by
  have hlen0 : len ≠ 0#32 := by
    rintro rfl
    exact absurd hlen (Nat.not_lt_zero _)
  have hbase_p : p.base = .block id := by rw [hp]
  have hoffset : p.offset = pre.length := by rw [hp]
  by_cases hnum : num = 0#32
  · -- the zero has a branch of its own
    rw [hnum, numeral_zero] at hlen ⊢
    rw [List.length_singleton] at hlen
    obtain ⟨o, old, rfl⟩ : ∃ o old', old = o :: old' := List.exists_cons_of_length_pos (by omega)
    rw [List.length_cons] at hold hroom
    obtain ⟨o', old, rfl⟩ : ∃ o old', old = o :: old' := List.exists_cons_of_length_pos (by omega)
    obtain ⟨hstore, hnext⟩ := run_store_next hid (p := p + 0) (by omega) hbase_p hoffset 0x30#8
    obtain ⟨hstore', -⟩ := run_store_next hnext (p := p + 1) (by simpa using by omega) hbase_p (by simpa using hoffset) 0#8
    rw [put_put] at hstore'
    rw [intToStr, if_neg hlen0, if_pos rfl, Action.run_bind, hstore, Option.bind_eq_bind, Option.bind_some, Action.run_bind,
      hstore']
    simp
  · have hreverse := @numeral_eq_reverse num base hnum
    have hlength := congrArg List.length hreverse
    rw [List.length_reverse, List.length_append] at hlength
    generalize hds : digits base.toNat (magnitude num base).toNat = ds at hreverse hlength
    generalize hsg : sign (negates num base) = sg at hreverse hlength
    have htake : ds.take len.toNat = ds := List.take_of_length_le (by omega)
    have hdigits := @run_digitLoop _ _ _ _ _ _ len.toNat 0 _ _ hbase hbase' hid hbase_p hoffset
      (by rw [hds, htake]; omega) hroom
    rw [hds, htake, Nat.zero_add] at hdigits
    have hid₁ : (w.put id (pre ++ (ds ++ old.drop ds.length) ++ post)).Has id ((pre ++ ds) ++ old.drop ds.length ++ post) := by
      simpa using hid.put (pre ++ (ds ++ old.drop ds.length) ++ post)
    have hsign := @run_putSign _ _ _ _ _ _ (negates num base) ds.length hid₁ hbase_p (by simpa using hoffset)
      (by rw [hsg, List.length_drop]; omega) (by simp; omega)
    rw [hsg, put_put, List.drop_drop] at hsign
    obtain ⟨o, old', hrest⟩ : ∃ o old', old.drop (ds.length + sg.length) = o :: old' :=
      List.exists_cons_of_length_pos (by rw [List.length_drop]; omega)
    have hold' : old.drop (ds.length + sg.length + 1) = old' := by rw [← List.tail_drop, hrest, List.tail_cons]
    rw [hrest] at hsign
    have hid₂ : (w.put id ((pre ++ ds) ++ (sg ++ o :: old') ++ post)).Has id ((pre ++ (ds ++ sg)) ++ o :: (old' ++ post)) := by
      simpa using hid.put ((pre ++ ds) ++ (sg ++ o :: old') ++ post)
    have hstore := run_store hid₂ (p := p + (ds.length + sg.length)) (by simp; omega) hbase_p (by simpa using hoffset) 0#8
    rw [put_put] at hstore
    have hid₃ : (w.put id ((pre ++ (ds ++ sg)) ++ 0#8 :: (old' ++ post))).Has id (pre ++ (ds ++ sg) ++ 0#8 :: (old' ++ post)) :=
      hid.put _
    have hstrrev := run_strrev hid₃ hbase_p hoffset (by simp; omega)
    rw [put_put, List.length_append, ← hreverse] at hstrrev
    rw [intToStr_of_ne hlen0 hnum, Action.run_bind, hdigits, Option.bind_eq_bind, Option.bind_some, Action.run_bind, hsign,
      Option.bind_eq_bind, Option.bind_some, Action.run_bind, hstore, Option.bind_eq_bind, Option.bind_some, Action.run_bind,
      hstrrev, hlength, hold']
    simp

/-- `IntToStr` leaves the numeral in a buffer that has room for it and a zero. It has no leading zeros, and is read back as
the number: with a minus sign if and only if the base is ten and `num` is negative. -/
theorem intToStr_numeral (w : Buffers) (id : ℕ) (pre old post : List (BitVec 8)) (num len base : BitVec 32)
    (hbase : 2 ≤ base.toNat) (hbase' : base.toNat ≤ 36) (hid : w.Has id (pre ++ old ++ post)) (hold : old.length = len.toNat)
    (hroom : pre.length + old.length ≤ 2 ^ 32) (hlen : (numeral num base).length < len.toNat) :
    (intToStr num ⟨.block id, pre.length⟩ len base).run w = some (0#32,
        w.put id (pre ++ (numeral num base ++ 0#8 :: old.drop ((numeral num base).length + 1)) ++ post)) ∧
      0#8 ∉ numeral num base ∧
      read? base.toNat (numeral num base) = some (if base = 10#32 then num.toInt else num.toNat) ∧
      ((numeral num base).head? = some 0x2D#8 ↔ num.toInt < 0 ∧ base = 10#32) ∧
      NoLeadingZero (numeral num base) :=
  ⟨run_intToStr hbase hbase' hid rfl hold hroom hlen, zero_notMem_integer hbase hbase', read?_integer hbase hbase',
    (head?_integer hbase hbase').trans (valueOf_neg_iff.trans negates_iff), noLeadingZero_integer hbase hbase'⟩

/-- A block of zeros. -/
def zeros (n : ℕ) : Buffers := ⟨[List.replicate n 0#8], [], 0, fun _ => 0#8, fun _ _ => 0#8⟩

/-- No blocks. -/
def noBlocks : Buffers := .empty (fun _ => 0#8) fun _ _ => 0#8

theorem has_zeros (n : ℕ) : (zeros n).Has 0 (List.replicate n 0#8) := ⟨List.not_mem_nil, rfl⟩

/-- The least number, which is its own negation. -/
theorem intToStr_numeral_least : ∃ w',
    (intToStr 0x80000000#32 ⟨.block 0, 0⟩ 12#32 10#32).run (zeros 12) = some (0#32, w') ∧
      read? 10 (numeral 0x80000000#32 10#32) = some (-2147483648) := by
  have hlen := length_numeral_ten 0x80000000#32
  have hsplit : (zeros 12).Has 0 ([] ++ List.replicate 12 0#8 ++ []) := has_zeros 12
  obtain ⟨hrun, -, hread, -⟩ := intToStr_numeral (zeros 12) 0 [] (List.replicate 12 0#8) [] 0x80000000#32 12#32 10#32
    (by decide) (by decide) hsplit rfl (by decide) (Nat.lt_succ_of_le hlen)
  exact ⟨_, hrun, hread⟩

/-! ### Buffers that are too small -/

/-- There is no byte behind the end of a block. -/
theorem byteAt?_of_length_le {bs : List (BitVec 8)} (hid : w.Has id bs) (hp : p.base = .block id) (hle : bs.length ≤ p.offset)
    (hlt : p.offset < 2 ^ 32) : w.byteAt? p = none := by
  rw [hid.byteAt? hp hlt]
  exact List.getElem?_eq_none hle

/-- Where the numeral and its zero do not fit into a block, `IntToStr` writes behind its end. -/
theorem strays_intToStr {num len base : BitVec 32} (hbase : 2 ≤ base.toNat) (hbase' : base.toNat ≤ 36)
    (hid : w.Has id old) (hold : old.length = len.toNat) (hlen0 : len ≠ 0#32) (hlong : len.toNat ≤ (numeral num base).length) :
    Strays w (intToStr num ⟨.block id, 0⟩ len base) := by
  have hlt := len.isLt
  have hpos : 0 < len.toNat := Nat.pos_of_ne_zero fun h => hlen0 (BitVec.eq_of_toNat_eq h)
  generalize hp : (⟨.block id, 0⟩ : Pointer) = p
  have hbase_p : p.base = .block id := by rw [← hp]
  have hoffset : p.offset = 0 := by rw [← hp]
  by_cases hnum : num = 0#32
  · -- the second of the two stores is behind the end
    rw [hnum, numeral_zero, List.length_singleton] at hlong
    obtain ⟨o, rfl⟩ := List.length_eq_one_iff.mp (show old.length = 1 by omega)
    have hstore := @run_store _ (p + 0) _ _ [] _ hid (by decide) hbase_p hoffset 0x30#8
    have hpast := byteAt?_of_length_le (p := p + 1) (hid.put [0x30#8]) hbase_p (by simp [hoffset]) (by simp [hoffset])
    rw [intToStr, if_neg hlen0, if_pos hnum]
    exact strays_after hstore (strays_store hpast 0#8).bind
  · have hlength := congrArg List.length (@numeral_eq_reverse num base hnum)
    rw [List.length_reverse, List.length_append] at hlength
    have hsplit : w.Has id ([] ++ old ++ []) := by simpa using hid
    generalize hds : digits base.toNat (magnitude num base).toNat = ds at hlength
    have hk : (ds.take len.toNat).length = min len.toNat ds.length := List.length_take
    have hdigits := @run_digitLoop _ _ _ _ _ _ len.toNat 0 _ _ hbase hbase' hsplit hbase_p hoffset
      (by rw [hds, hk]; omega) (by simp; omega)
    rw [hds, Nat.zero_add] at hdigits
    generalize hts : ds.take len.toNat = ts at hdigits hk
    have hid₁ : (w.put id ([] ++ (ts ++ old.drop ts.length) ++ [])).Has id (ts ++ old.drop ts.length ++ []) := by
      simpa using hid.put (ts ++ old.drop ts.length)
    rw [intToStr_of_ne hlen0 hnum]
    generalize hsg : negates num base = neg at hlength
    refine strays_after hdigits ?_
    by_cases hroom : ts.length + (sign neg).length ≤ len.toNat
    · -- the zero is the first byte behind the end
      have hsign := @run_putSign _ _ _ _ _ _ neg ts.length hid₁ hbase_p (by simpa using hoffset)
        (by rw [List.length_drop]; omega) (by simp; omega)
      rw [put_put] at hsign
      have hid₂ := hid.put (ts ++ (sign neg ++ (old.drop ts.length).drop (sign neg).length) ++ [])
      have hend : ts.length + (sign neg).length = len.toNat := by omega
      have hpast := byteAt?_of_length_le (p := p + (ts.length + (sign neg).length)) hid₂ hbase_p
        (by simp [hoffset]; omega) (by simp [hoffset]; omega)
      exact strays_after hsign (strays_store hpast 0#8).bind
    · -- the sign is
      have hsign := length_sign_le neg
      have hend : ts.length = len.toNat := by omega
      obtain rfl : neg = true := by
        cases neg with
        | false => exact absurd (show ts.length + 0 ≤ len.toNat by omega) hroom
        | true => rfl
      have hpast := byteAt?_of_length_le (p := p + ts.length) hid₁ hbase_p (by simp [hoffset]; omega) (by simp [hoffset]; omega)
      rw [putSign, if_pos rfl]
      exact (strays_store hpast 0x2D#8).bind.bind

/-- In a block of `len` bytes, `IntToStr` writes nothing behind the end, and tells with what it returns whether the numeral
and its zero fit, if and only if they do or there is no byte at all. -/
theorem intToStr_respects_iff (w : Buffers) (id : ℕ) (old : List (BitVec 8)) (num len base : BitVec 32)
    (hbase : 2 ≤ base.toNat) (hbase' : base.toNat ≤ 36) (hid : w.Has id old) (hold : old.length = len.toNat) :
    (∃ r w', (intToStr num ⟨.block id, 0⟩ len base).run w = some (r, w') ∧ w'.strays = w.strays ∧
        (r ≠ 0#32 ↔ len.toNat < (numeral num base).length + 1)) ↔
      len = 0#32 ∨ (numeral num base).length < len.toNat := by
  constructor
  · rintro ⟨r, w', hrun, hstrays, -⟩
    by_contra hcond
    rw [not_or, Nat.not_lt] at hcond
    have hlt := strays_intToStr hbase hbase' hid hold hcond.1 hcond.2 _ _ hrun
    omega
  · rintro (rfl | hlen)
    · exact ⟨-1#32, w, rfl, rfl, iff_of_true (by decide) (Nat.succ_pos _)⟩
    · have hlt := len.isLt
      have hsplit : w.Has id ([] ++ old ++ []) := by simpa using hid
      have hrun := run_intToStr hbase hbase' hsplit rfl hold (by simp; omega) hlen
      exact ⟨0#32, _, hrun, rfl, iff_of_false (not_not.mpr rfl) (by omega)⟩

/-- The numeral `-5` fits into three bytes. -/
theorem intToStr_respects_iff_minusFive : ∃ r w',
    (intToStr 0xFFFFFFFB#32 ⟨.block 0, 0⟩ 3#32 10#32).run (zeros 3) = some (r, w') ∧ w'.strays = 0 ∧
      (r ≠ 0#32 ↔ 3 < (numeral 0xFFFFFFFB#32 10#32).length + 1) := by
  have hlen := @length_numeral_le 0xFFFFFFFB#32 10#32 1 (by decide) (by decide) (by decide)
  have hsign := length_sign_le (negates 0xFFFFFFFB#32 10#32)
  exact (intToStr_respects_iff (zeros 3) 0 _ 0xFFFFFFFB#32 3#32 10#32 (by decide) (by decide) (has_zeros 3) rfl).mpr
    (Or.inr (show _ < 3 by omega))

/-- The zero that ends the numeral `0` is written behind a buffer of one byte, and `0` is returned. -/
theorem intToStr_past_buffer : ∃ w', (intToStr 0#32 ⟨.block 0, 0⟩ 1#32 10#32).run (zeros 1) = some (0#32, w') ∧
    w'.strays = 1 ∧ 1 < (numeral 0#32 10#32).length + 1 :=
  ⟨_, rfl, rfl, by rw [numeral_zero]; decide⟩

end

end TypeConverter

end EagleOS.ESTD
