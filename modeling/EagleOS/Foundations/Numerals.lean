import Mathlib.Data.Nat.Digits.Lemmas

/-!
# Numerals

The numeral of a number in a base has its digits as characters, the most significant one first: `0` to `9`, and then
`A` to `Z`. That of a negative number has a minus sign before them.

## What is proved

* `value?_natural`, `read?_integer` — a numeral is read back as the number.
* `noLeadingZero_integer` — the numeral of zero is the only one with a zero in front.
* `length_natural_le` — how many digits a number has.
-/

namespace EagleOS.Foundations.Numerals

/-- The character for a digit. -/
def digitChar (d : ℕ) : BitVec 8 := if d ≤ 9 then BitVec.ofNat 8 (d + 0x30) else BitVec.ofNat 8 (d - 10 + 0x41)

/-- The digit that a character is for. -/
def digit? (c : BitVec 8) : Option ℕ :=
  if 0x30 ≤ c.toNat ∧ c.toNat ≤ 0x39 then some (c.toNat - 0x30)
  else if 0x41 ≤ c.toNat ∧ c.toNat ≤ 0x5A then some (c.toNat - 0x41 + 10)
  else none

/-- A number that is read on by one digit. -/
def readDigit (base n : ℕ) (c : BitVec 8) : Option ℕ :=
  (digit? c).bind fun d => if d < base then some (n * base + d) else none

/-- The number that a text is read as, if it has digits only. -/
def value? (base : ℕ) (chars : List (BitVec 8)) : Option ℕ := if chars = [] then none else chars.foldlM (readDigit base) 0

/-- The number that a text is read as, if it has digits only, after a minus sign or none. -/
def read? (base : ℕ) (chars : List (BitVec 8)) : Option ℤ :=
  if chars.head? = some 0x2D#8 then (value? base chars.tail).map fun n : ℕ => -(n : ℤ)
  else (value? base chars).map fun n : ℕ => (n : ℤ)

/-- The digits of a number, the least significant one first; there are none for zero. -/
def digits (base n : ℕ) : List (BitVec 8) := (Nat.digits base n).map digitChar

/-- The numeral of a natural number. -/
def natural (base n : ℕ) : List (BitVec 8) := if n = 0 then [0x30#8] else (digits base n).reverse

/-- The numeral of an integer. -/
def integer (base : ℕ) (z : ℤ) : List (BitVec 8) := if z < 0 then 0x2D#8 :: natural base z.natAbs else natural base z.natAbs

/-- Only the text `0` has a zero in front, with a minus sign or without. -/
structure NoLeadingZero (chars : List (BitVec 8)) : Prop where
  /-- Without a sign. -/
  plain : chars.head? = some 0x30#8 → chars = [0x30#8]
  /-- With a sign. -/
  signed : chars.head? = some 0x2D#8 → chars.tail.head? ≠ some 0x30#8

/-! ### Digits -/

variable {base n d : ℕ} {c : BitVec 8}

theorem toNat_digitChar (h : d < 36) : (digitChar d).toNat = if d ≤ 9 then d + 0x30 else d - 10 + 0x41 := by
  unfold digitChar
  split <;> rw [BitVec.toNat_ofNat, Nat.mod_eq_of_lt (by omega)]

theorem digit?_digitChar (h : d < 36) : digit? (digitChar d) = some d := by
  rw [digit?, toNat_digitChar h]
  by_cases hd : d ≤ 9
  · rw [if_pos hd, if_pos (by omega), Nat.add_sub_cancel]
  · rw [if_neg hd, if_neg (by omega), if_pos (by omega), Nat.add_sub_cancel, Nat.sub_add_cancel (by omega)]

theorem readDigit_digitChar (hd : d < base) (hbase : base ≤ 36) : readDigit base n (digitChar d) = some (n * base + d) := by
  rw [readDigit, digit?_digitChar (Nat.lt_of_lt_of_le hd hbase), Option.bind_some, if_pos hd]

/-- Only the digit zero has the character zero. -/
theorem digitChar_eq_zero (h : d < 36) : digitChar d = 0x30#8 ↔ d = 0 := by
  have hchar := toNat_digitChar h
  constructor
  · intro heq
    rw [heq, show (0x30#8).toNat = 0x30 from rfl] at hchar
    split at hchar <;> omega
  · rintro rfl
    rfl

/-- The least of the characters for digits is that of zero. -/
theorem le_digitChar (h : d < 36) : 0x30 ≤ (digitChar d).toNat := by
  rw [toNat_digitChar h]
  split <;> omega

/-! ### Numerals -/

@[simp] theorem digits_zero : digits base 0 = [] := by rw [digits, Nat.digits_zero, List.map_nil]

theorem digits_of_ne_zero (hbase : 2 ≤ base) (hn : n ≠ 0) : digits base n = digitChar (n % base) :: digits base (n / base) := by
  rw [digits, Nat.digits_def' hbase (Nat.pos_of_ne_zero hn), List.map_cons]
  rfl

theorem mem_digits (hbase : 2 ≤ base) (h : c ∈ digits base n) : ∃ d < base, c = digitChar d := by
  obtain ⟨d, hd, rfl⟩ := List.mem_map.mp h
  exact ⟨d, Nat.digits_lt_base hbase hd, rfl⟩

/-- The characters of a numeral are for digits. -/
theorem mem_natural (hbase : 2 ≤ base) (h : c ∈ natural base n) : ∃ d < base, c = digitChar d := by
  unfold natural at h
  split at h
  · exact ⟨0, by omega, List.mem_singleton.mp h⟩
  · exact mem_digits hbase (List.mem_reverse.mp h)

theorem natural_ne_nil (base n : ℕ) : natural base n ≠ [] := by
  unfold natural
  split
  · simp
  · next hn => simpa [digits, Nat.digits_eq_nil_iff_eq_zero] using hn

/-- Digits are read, from the most significant one on, as the number they are the digits of. -/
theorem foldlM_reverse_digits {ds : List ℕ} (hbase : base ≤ 36) (hds : ∀ d ∈ ds, d < base) :
    (ds.map digitChar).reverse.foldlM (readDigit base) 0 = some (Nat.ofDigits base ds) := by
  induction ds with
  | nil => rfl
  | cons d ds ih =>
    rw [List.forall_mem_cons] at hds
    rw [List.map_cons, List.reverse_cons, List.foldlM_append, ih hds.2, Option.bind_eq_bind, Option.bind_some, List.foldlM_cons,
      readDigit_digitChar hds.1 hbase, Nat.ofDigits_cons, Nat.mul_comm, Nat.add_comm]
    rfl

/-- The numeral of a natural number is read back as that number. -/
theorem value?_natural (hbase : 2 ≤ base) (hbase' : base ≤ 36) : value? base (natural base n) = some n := by
  rw [value?, if_neg (natural_ne_nil base n), natural]
  split
  · next hn =>
    have hzero : readDigit base 0 0x30#8 = some (0 * base + 0) := @readDigit_digitChar base 0 0 (by omega) hbase'
    rw [List.foldlM_cons, hzero, hn, Nat.zero_mul]
    rfl
  · rw [digits, foldlM_reverse_digits hbase' fun d hd => Nat.digits_lt_base hbase hd, Nat.ofDigits_digits]

/-- It starts with a zero only if the number is zero. -/
theorem head?_natural (hbase : 2 ≤ base) (hbase' : base ≤ 36) : (natural base n).head? = some 0x30#8 ↔ n = 0 := by
  unfold natural
  split
  · next hn => simp [hn]
  · next hn =>
    have hne : Nat.digits base n ≠ [] := Nat.digits_ne_nil_iff_ne_zero.mpr hn
    have hlast := Nat.getLast_digit_ne_zero base hn
    have hlt := Nat.digits_lt_base hbase (List.getLast_mem hne)
    rw [List.head?_reverse, digits, List.getLast?_map, List.getLast?_eq_some_getLast hne, Option.map_some, Option.some_inj,
      digitChar_eq_zero (by omega)]
    exact iff_of_false hlast hn

/-- It does not start with a minus sign. -/
theorem head?_natural_ne_minus (hbase : 2 ≤ base) (hbase' : base ≤ 36) : (natural base n).head? ≠ some 0x2D#8 := by
  intro h
  obtain ⟨d, hd, heq⟩ := mem_natural hbase (List.mem_of_mem_head? h)
  have hle := le_digitChar (show d < 36 by omega)
  rw [← heq] at hle
  exact absurd hle (by decide)

/-- A numeral has no zero character. -/
theorem zero_notMem_natural (hbase : 2 ≤ base) (hbase' : base ≤ 36) : 0#8 ∉ natural base n := by
  intro h
  obtain ⟨d, hd, heq⟩ := mem_natural hbase h
  have hle := le_digitChar (show d < 36 by omega)
  rw [← heq] at hle
  exact absurd hle (by decide)

theorem zero_notMem_integer {z : ℤ} (hbase : 2 ≤ base) (hbase' : base ≤ 36) : 0#8 ∉ integer base z := by
  unfold integer
  split
  · rw [List.mem_cons, not_or]
    exact ⟨by decide, zero_notMem_natural hbase hbase'⟩
  · exact zero_notMem_natural hbase hbase'

theorem integer_ne_nil (base : ℕ) (z : ℤ) : integer base z ≠ [] := by
  unfold integer
  split
  · exact List.cons_ne_nil _ _
  · exact natural_ne_nil base _

theorem integer_natCast (base n : ℕ) : integer base n = natural base n := by
  rw [integer, if_neg (Int.not_lt.mpr (Int.natCast_nonneg n)), Int.natAbs_natCast]

/-- The numeral of an integer starts with a minus sign if and only if the integer is negative. -/
theorem head?_integer {z : ℤ} (hbase : 2 ≤ base) (hbase' : base ≤ 36) : (integer base z).head? = some 0x2D#8 ↔ z < 0 := by
  unfold integer
  split
  · next hz => exact iff_of_true rfl hz
  · next hz => exact iff_of_false (head?_natural_ne_minus hbase hbase') hz

/-- It is read back as that integer. -/
theorem read?_integer {z : ℤ} (hbase : 2 ≤ base) (hbase' : base ≤ 36) : read? base (integer base z) = some z := by
  unfold read?
  by_cases hz : z < 0
  · rw [if_pos ((head?_integer hbase hbase').mpr hz), integer, if_pos hz, List.tail_cons, value?_natural hbase hbase',
      Option.map_some, Option.some_inj]
    omega
  · rw [if_neg fun h => hz ((head?_integer hbase hbase').mp h), integer, if_neg hz, value?_natural hbase hbase',
      Option.map_some, Option.some_inj]
    omega

theorem noLeadingZero_integer {z : ℤ} (hbase : 2 ≤ base) (hbase' : base ≤ 36) : NoLeadingZero (integer base z) := by
  constructor
  · intro h
    by_cases hz : z < 0
    · rw [integer, if_pos hz, List.head?_cons, Option.some_inj] at h
      exact absurd h (by decide)
    · rw [integer, if_neg hz] at h ⊢
      rw [natural, if_pos ((head?_natural hbase hbase').mp h)]
  · intro h
    have hz := (head?_integer hbase hbase').mp h
    rw [integer, if_pos hz, List.tail_cons]
    intro hzero
    have habs := (head?_natural hbase hbase').mp hzero
    omega

/-- A number below a power of the base has no more digits than the exponent. -/
theorem length_natural_le {k : ℕ} (hbase : 2 ≤ base) (hk : 0 < k) (hn : n < base ^ k) : (natural base n).length ≤ k := by
  unfold natural
  split
  · exact hk
  · rw [List.length_reverse, digits, List.length_map]
    exact (Nat.digits_length_le_iff hbase n).mpr hn

end EagleOS.Foundations.Numerals
