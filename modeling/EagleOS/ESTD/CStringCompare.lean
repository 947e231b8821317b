import EagleOS.ESTD.CString

/-!
# `Strncmp` and `Memcmp`

Both compare bytes, which are unsigned, from the first one on: `Strncmp` those of two texts, up to their ends, and
`Memcmp` those of two arrays.

## The model

The texts and the arrays are wherever their pointers point to, and may overlap. What is read is what must be there for
the pointers to be to such texts or arrays: an access to anything else would be outside, in some memory.

## What is proved

* `memcmp_compares` — `Memcmp` is the lexicographic comparison.
* `comparisons_lexicographic` — so is `Strncmp`, and the two agree where neither comes to the end of a text.
-/

namespace EagleOS.ESTD.CString

open Foundations Buffers

/-- `Memcmp`. -/
def memcmp (src1 src2 : Pointer) : ℕ → Action ℤ
  | 0 => pure 0
  | num + 1 => do
    if (← load src1) < (← load src2) then pure (-1)
    else if (← load src1) > (← load src2) then pure 1
    else memcmp (src1 + 1) (src2 + 1) num

/-- `Memcmp` of two arrays of the same length compares them; nothing past their ends is read. -/
theorem memcmp_compares : ∀ xs ys : List (BitVec 8), xs.length = ys.length → ∃ r,
    (∀ (w : Buffers) (p q : Pointer), w.Reads p xs → w.Reads q ys → (memcmp p q xs.length).run w = some (r, w)) ∧
      Compares r (codes xs) (codes ys)
  | [], [], _ => ⟨0, fun _ _ _ _ _ => rfl, compares_refl _⟩
  | x :: xs, y :: ys, hlen => by
    have hload (w : Buffers) (p q : Pointer) (hp : w.Reads p (x :: xs)) (hq : w.Reads q (y :: ys)) :=
      And.intro (run_load (reads_cons.mp hp).1) (run_load (reads_cons.mp hq).1)
    rcases lt_trichotomy x.toNat y.toNat with hlt | heq | hgt
    · have hlt' : x < y := hlt
      refine ⟨-1, fun w p q hp hq => ?_, compares_cons_of_ne (ne_of_lt hlt) (compares_of_lt hlt)⟩
      simp [memcmp, hload w p q hp hq, hlt']
    · obtain rfl := BitVec.eq_of_toNat_eq heq
      obtain ⟨r, hrun, hr⟩ := memcmp_compares xs ys (Nat.succ.inj hlen)
      refine ⟨r, fun w p q hp hq => ?_, hr.cons x.toNat⟩
      simp [memcmp, hload w p q hp hq, hrun w _ _ (reads_cons.mp hp).2 (reads_cons.mp hq).2]
    · have hgt' : y < x := hgt
      have hnlt : ¬ x < y := Nat.lt_asymm hgt
      refine ⟨1, fun w p q hp hq => ?_, compares_cons_of_ne (ne_of_gt hgt) (compares_of_gt hgt)⟩
      simp [memcmp, hload w p q hp hq, hgt', hnlt]

/-- **Comparison**: for texts `a` and `b`, `Strncmp` compares their first `n` characters, and for arrays `xs` and `ys`
of `n` bytes `Memcmp` compares them: bytes are unsigned, and the first that are not the same decide. The signs of the
two are the same where neither text ends within the first `n` bytes. -/
theorem comparisons_lexicographic (n : ℕ) (a b xs ys : List (BitVec 8)) (ha : 0#8 ∉ a) (hb : 0#8 ∉ b) (hxs : xs.length = n)
    (hys : ys.length = n) :
    (∃ r, (∀ (w : Buffers) (p q : Pointer), w.Reads p (a ++ [0#8]) → w.Reads q (b ++ [0#8]) →
        (strncmp p q n).run w = some (r, w)) ∧ Compares r (codes (a.take n)) (codes (b.take n))) ∧
    (∃ r, (∀ (w : Buffers) (p q : Pointer), w.Reads p xs → w.Reads q ys → (memcmp p q n).run w = some (r, w)) ∧
      Compares r (codes xs) (codes ys)) ∧
    (n ≤ a.length → n ≤ b.length → ∀ (w : Buffers) (p q : Pointer), w.Reads p (a ++ [0#8]) → w.Reads q (b ++ [0#8]) →
      ∃ r r', (strncmp p q n).run w = some (r, w) ∧ (memcmp p q n).run w = some (r', w) ∧ r.sign = r'.sign) := by
  obtain ⟨r, hrun, hr⟩ := strncmp_compares n a b ha hb
  refine ⟨⟨r, hrun, hr⟩, ?_, fun hna hnb w p q hp hq => ?_⟩
  · rw [← hxs]
    exact memcmp_compares xs ys (hxs.trans hys.symm)
  · have hlen : (a.take n).length = n := by simp [hna]
    obtain ⟨r', hrun', hr'⟩ := memcmp_compares (a.take n) (b.take n) (by simp [hna, hnb])
    rw [hlen] at hrun'
    have hfirst {s : Pointer} {cs : List (BitVec 8)} (h : w.Reads s (cs ++ [0#8])) : w.Reads s (cs.take n) := by
      have htext := (reads_append.mp h).1
      rw [← List.take_append_drop n cs] at htext
      exact (reads_append.mp htext).1
    exact ⟨r, r', hrun w p q hp hq, hrun' w p q (hfirst hp) (hfirst hq), hr.sign_eq hr'⟩

/-- A byte of 128 comes after one of 127. -/
theorem comparisons_lexicographic_unsigned : ∃ r, (∀ (w : Buffers) (p q : Pointer), w.Reads p [0x61#8, 0x80#8] →
    w.Reads q [0x61#8, 0x7F#8] → (memcmp p q 2).run w = some (r, w)) ∧ 0 < r := by
  obtain ⟨-, ⟨r, hrun, hr⟩, -⟩ := comparisons_lexicographic 2 [0x61#8] [0x61#8, 0x80#8] [0x61#8, 0x80#8] [0x61#8, 0x7F#8]
    (by decide) (by decide) rfl rfl
  exact ⟨r, hrun, hr.pos.mpr (by decide)⟩

end EagleOS.ESTD.CString
