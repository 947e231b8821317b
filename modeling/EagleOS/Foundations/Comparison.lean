import Mathlib.Data.List.Lex
import Mathlib.Data.Int.Order.Basic
import Mathlib.Order.Lattice
import Mathlib.Tactic.Common

/-!
# Comparisons by sign

A comparison returns a number: below zero where the left side comes first, zero where the sides are the same, and above
zero where the right side comes first.

## What is proved

* `compares_cons_of_ne`, `Compares.cons` — lists are compared by their first elements, or by the others.
* `Compares.sign_eq` — two numbers that compare the same things have one sign.
-/

namespace EagleOS.Foundations

universe u

variable {α : Type u} {r r' : ℤ}

/-- The number is what a comparison of `a` and `b` may return. -/
structure Compares [LT α] (r : ℤ) (a b : α) : Prop where
  /-- The left side comes first. -/
  neg : r < 0 ↔ a < b
  /-- The sides are the same. -/
  zero : r = 0 ↔ a = b
  /-- The right side comes first. -/
  pos : 0 < r ↔ b < a

/-- Two numbers that compare the same things have one sign. -/
theorem Compares.sign_eq [LT α] {a b : α} (h : Compares r a b) (h' : Compares r' a b) : r.sign = r'.sign := by
  rcases lt_trichotomy r 0 with hr | hr | hr
  · rw [Int.sign_eq_neg_one_of_neg hr, Int.sign_eq_neg_one_of_neg (h'.neg.mpr (h.neg.mp hr))]
  · rw [hr, h'.zero.mpr (h.zero.mp hr)]
  · rw [Int.sign_eq_one_of_pos hr, Int.sign_eq_one_of_pos (h'.pos.mpr (h.pos.mp hr))]

/-- Numbers are compared by their difference. -/
theorem compares_sub (m n : ℕ) : Compares ((m : ℤ) - n) m n := ⟨by omega, by omega, by omega⟩

section

variable [LinearOrder α] {a b : α} {as bs : List α}

theorem compares_refl (a : α) : Compares 0 a a := ⟨by simp, by simp, by simp⟩

theorem compares_of_lt (h : a < b) : Compares (-1) a b := ⟨by simp [h], by simp [h.ne], by simp [h.le]⟩

theorem compares_of_gt (h : b < a) : Compares 1 a b := ⟨by simp [h.le], by simp [h.ne'], by simp [h]⟩

/-- Where the first elements are not the same they decide. -/
theorem compares_cons_of_ne (hne : a ≠ b) (h : Compares r a b) : Compares r (a :: as) (b :: bs) := by
  refine ⟨?_, ?_, ?_⟩
  · rw [h.neg, List.cons_lt_cons_iff, or_iff_left fun he => hne he.1]
  · rw [h.zero, List.cons.injEq]
    exact ⟨fun he => absurd he hne, fun he => he.1⟩
  · rw [h.pos, List.cons_lt_cons_iff, or_iff_left fun he => hne he.1.symm]

/-- Where they are the same the others decide. -/
theorem Compares.cons (h : Compares r as bs) (a : α) : Compares r (a :: as) (a :: bs) :=
  ⟨by rw [h.neg, List.cons_lt_cons_self], by rw [h.zero, List.cons_inj_right], by rw [h.pos, List.cons_lt_cons_self]⟩

/-- A list that ends comes before one that does not. -/
theorem compares_nil_cons (h : r < 0) : Compares r [] (b :: bs) := by
  refine ⟨by simp [h], by simp [h.ne], ?_⟩
  simp [h.le]

theorem compares_cons_nil (h : 0 < r) : Compares r (a :: as) [] := by
  refine ⟨?_, by simp [h.ne'], by simp [h]⟩
  simp [h.le]

end

end EagleOS.Foundations
