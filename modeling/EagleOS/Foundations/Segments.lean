import Mathlib.Data.List.Basic
import Mathlib.Tactic.Common

/-!
# The segments of a list

A segment of a list, for a predicate, is a run of elements that satisfy it and that cannot be made longer: `(a, n)` is
where it starts, and how long it is. `segments` finds them all, from left to right, one element after the other.

## What is proved

* `mem_segments` — it finds the segments and nothing else.
* `segments_ordered` — each ends before the next one starts, with an element between them.
* `segments_append_of_none`, `segments_append_of_some` — what it does with elements that do not, or do, satisfy the
  predicate.
-/

namespace EagleOS.Foundations

variable {α : Type} {p : α → Prop} {xs ys : List α} {i a b n : ℕ}

/-- The `n` elements from position `a` on satisfy `p`, and their neighbours do not. -/
structure IsSegment (p : α → Prop) (xs : List α) (a n : ℕ) : Prop where
  /-- It is not empty. -/
  pos : 0 < n
  /-- Its elements satisfy `p`. -/
  inside : ∀ k, a ≤ k → k < a + n → ∃ x, xs[k]? = some x ∧ p x
  /-- The one before it does not. -/
  left : ∀ k x, k + 1 = a → xs[k]? = some x → ¬ p x
  /-- The one after it does not. -/
  right : ∀ x, xs[a + n]? = some x → ¬ p x

/-- A segment is in the list. -/
theorem IsSegment.le_length (h : IsSegment p xs a n) : a + n ≤ xs.length := by
  obtain ⟨x, hx, -⟩ := h.inside (a + n - 1) (by have := h.pos; omega) (by have := h.pos; omega)
  have hlt := (List.getElem?_eq_some_iff.mp hx).1
  omega

/-- The segments of a list that starts at position `i`, where `start` is the position at which the segment that is
being read has started. -/
def segments (p : α → Prop) [DecidablePred p] : ℕ → Option ℕ → List α → List (ℕ × ℕ)
  | _, none, [] => []
  | i, some a, [] => [(a, i - a)]
  | i, none, x :: xs => if p x then segments p (i + 1) (some i) xs else segments p (i + 1) none xs
  | i, some a, x :: xs =>
    if p x then segments p (i + 1) (some a) xs else (a, i - a) :: segments p (i + 1) none xs

/-- Elements that are in no segment. -/
theorem segments_append_of_none [DecidablePred p] (h : ∀ x ∈ xs, ¬ p x) :
    segments p i none (xs ++ ys) = segments p (i + xs.length) none ys := by
  induction xs generalizing i with
  | nil => rfl
  | cons x xs ih =>
    rw [List.forall_mem_cons] at h
    rw [List.cons_append, segments, if_neg h.1, ih h.2, List.length_cons, Nat.add_assoc, Nat.add_comm 1]

/-- Elements that belong to the segment that is being read. -/
theorem segments_append_of_some [DecidablePred p] (h : ∀ x ∈ xs, p x) :
    segments p i (some a) (xs ++ ys) = segments p (i + xs.length) (some a) ys := by
  induction xs generalizing i with
  | nil => rfl
  | cons x xs ih =>
    rw [List.forall_mem_cons] at h
    rw [List.cons_append, segments, if_pos h.1, ih h.2, List.length_cons, Nat.add_assoc, Nat.add_comm 1]

/-- A segment is read after elements that are in none. -/
theorem segments_append_append [DecidablePred p] {zs : List α} (hxs : ∀ x ∈ xs, ¬ p x) (hys : ∀ y ∈ ys, p y) (hne : ys ≠ []) :
    segments p i none (xs ++ (ys ++ zs)) = segments p (i + xs.length + ys.length) (some (i + xs.length)) zs := by
  obtain ⟨y, ys, rfl⟩ := List.exists_cons_of_ne_nil hne
  rw [List.forall_mem_cons] at hys
  rw [segments_append_of_none hxs, List.cons_append, segments, if_pos hys.1, segments_append_of_some hys.2, List.length_cons,
    Nat.add_assoc _ 1, Nat.add_comm 1]

/-- The elements that satisfy a predicate, up to the first one that does not. -/
theorem exists_span (p : α → Prop) [DecidablePred p] (xs : List α) : ∃ ys zs, xs = ys ++ zs ∧ (∀ x ∈ ys, p x) ∧
    ∀ z, zs.head? = some z → ¬ p z := by
  induction xs with
  | nil => exact ⟨[], [], rfl, fun x hx => absurd hx List.not_mem_nil, fun z hz => by cases hz⟩
  | cons x xs ih =>
    by_cases hp : p x
    · obtain ⟨ys, zs, rfl, hys, hzs⟩ := ih
      exact ⟨x :: ys, zs, rfl, List.forall_mem_cons.mpr ⟨hp, hys⟩, hzs⟩
    · exact ⟨[], x :: xs, rfl, fun x hx => absurd hx List.not_mem_nil, fun z hz => by cases hz; exact hp⟩

/-! ### What is found -/

/-- A segment that starts in a run of elements of `p` starts where that does. -/
theorem IsSegment.start_unique (h : IsSegment p xs b n) (hab : a ≤ b) (hbi : b ≤ i)
    (hrun : ∀ k, a ≤ k → k < i → ∃ x, xs[k]? = some x ∧ p x) :
    b = a := by
  by_contra hne
  obtain ⟨x, hx, hp⟩ := hrun (b - 1) (by omega) (by omega)
  exact h.left (b - 1) x (by omega) hx hp

/-- A segment ends where the first element that is not in `p` follows. -/
theorem IsSegment.length_unique (h : IsSegment p xs a n) (hai : a < i) (hrun : ∀ k, a ≤ k → k < i → ∃ x, xs[k]? = some x ∧ p x)
    (hend : ∀ x, xs[i]? = some x → ¬ p x) : n = i - a := by
  by_contra hne
  rcases Nat.lt_or_gt_of_ne hne with hlt | hgt
  · obtain ⟨x, hx, hp⟩ := hrun (a + n) (by omega) (by omega)
    exact h.right x hx hp
  · obtain ⟨x, hx, hp⟩ := h.inside i (by omega) (by omega)
    exact hend x hx hp

/-- A run of elements of `p` with no such neighbours. -/
theorem isSegment_of_run (hai : a < i) (hrun : ∀ k, a ≤ k → k < i → ∃ x, xs[k]? = some x ∧ p x)
    (hstart : ∀ k x, k + 1 = a → xs[k]? = some x → ¬ p x) (hend : ∀ x, xs[i]? = some x → ¬ p x) : IsSegment p xs a (i - a) := by
  have hi : a + (i - a) = i := by omega
  exact ⟨by omega, fun k hk hk' => hrun k hk (by omega), hstart, by rwa [hi]⟩

/-- Where the search is: before position `i` there is a segment that has begun at `a`, or one cannot continue. -/
def Reading (p : α → Prop) (xs : List α) (i : ℕ) : Option ℕ → Prop
  | none => ∀ k x, k + 1 = i → xs[k]? = some x → ¬ p x
  | some a => a < i ∧ (∀ k, a ≤ k → k < i → ∃ x, xs[k]? = some x ∧ p x) ∧ ∀ k x, k + 1 = a → xs[k]? = some x → ¬ p x

/-- What is found from position `i` on. -/
theorem mem_segments_of_reading [DecidablePred p] (start : Option ℕ) (hdrop : xs.drop i = ys) (h : Reading p xs i start) :
    (b, n) ∈ segments p i start ys ↔ start.getD i ≤ b ∧ IsSegment p xs b n := by
  induction ys generalizing i start with
  | nil =>
    have hlen : xs.length ≤ i := List.drop_eq_nil_iff.mp hdrop
    have hnone : ∀ x, xs[i]? = some x → ¬ p x := fun x hx => by simp [List.getElem?_eq_none hlen] at hx
    have hlt : IsSegment p xs b n → b < i := by
      intro hseg
      obtain ⟨x, hx, -⟩ := hseg.inside b (Nat.le_refl b) (Nat.lt_add_of_pos_right hseg.pos)
      exact Nat.lt_of_lt_of_le (List.getElem?_eq_some_iff.mp hx).1 hlen
    cases start with
    | none =>
      rw [segments, Option.getD_none]
      exact iff_of_false (List.not_mem_nil) fun hmem => absurd (hlt hmem.2) (Nat.not_lt.mpr hmem.1)
    | some a =>
      obtain ⟨hai, hrun, hstart⟩ := h
      rw [segments, List.mem_singleton, Prod.mk.injEq, Option.getD_some]
      constructor
      · rintro ⟨rfl, rfl⟩
        exact ⟨Nat.le_refl b, isSegment_of_run hai hrun hstart hnone⟩
      · rintro ⟨hab, hseg⟩
        obtain rfl := hseg.start_unique hab (Nat.le_of_lt (hlt hseg)) hrun
        exact ⟨rfl, hseg.length_unique hai hrun hnone⟩
  | cons y ys ih =>
    have hy : xs[i]? = some y := by rw [← List.head?_drop, hdrop, List.head?_cons]
    have hnext : xs.drop (i + 1) = ys := by rw [← List.drop_drop, hdrop, List.drop_one, List.tail_cons]
    cases start with
    | none =>
      by_cases hp : p y
      · have hreading : Reading p xs (i + 1) (some i) := by
          refine ⟨Nat.lt_succ_self i, fun k hk hk' => ?_, h⟩
          obtain rfl : k = i := by omega
          exact ⟨y, hy, hp⟩
        rw [segments, if_pos hp, ih (some i) hnext hreading]
        rfl
      · have hreading : Reading p xs (i + 1) none := by
          intro k x hk hx
          obtain rfl : k = i := by omega
          rw [hy, Option.some.injEq] at hx
          exact hx ▸ hp
        rw [segments, if_neg hp, ih none hnext hreading, Option.getD_none, Option.getD_none]
        refine and_congr_left fun hseg => ⟨fun hle => Nat.le_of_succ_le hle, fun hle => Nat.lt_of_le_of_ne hle fun heq => ?_⟩
        obtain ⟨x, hx, hpx⟩ := hseg.inside i (Nat.le_of_eq heq.symm) (by have := hseg.pos; omega)
        rw [hy, Option.some.injEq] at hx
        exact hp (hx ▸ hpx)
    | some a =>
      obtain ⟨hai, hrun, hstart⟩ := h
      by_cases hp : p y
      · have hreading : Reading p xs (i + 1) (some a) := by
          refine ⟨by omega, fun k hk hk' => ?_, hstart⟩
          rcases Nat.lt_or_ge k i with hlt | hge
          · exact hrun k hk hlt
          · obtain rfl : k = i := by omega
            exact ⟨y, hy, hp⟩
        rw [segments, if_pos hp, ih (some a) hnext hreading]
        rfl
      · have hend : ∀ x, xs[i]? = some x → ¬ p x := by
          intro x hx
          rw [hy, Option.some.injEq] at hx
          exact hx ▸ hp
        have hreading : Reading p xs (i + 1) none := by
          intro k x hk hx
          obtain rfl : k = i := by omega
          exact hend x hx
        rw [segments, if_neg hp, List.mem_cons, ih none hnext hreading, Prod.mk.injEq, Option.getD_some, Option.getD_none]
        constructor
        · rintro (⟨rfl, rfl⟩ | ⟨hle, hseg⟩)
          · exact ⟨Nat.le_refl b, isSegment_of_run hai hrun hstart hend⟩
          · exact ⟨by omega, hseg⟩
        · rintro ⟨hab, hseg⟩
          rcases Nat.lt_or_ge i b with hlt | hge
          · exact .inr ⟨hlt, hseg⟩
          · obtain rfl := hseg.start_unique hab hge hrun
            exact .inl ⟨rfl, hseg.length_unique hai hrun hend⟩

/-- The search finds the segments and nothing else. -/
theorem mem_segments [DecidablePred p] : (b, n) ∈ segments p 0 none xs ↔ IsSegment p xs b n := by
  rw [mem_segments_of_reading none List.drop_zero fun k x hk => absurd hk (Nat.succ_ne_zero k)]
  exact and_iff_right (Nat.zero_le b)

/-- What is found starts at position `i` or after it, or where the segment that is being read has started. -/
theorem le_of_mem_segments [DecidablePred p] (start : Option ℕ) {t : ℕ × ℕ} (hstart : ∀ a, start = some a → a ≤ i)
    (h : t ∈ segments p i start xs) : start.getD i ≤ t.1 := by
  induction xs generalizing i start with
  | nil =>
    cases start with
    | none => cases h
    | some a =>
      rw [segments, List.mem_singleton] at h
      exact Nat.le_of_eq (by rw [h]; rfl)
  | cons x xs ih =>
    cases start with
    | none =>
      rw [segments] at h
      split at h
      · have hle := ih (some i) (fun a ha => by cases ha; omega) h
        exact hle
      · have hle := ih none (fun a ha => by cases ha) h
        exact Nat.le_of_succ_le hle
    | some a =>
      have hai := hstart a rfl
      rw [segments] at h
      split at h
      · have hle := ih (some a) (fun b hb => by cases hb; omega) h
        exact hle
      · rcases List.mem_cons.mp h with rfl | h
        · exact Nat.le_refl _
        · have hle := ih none (fun a ha => by cases ha) h
          rw [Option.getD_none] at hle
          rw [Option.getD_some]
          omega

/-- Each segment ends before the next one starts. -/
theorem segments_ordered [DecidablePred p] (start : Option ℕ) (hstart : ∀ a, start = some a → a ≤ i) :
    (segments p i start xs).Pairwise fun t u => t.1 + t.2 < u.1 := by
  induction xs generalizing i start with
  | nil => cases start <;> simp [segments]
  | cons x xs ih =>
    cases start with
    | none =>
      rw [segments]
      split
      · exact ih _ fun a ha => by cases ha; omega
      · exact ih _ fun a ha => by cases ha
    | some a =>
      have hai := hstart a rfl
      rw [segments]
      split
      · exact ih _ fun a ha => by cases ha; omega
      · refine List.pairwise_cons.mpr ⟨fun t ht => ?_, ih _ fun a ha => by cases ha⟩
        have hle := le_of_mem_segments none (fun a ha => by cases ha) ht
        rw [Option.getD_none] at hle
        dsimp only
        omega

end EagleOS.Foundations
