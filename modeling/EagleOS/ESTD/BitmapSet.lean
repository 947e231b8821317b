import Mathlib.Data.Set.Basic
import EagleOS.ESTD.Bitmap

/-!
# `ESTD::Bitmap` as a set of positions

A bitmap of `TSize` bits is there to hold a set of the positions `0;..TSize`. `Set` puts a position into the
set, `Reset` takes it out and `Toggle` does the one or the other; `SetAll` makes the set full and `ResetAll`
makes it empty. A position that is not below `TSize` is to be ignored.

## The model

`BitCall.onBitmap` is what a call does to the bitmap, `BitCall.onSet` is what it is meant to do to the set.
`Represents` says that `Test` answers for every position, also from `TSize` on, as the set does.

The bounds checks of the source compare by `pos > TSize`, so that they let `TSize` itself pass; and `SetAll`
sets one bit in eight. Both keep a bitmap from being the set: `BitCall.Proper` excludes them.

## What is proved

* `BitCall.represents_iff_proper` — one call keeps the bitmap the set, if and only if it is proper.
* `BitCall.run_represents_iff` — so does a sequence of calls.
-/

namespace EagleOS.ESTD

variable {TSize : ℕ}

/-- A call that changes a bitmap. -/
inductive BitCall where
  /-- `Set(pos)`. -/
  | set (pos : ℕ)
  /-- `Reset(pos)`. -/
  | reset (pos : ℕ)
  /-- `Toggle(pos)`. -/
  | toggle (pos : ℕ)
  /-- `SetAll()`. -/
  | setAll
  /-- `ResetAll()`. -/
  | resetAll
  deriving DecidableEq

/-- `Test` answers as the set does. -/
def Bitmap.Represents (bm : Bitmap TSize) (S : Set (Fin TSize)) : Prop :=
  ∀ q, bm.test q = true ↔ ∃ i ∈ S, i.val = q

/-- `Test` also answers for the position `TSize`, which is in no set. -/
theorem Bitmap.represents_iff {bm : Bitmap TSize} {S : Set (Fin TSize)} :
    bm.Represents S ↔ (∀ i : Fin TSize, bm.bit i = true ↔ i ∈ S) ∧ bm.bit TSize = false := by
  constructor
  · intro h
    refine ⟨fun i => ?_, ?_⟩
    · rw [← test_eq_bit (Nat.le_of_lt i.isLt), h i]
      constructor
      · rintro ⟨j, hj, he⟩
        rwa [← Fin.ext he]
      · exact fun hi => ⟨i, hi, rfl⟩
    · rw [← test_eq_bit (Nat.le_refl _), ← Bool.not_eq_true, h TSize]
      rintro ⟨i, -, he⟩
      exact Nat.ne_of_lt i.isLt he
  · rintro ⟨hbit, hend⟩ q
    rcases Nat.lt_trichotomy q TSize with hq | rfl | hq
    · rw [test_eq_bit (Nat.le_of_lt hq), hbit ⟨q, hq⟩]
      constructor
      · exact fun hi => ⟨⟨q, hq⟩, hi, rfl⟩
      · rintro ⟨i, hi, rfl⟩
        exact hi
    · rw [test_eq_bit (Nat.le_refl _), hend]
      refine iff_of_false Bool.false_ne_true ?_
      rintro ⟨i, -, he⟩
      exact Nat.ne_of_lt i.isLt he
    · rw [Bitmap.test, if_pos hq]
      refine iff_of_false Bool.false_ne_true ?_
      rintro ⟨i, -, rfl⟩
      exact Nat.lt_asymm hq i.isLt

namespace BitCall

open Bitmap

/-- What a call does to the bitmap. -/
def onBitmap (bm : Bitmap TSize) : BitCall → Bitmap TSize
  | .set pos => bm.set pos
  | .reset pos => bm.reset pos
  | .toggle pos => bm.toggle pos
  | .setAll => Bitmap.setAll
  | .resetAll => Bitmap.resetAll

/-- What a call is meant to do to the set. -/
def onSet (S : Set (Fin TSize)) : BitCall → Set (Fin TSize)
  | .set pos => {i | i.val = pos ∨ i ∈ S}
  | .reset pos => {i | i.val ≠ pos ∧ i ∈ S}
  | .toggle pos => {i | i.val = pos ∧ i ∉ S ∨ i.val ≠ pos ∧ i ∈ S}
  | .setAll => Set.univ
  | .resetAll => ∅

/-- Neither the position `TSize` is put into the set, nor are all positions of a set of more than one. -/
def Proper (TSize : ℕ) : BitCall → Prop
  | .set pos => pos ≠ TSize
  | .reset _ => True
  | .toggle pos => pos ≠ TSize
  | .setAll => TSize = 1
  | .resetAll => True

variable {bm : Bitmap TSize} {S : Set (Fin TSize)}

/-- A position past the end is ignored, by the call and by the set. -/
theorem onSet_of_lt {pos : ℕ} (h : TSize ≤ pos) :
    onSet S (.set pos) = S ∧ onSet S (.reset pos) = S ∧ onSet S (.toggle pos) = S := by
  have hne : ∀ i : Fin TSize, i.val ≠ pos := fun i => Nat.ne_of_lt (Nat.lt_of_lt_of_le i.isLt h)
  refine ⟨?_, ?_, ?_⟩ <;> ext i <;> simp [onSet, hne i]

/-- A change of the one bit, to the bitmap and to the set: they agree if it leaves the bit past the end unset. -/
theorem represents_change {bm' : Bitmap TSize} {S' : Set (Fin TSize)} {pos : ℕ} {g : Bool → Bool → Bool}
    (hbit' : ∀ i, bm'.bit i = g (decide (i = pos)) (bm.bit i))
    (hmem : ∀ i : Fin TSize, i ∈ S' ↔ g (decide (i.val = pos)) (bm.bit i) = true) :
    bm'.Represents S' ↔ g (decide (TSize = pos)) (bm.bit TSize) = false := by
  rw [represents_iff, hbit']
  refine and_iff_right fun i => ?_
  rw [hbit', hmem]

/-- One call keeps the bitmap the set if and only if it is proper. -/
theorem represents_iff_proper (hT : 1 ≤ TSize) (h : bm.Represents S) (c : BitCall) :
    (c.onBitmap bm).Represents (c.onSet S) ↔ c.Proper TSize := by
  have hrep := h
  rw [represents_iff] at h
  obtain ⟨hbit, hend⟩ := h
  cases c with
  | set pos =>
    by_cases hpos : TSize < pos
    · rw [onBitmap, Bitmap.set, if_pos hpos, (onSet_of_lt (Nat.le_of_lt hpos)).1]
      exact iff_of_true hrep (Nat.ne_of_gt hpos)
    · rw [onBitmap, represents_change (g := fun m b => m || b) (bit_set_of_le hT (Nat.le_of_not_lt hpos)) fun i => ?_]
      · rw [hend, Bool.or_false, decide_eq_false_iff_not, Proper, ne_comm]
      · rw [Bool.or_eq_true, decide_eq_true_iff, hbit]
        rfl
  | reset pos =>
    by_cases hpos : TSize < pos
    · rw [onBitmap, Bitmap.reset, if_pos hpos, (onSet_of_lt (Nat.le_of_lt hpos)).2.1]
      exact iff_of_true hrep trivial
    · rw [onBitmap, represents_change (g := fun m b => !m && b) (bit_reset_of_le hT (Nat.le_of_not_lt hpos)) fun i => ?_]
      · rw [hend, Bool.and_false]
        exact iff_of_true rfl trivial
      · rw [Bool.and_eq_true, Bool.not_eq_true', decide_eq_false_iff_not, hbit]
        rfl
  | toggle pos =>
    by_cases hpos : TSize < pos
    · rw [onBitmap, Bitmap.toggle, if_pos hpos, (onSet_of_lt (Nat.le_of_lt hpos)).2.2]
      exact iff_of_true hrep (Nat.ne_of_gt hpos)
    · rw [onBitmap, represents_change (g := fun m b => m ^^ b) (bit_toggle_of_le hT (Nat.le_of_not_lt hpos)) fun i => ?_]
      · rw [hend, Bool.xor_false, decide_eq_false_iff_not, Proper, ne_comm]
      · rw [onSet, Set.mem_ofPred_eq, ← hbit]
        by_cases he : i.val = pos <;> simp [he]
  | setAll =>
    rw [represents_iff, onBitmap, bit_setAll, Proper]
    constructor
    · rintro ⟨hall, -⟩
      -- the second bit of the first byte is not set
      by_contra hne
      have hone := (hall ⟨1, by omega⟩).mpr (Set.mem_univ _)
      rw [bit_setAll] at hone
      simp at hone
    · rintro rfl
      refine ⟨fun i => ?_, by decide⟩
      rw [bit_setAll, show i.val = 0 by omega]
      exact iff_of_true (by decide) (Set.mem_univ i)
  | resetAll =>
    rw [represents_iff, onBitmap, bit_resetAll]
    refine iff_of_true ⟨fun i => ?_, rfl⟩ trivial
    rw [bit_resetAll]
    exact iff_of_false Bool.false_ne_true (Set.notMem_empty i)

/-- **The bitmap is a set of positions**: from a bitmap that is a set, it is the set that the calls make after
every one of them, if and only if all calls are proper. -/
theorem run_represents_iff (hT : 1 ≤ TSize) (h : bm.Represents S) (calls : List BitCall) :
    (∀ made, made <+: calls → (made.foldl onBitmap bm).Represents (made.foldl onSet S)) ↔
      ∀ c ∈ calls, c.Proper TSize := by
  induction calls generalizing bm S with
  | nil =>
    refine iff_of_true (fun made hmade => ?_) fun c hc => absurd hc List.not_mem_nil
    rw [List.prefix_nil.mp hmade]
    exact h
  | cons c calls ih =>
    constructor
    · intro hmade
      have hc : (c.onBitmap bm).Represents (c.onSet S) := hmade [c] (List.prefix_append [c] calls)
      have hrest := (ih hc).mp fun made hm => hmade (c :: made) (List.cons_prefix_cons.mpr ⟨rfl, hm⟩)
      exact List.forall_mem_cons.mpr ⟨(represents_iff_proper hT h c).mp hc, hrest⟩
    · intro hproper made hmade
      obtain ⟨hc, hrest⟩ := List.forall_mem_cons.mp hproper
      cases made with
      | nil => exact h
      | cons d made =>
        obtain ⟨rfl, hm⟩ := List.cons_prefix_cons.mp hmade
        exact (ih ((represents_iff_proper hT h d).mpr hc)).mpr hrest made hm

/-- An empty bitmap is the empty set. -/
theorem represents_resetAll : (Bitmap.resetAll : Bitmap TSize).Represents ∅ :=
  represents_iff.mpr ⟨fun i => by simp [bit_resetAll], bit_resetAll TSize⟩

/-- Of eight positions two are put in, and one of them is toggled. -/
theorem run_represents_eight :
    ([.set 3, .set 5, .toggle 3, .set 9].foldl onBitmap (Bitmap.resetAll : Bitmap 8)).Represents
      ([.set 3, .set 5, .toggle 3, .set 9].foldl onSet ∅) :=
  (run_represents_iff (by decide) represents_resetAll _).mpr (by simp [Proper]) _ List.prefix_rfl

/-- `SetAll` leaves the position `1` out, and `Set(8)` makes `Test(8)` true. -/
theorem run_not_represents :
    ((Bitmap.resetAll : Bitmap 8).test 1 = false ∧ (onBitmap (Bitmap.resetAll : Bitmap 8) .setAll).test 1 = false ∧
        ¬ (onBitmap (Bitmap.resetAll : Bitmap 8) .setAll).Represents (onSet ∅ .setAll)) ∧
      (onBitmap (Bitmap.resetAll : Bitmap 8) (.set 8)).test 8 = true ∧
        ¬ (onBitmap (Bitmap.resetAll : Bitmap 8) (.set 8)).Represents (onSet ∅ (.set 8)) := by
  refine ⟨⟨by decide, by decide, fun h => ?_⟩, by decide, fun h => ?_⟩
  · have hone := (h 1).mpr ⟨1, Set.mem_univ _, rfl⟩
    exact absurd hone (by decide)
  · obtain ⟨i, -, hi⟩ := (h 8).mp (by decide)
    omega

end BitCall

end EagleOS.ESTD
