import Mathlib.Data.List.Nodup
import Mathlib.Logic.Function.Basic

/-!
# Blocks and who holds them

Blocks are handed out one after the other and deleted again. Holders each keep at most one block; a holder that
takes another block forgets the one that it kept.

## The model

`Ownership` numbers the blocks in the order in which they are handed out, so that a block that is handed out is
new. `Move` is what holders do.

## What is proved

* `Inv.apply` — no block ever has two holders, none is deleted twice, and none that is deleted is held.
* `lost_foldl_iff` — after any moves a block is lost if and only if one of the moves was a leak.
* `all_deleted_iff` — when nobody holds anything, what is not deleted is lost.
-/

namespace EagleOS.Foundations

universe u

/-- Who holds which block. -/
structure Ownership (ι : Type u) where
  /-- The block that a holder keeps. -/
  holds : ι → Option ℕ
  /-- How many blocks have been handed out. -/
  next : ℕ
  /-- The blocks that have been deleted, the last first. -/
  deleted : List ℕ

/-- What holders do. -/
inductive Ownership.Move (ι : Type u) where
  /-- A block is handed out and nobody keeps it. -/
  | spill
  /-- A block is handed out to `i`. -/
  | take (i : ι)
  /-- `i` hands what it holds to `j`. -/
  | give (i j : ι)
  /-- What `i` holds is deleted. -/
  | release (i : ι)

namespace Ownership

variable {ι : Type u}

/-- The blocks after a move. -/
def apply [DecidableEq ι] (o : Ownership ι) : Move ι → Ownership ι
  | .spill => { o with next := o.next + 1 }
  | .take i => { o with holds := Function.update o.holds i (some o.next), next := o.next + 1 }
  | .give i j => { o with holds := Function.update (Function.update o.holds j (o.holds i)) i none }
  | .release i => { o with holds := Function.update o.holds i none, deleted := (o.holds i).toList ++ o.deleted }

/-- What holds after any moves. -/
structure Inv (o : Ownership ι) : Prop where
  /-- What is held has been handed out. -/
  held : ∀ {i b}, o.holds i = some b → b < o.next
  /-- So has what is deleted. -/
  gone : ∀ b ∈ o.deleted, b < o.next
  /-- A block has one holder. -/
  unique : ∀ {i j b}, o.holds i = some b → o.holds j = some b → i = j
  /-- No block is deleted twice. -/
  once : o.deleted.Nodup
  /-- What is held is not deleted. -/
  kept : ∀ {i b}, o.holds i = some b → b ∉ o.deleted

/-- A block has been handed out that is neither held nor deleted. -/
def Lost (o : Ownership ι) : Prop := ∃ b < o.next, b ∉ o.deleted ∧ ∀ i, o.holds i ≠ some b

/-- A move that forgets a block. -/
def Leaks (o : Ownership ι) : Move ι → Prop
  | .spill => True
  | .take i => o.holds i ≠ none
  | .give _ j => o.holds j ≠ none
  | .release _ => False

/-- Nothing has been handed out. -/
def empty : Ownership ι := ⟨fun _ => none, 0, []⟩

theorem inv_empty : Inv (empty : Ownership ι) :=
  ⟨fun h => by simp [empty] at h, fun b hb => by simp [empty] at hb, fun h => by simp [empty] at h, List.nodup_nil,
    fun h => by simp [empty] at h⟩

theorem not_lost_empty : ¬ Lost (empty : Ownership ι) := by
  rintro ⟨b, hb, -⟩
  simp [empty] at hb

/-- When nobody holds anything, everything is deleted if and only if nothing is lost. -/
theorem all_deleted_iff {o : Ownership ι} (hnone : ∀ i, o.holds i = none) :
    (∀ b < o.next, b ∈ o.deleted) ↔ ¬ Lost o := by
  constructor
  · rintro h ⟨b, hb, hgone, -⟩
    exact hgone (h b hb)
  · intro h b hb
    by_contra hgone
    exact h ⟨b, hb, hgone, fun i => by simp [hnone i]⟩

variable [DecidableEq ι]

theorem Inv.spill {o : Ownership ι} (h : Inv o) : Inv (o.apply .spill) := by
  refine ⟨fun hi => ?_, fun b hb => ?_, h.unique, h.once, h.kept⟩
  · exact Nat.lt_succ_of_lt (h.held hi)
  · exact Nat.lt_succ_of_lt (h.gone b hb)

/-- What is held after a block is handed out: the new one by the taker, the others as before. -/
theorem holds_take {o : Ownership ι} {i k : ι} {b : ℕ} (hk : (o.apply (.take i)).holds k = some b) :
    k = i ∧ b = o.next ∨ k ≠ i ∧ o.holds k = some b := by
  simp only [apply, Function.update_apply] at hk
  split at hk
  · rename_i hki
    cases hk
    exact .inl ⟨hki, rfl⟩
  · rename_i hki
    exact .inr ⟨hki, hk⟩

theorem Inv.take {o : Ownership ι} (h : Inv o) (i : ι) : Inv (o.apply (.take i)) := by
  -- nobody holds the new block
  have hnew : ∀ j, o.holds j ≠ some o.next := fun j hj => Nat.lt_irrefl _ (h.held hj)
  refine ⟨fun hj => ?_, fun b hb => Nat.lt_succ_of_lt (h.gone b hb), fun {j k b} hj hk => ?_, h.once, fun hj => ?_⟩
  · rcases holds_take hj with ⟨-, rfl⟩ | ⟨-, hj⟩
    · exact Nat.lt_succ_self _
    · exact Nat.lt_succ_of_lt (h.held hj)
  · rcases holds_take hj with ⟨hji, rfl⟩ | ⟨-, hj⟩ <;> rcases holds_take hk with ⟨hki, hb⟩ | ⟨-, hk⟩
    · rw [hji, hki]
    · exact absurd hk (hnew k)
    · exact absurd (hb ▸ hj) (hnew j)
    · exact h.unique hj hk
  · rcases holds_take hj with ⟨-, rfl⟩ | ⟨-, hj⟩
    · exact fun hb => Nat.lt_irrefl _ (h.gone _ hb)
    · exact h.kept hj

/-- What is held after a block changes hands was held before, by the giver if the taker has it. -/
theorem holds_give {o : Ownership ι} {i j k : ι} {b : ℕ} (hk : (o.apply (.give i j)).holds k = some b) :
    k ≠ i ∧ (k = j ∧ o.holds i = some b ∨ k ≠ j ∧ o.holds k = some b) := by
  simp only [apply, Function.update_apply] at hk
  split at hk
  · cases hk
  · rename_i hki
    refine ⟨hki, ?_⟩
    split at hk
    · rename_i hkj
      exact .inl ⟨hkj, hk⟩
    · rename_i hkj
      exact .inr ⟨hkj, hk⟩

theorem Inv.give {o : Ownership ι} (h : Inv o) (i j : ι) : Inv (o.apply (.give i j)) := by
  refine ⟨fun {k b} hk => ?_, h.gone, fun {k l b} hk hl => ?_, h.once, fun {k b} hk => ?_⟩
  · obtain ⟨-, ⟨-, hi⟩ | ⟨-, hk⟩⟩ := holds_give hk
    · exact h.held hi
    · exact h.held hk
  · obtain ⟨hki, ⟨hkj, hk⟩ | ⟨-, hk⟩⟩ := holds_give hk <;> obtain ⟨hli, ⟨hlj, hl⟩ | ⟨-, hl⟩⟩ := holds_give hl
    · rw [hkj, hlj]
    · exact absurd (h.unique hl hk) hli
    · exact absurd (h.unique hk hl) hki
    · exact h.unique hk hl
  · obtain ⟨-, ⟨-, hi⟩ | ⟨-, hk⟩⟩ := holds_give hk
    · exact h.kept hi
    · exact h.kept hk

/-- What is held after something is deleted was held before. -/
theorem holds_release {o : Ownership ι} {i k : ι} {b : ℕ} (hk : (o.apply (.release i)).holds k = some b) :
    k ≠ i ∧ o.holds k = some b := by
  simp only [apply, Function.update_apply] at hk
  split at hk
  · cases hk
  · rename_i hki
    exact ⟨hki, hk⟩

theorem Inv.release {o : Ownership ι} (h : Inv o) (i : ι) : Inv (o.apply (.release i)) := by
  have hgone : ∀ b, b ∈ (o.apply (.release i)).deleted ↔ o.holds i = some b ∨ b ∈ o.deleted := by
    intro b
    simp [apply]
  refine ⟨fun hk => h.held (holds_release hk).2, fun b hb => ?_, fun hk hl => h.unique (holds_release hk).2 (holds_release hl).2, ?_,
    fun {k b} hk hb => ?_⟩
  · rcases (hgone b).mp hb with hi | hb
    · exact h.held hi
    · exact h.gone b hb
  · cases hi : o.holds i with
    | none => simpa [apply, hi] using h.once
    | some b => simpa [apply, hi] using ⟨h.kept hi, h.once⟩
  · obtain ⟨hki, hk⟩ := holds_release hk
    rcases (hgone b).mp hb with hi | hb
    · exact hki (h.unique hk hi)
    · exact h.kept hk hb

/-- Every move keeps the invariant. -/
theorem Inv.apply {o : Ownership ι} (h : Inv o) (m : Move ι) : Inv (o.apply m) := by
  cases m with
  | spill => exact h.spill
  | take i => exact h.take i
  | give i j => exact h.give i j
  | release i => exact h.release i

/-! ### What is lost -/

/-- What is lost stays lost. -/
theorem Lost.apply {o : Ownership ι} (h : Lost o) (m : Move ι) : Lost (o.apply m) := by
  obtain ⟨b, hb, hgone, hheld⟩ := h
  cases m with
  | spill => exact ⟨b, Nat.lt_succ_of_lt hb, hgone, hheld⟩
  | take i =>
    refine ⟨b, Nat.lt_succ_of_lt hb, hgone, fun k hk => ?_⟩
    rcases holds_take hk with ⟨-, rfl⟩ | ⟨-, hk⟩
    · exact Nat.lt_irrefl _ hb
    · exact hheld k hk
  | give i j =>
    refine ⟨b, hb, hgone, fun k hk => ?_⟩
    obtain ⟨-, ⟨-, hi⟩ | ⟨-, hk⟩⟩ := holds_give hk
    · exact hheld i hi
    · exact hheld k hk
  | release i =>
    refine ⟨b, hb, ?_, fun k hk => hheld k (holds_release hk).2⟩
    simp [Ownership.apply, hgone, hheld i]

/-- A leak loses a block. -/
theorem Leaks.lost {o : Ownership ι} (h : Inv o) {m : Move ι} (hm : o.Leaks m) : Lost (o.apply m) := by
  cases m with
  | spill =>
    exact ⟨o.next, Nat.lt_succ_self _, fun hb => Nat.lt_irrefl _ (h.gone _ hb), fun i hi => Nat.lt_irrefl _ (h.held hi)⟩
  | take i =>
    obtain ⟨b, hi⟩ := Option.ne_none_iff_exists'.mp hm
    refine ⟨b, Nat.lt_succ_of_lt (h.held hi), h.kept hi, fun k hk => ?_⟩
    rcases holds_take hk with ⟨-, rfl⟩ | ⟨hki, hk⟩
    · exact Nat.lt_irrefl _ (h.held hi)
    · exact hki (h.unique hk hi)
  | give i j =>
    obtain ⟨b, hj⟩ := Option.ne_none_iff_exists'.mp hm
    refine ⟨b, h.held hj, h.kept hj, fun k hk => ?_⟩
    obtain ⟨hki, ⟨hkj, hi⟩ | ⟨hkj, hk⟩⟩ := holds_give hk
    · exact hki (hkj.trans (h.unique hj hi))
    · exact hkj (h.unique hk hj)
  | release i => exact absurd hm not_false

/-- A move that is no leak loses nothing. -/
theorem not_lost_apply {o : Ownership ι} {m : Move ι} (hm : ¬ o.Leaks m) (h : ¬ Lost o) : ¬ Lost (o.apply m) := by
  rintro ⟨b, hb, hgone, hheld⟩
  cases m with
  | spill => exact hm trivial
  | take i =>
    rw [Leaks, not_not] at hm
    have hi := hheld i
    simp only [Ownership.apply, Function.update_self, ne_eq, Option.some.injEq] at hb hi
    refine h ⟨b, by omega, hgone, fun k hk => hheld k ?_⟩
    have hki : k ≠ i := by
      rintro rfl
      rw [hm] at hk
      cases hk
    simpa only [Ownership.apply, Function.update_of_ne hki] using hk
  | give i j =>
    rw [Leaks, not_not] at hm
    refine h ⟨b, hb, hgone, fun k hk => ?_⟩
    have hkj : k ≠ j := by
      rintro rfl
      rw [hm] at hk
      cases hk
    -- what the giver held, the taker holds
    by_cases hki : k = i
    · subst hki
      refine hheld j ?_
      simpa only [Ownership.apply, Function.update_of_ne hkj.symm, Function.update_self] using hk
    · refine hheld k ?_
      simpa only [Ownership.apply, Function.update_of_ne hki, Function.update_of_ne hkj] using hk
  | release i =>
    simp only [Ownership.apply, List.mem_append, Option.mem_toList, not_or] at hgone
    refine h ⟨b, hb, hgone.2, fun k hk => ?_⟩
    by_cases hki : k = i
    · exact hgone.1 (hki ▸ hk)
    · refine hheld k ?_
      simpa only [Ownership.apply, Function.update_of_ne hki] using hk

/-- The moves of a list, one after the other, are no leaks. -/
def Thrifty : Ownership ι → List (Move ι) → Prop
  | _, [] => True
  | o, m :: ms => ¬ o.Leaks m ∧ Thrifty (o.apply m) ms

theorem thrifty_append {o : Ownership ι} {ms ns : List (Move ι)} :
    o.Thrifty (ms ++ ns) ↔ o.Thrifty ms ∧ (ms.foldl Ownership.apply o).Thrifty ns := by
  induction ms generalizing o with
  | nil => simp [Thrifty]
  | cons m ms ih => simp only [List.cons_append, Thrifty, ih, List.foldl_cons, and_assoc]

theorem Inv.foldl {o : Ownership ι} (h : Inv o) (moves : List (Move ι)) : Inv (moves.foldl Ownership.apply o) := by
  induction moves generalizing o with
  | nil => exact h
  | cons m moves ih => exact ih (h.apply m)

theorem Lost.foldl {o : Ownership ι} (h : Lost o) (moves : List (Move ι)) : Lost (moves.foldl Ownership.apply o) := by
  induction moves generalizing o with
  | nil => exact h
  | cons m moves ih => exact ih (h.apply m)

/-- **Leaks**: when nothing is lost, something is lost after moves if and only if one of them was a leak. -/
theorem lost_foldl_iff {o : Ownership ι} (h : Inv o) (hlost : ¬ Lost o) (moves : List (Move ι)) :
    Lost (moves.foldl Ownership.apply o) ↔ ¬ o.Thrifty moves := by
  induction moves generalizing o with
  | nil => simpa [Thrifty] using hlost
  | cons m moves ih =>
    rw [List.foldl_cons, Thrifty]
    by_cases hm : o.Leaks m
    · simpa [hm] using (hm.lost h).foldl moves
    · rw [ih (h.apply m) (not_lost_apply hm hlost)]
      simp [hm]

end Ownership

end EagleOS.Foundations
