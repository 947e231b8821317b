import Mathlib.Tactic.Common

/-!
# Blocks one after the other

A list of blocks tiles an interval when the first starts where the interval does, each starts where the
one before it ends, and the last ends where the interval does. Where a block starts and how long it is
may be read from anything.

## What is proved

* `Tiles.within`, `Tiles.apart` — blocks of a tiling lie in its interval, and do not overlap.
* `Tiles.next` — where a block ends another one starts, or the interval ends.
* `Tiles.concat`, `Tiles.congr` — one more block at the end; other lengths that are the same.
* `Tiles.append_iff`, `Tiles.around` — a tiling in two parts, and around a block.
* `Tiles.infix_iff` — which blocks come one after the other.
* `Tiles.length_le` — blocks of some least length are not many.
-/

namespace EagleOS.Foundations

universe u

variable {β : Type u}

/-- The blocks lie one after the other from `lo` to `hi`. -/
def Tiles (start extent : β → ℕ) : ℕ → List β → ℕ → Prop
  | lo, [], hi => lo = hi
  | lo, b :: blocks, hi => start b = lo ∧ Tiles start extent (lo + extent b) blocks hi

variable {start extent extent' : β → ℕ} {blocks : List β} {lo hi : ℕ} {b c : β}

/-- A block of a tiling lies in its interval. -/
theorem Tiles.within (h : Tiles start extent lo blocks hi) (hb : b ∈ blocks) :
    lo ≤ start b ∧ start b + extent b ≤ hi := by
  have hle : ∀ {lo : ℕ} {blocks : List β}, Tiles start extent lo blocks hi → lo ≤ hi := by
    intro lo blocks h
    induction blocks generalizing lo with
    | nil => exact Nat.le_of_eq h
    | cons b blocks ih => exact Nat.le_trans (Nat.le_add_right _ _) (ih h.2)
  induction blocks generalizing lo with
  | nil => exact absurd hb List.not_mem_nil
  | cons d blocks ih =>
    obtain ⟨hd, hrest⟩ := h
    rcases List.mem_cons.mp hb with rfl | hb
    · exact ⟨Nat.le_of_eq hd.symm, by rw [hd]; exact hle hrest⟩
    · obtain ⟨hlo, hhi⟩ := ih hrest hb
      exact ⟨by omega, hhi⟩

/-- Two blocks of a tiling do not overlap. -/
theorem Tiles.apart (h : Tiles start extent lo blocks hi) (hb : b ∈ blocks) (hc : c ∈ blocks) (hne : b ≠ c) :
    start b + extent b ≤ start c ∨ start c + extent c ≤ start b := by
  induction blocks generalizing lo with
  | nil => exact absurd hb List.not_mem_nil
  | cons d blocks ih =>
    obtain ⟨hd, hrest⟩ := h
    rcases List.mem_cons.mp hb with rfl | hb' <;> rcases List.mem_cons.mp hc with rfl | hc'
    · exact absurd rfl hne
    · exact .inl (by rw [hd]; exact (hrest.within hc').1)
    · exact .inr (by rw [hd]; exact (hrest.within hb').1)
    · exact ih hrest hb' hc'

/-- Where a block ends another one starts, or the interval ends. -/
theorem Tiles.next (h : Tiles start extent lo blocks hi) (hb : b ∈ blocks) :
    start b + extent b = hi ∨ ∃ c ∈ blocks, start c = start b + extent b := by
  induction blocks generalizing lo with
  | nil => exact absurd hb List.not_mem_nil
  | cons d blocks ih =>
    obtain ⟨hd, hrest⟩ := h
    rcases List.mem_cons.mp hb with rfl | hb
    · rw [hd]
      cases blocks with
      | nil => exact .inl hrest
      | cons c blocks => exact .inr ⟨c, List.mem_cons_of_mem _ List.mem_cons_self, hrest.1⟩
    · rcases ih hrest hb with he | ⟨c, hc, he⟩
      · exact .inl he
      · exact .inr ⟨c, List.mem_cons_of_mem _ hc, he⟩

/-- One more block at the end. -/
theorem Tiles.concat (h : Tiles start extent lo blocks hi) (hb : start b = hi) :
    Tiles start extent lo (blocks ++ [b]) (hi + extent b) := by
  induction blocks generalizing lo with
  | nil => exact ⟨hb.trans (Eq.symm h), by rw [show lo = hi from h]; rfl⟩
  | cons d blocks ih => exact ⟨h.1, ih h.2⟩

/-- The same blocks, by lengths that are the same. -/
theorem Tiles.congr (he : ∀ b ∈ blocks, extent' b = extent b) (h : Tiles start extent lo blocks hi) :
    Tiles start extent' lo blocks hi := by
  induction blocks generalizing lo with
  | nil => exact h
  | cons d blocks ih =>
    refine ⟨h.1, ?_⟩
    rw [he d List.mem_cons_self]
    exact ih (fun b hb => he b (List.mem_cons_of_mem _ hb)) h.2

/-- A tiling in two parts. -/
theorem Tiles.append_iff {before after : List β} : Tiles start extent lo (before ++ after) hi ↔
    ∃ mid, Tiles start extent lo before mid ∧ Tiles start extent mid after hi := by
  induction before generalizing lo with
  | nil =>
    constructor
    · exact fun h => ⟨lo, rfl, h⟩
    · rintro ⟨mid, rfl, h⟩
      exact h
  | cons d before ih =>
    constructor
    · rintro ⟨hd, h⟩
      obtain ⟨mid, hbefore, hafter⟩ := ih.mp h
      exact ⟨mid, ⟨hd, hbefore⟩, hafter⟩
    · rintro ⟨mid, ⟨hd, hbefore⟩, hafter⟩
      exact ⟨hd, ih.mpr ⟨mid, hbefore, hafter⟩⟩

/-- Around a block the others lie before its start, and from its end on. -/
theorem Tiles.around {before after : List β} (h : Tiles start extent lo (before ++ b :: after) hi) :
    (∀ c ∈ before, start c + extent c ≤ start b) ∧ ∀ c ∈ after, start b + extent b ≤ start c := by
  obtain ⟨mid, hbefore, hb, hafter⟩ := Tiles.append_iff.mp h
  rw [hb]
  exact ⟨fun c hc => (hbefore.within hc).2, fun c hc => (hafter.within hc).1⟩

/-- Blocks that are not empty are all different. -/
theorem Tiles.nodup (hpos : ∀ b ∈ blocks, 0 < extent b) (h : Tiles start extent lo blocks hi) : blocks.Nodup := by
  induction blocks generalizing lo with
  | nil => exact List.nodup_nil
  | cons d blocks ih =>
    obtain ⟨hd, hrest⟩ := h
    refine List.nodup_cons.mpr ⟨fun hmem => ?_, ih (fun b hb => hpos b (List.mem_cons_of_mem _ hb)) hrest⟩
    have hlo := (hrest.within hmem).1
    have hdpos := hpos d List.mem_cons_self
    omega

/-- Of two blocks that come one after the other the second starts where the first ends. -/
theorem Tiles.infix_iff (hpos : ∀ b ∈ blocks, 0 < extent b) (h : Tiles start extent lo blocks hi) (hb : b ∈ blocks)
    (hc : c ∈ blocks) : [b, c] <:+: blocks ↔ start b + extent b = start c := by
  constructor
  · rintro ⟨before, after, rfl⟩
    rw [List.append_assoc] at h
    obtain ⟨mid, -, hd, hafter⟩ := Tiles.append_iff.mp h
    rw [hd]
    exact hafter.1.symm
  · intro he
    have hcpos := hpos c hc
    have hcle := (h.within hc).2
    obtain ⟨before, after, rfl⟩ := List.append_of_mem hb
    obtain ⟨mid, -, hd, hafter⟩ := Tiles.append_iff.mp h
    cases after with
    | nil =>
      have hend : mid + extent b = hi := hafter
      omega
    | cons d after =>
      -- what comes after the first block starts where the second does, so they are one
      have hstart : start d = mid + extent b := hafter.1
      have hdpos := hpos d (by simp)
      by_cases hne : d = c
      · exact ⟨before, after, by simp [hne]⟩
      · have hapart := h.apart (b := d) (by simp) hc hne
        omega

/-- Blocks of some least length are not many. -/
theorem Tiles.length_le {k : ℕ} (hk : ∀ b ∈ blocks, k ≤ extent b) (h : Tiles start extent lo blocks hi) :
    lo + k * blocks.length ≤ hi := by
  induction blocks generalizing lo with
  | nil => exact Nat.le_of_eq h
  | cons d blocks ih =>
    have hrest := ih (fun b hb => hk b (List.mem_cons_of_mem _ hb)) h.2
    have hd := hk d List.mem_cons_self
    rw [List.length_cons, Nat.mul_succ]
    omega

end EagleOS.Foundations
