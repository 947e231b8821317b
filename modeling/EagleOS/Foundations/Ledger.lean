import Mathlib.Data.Set.Lattice
import Mathlib.Data.List.Perm.Basic
import Mathlib.Logic.Relation
import Mathlib.Order.CompletePartialOrder
import Mathlib.Order.Interval.Set.Basic

/-!
# A ledger of ranges

What a page allocator is for, without its data structure: a set of used
positions and a list of the ranges that have been handed out and not given back.
A range may be taken when none of its positions is used; it is given back once;
and positions may be withdrawn from circulation without being handed out.

## What is proved

* `Ledger.Inv.step` — ranges in the list stay apart from each other and from the
  positions used at the start, which stay used.
* `Ledger.used_eq_base` — while nothing is withdrawn, the used positions are those
  of the start and those of the ranges in the list (`Ledger.Exact`), so that when
  every range has been given back the used positions are those of the start.
-/

namespace EagleOS.Foundations

open Relation

/-- The positions of a range, given by its first position and its length. -/
def cells (r : ℕ × ℕ) : Set ℕ := {i | r.1 ≤ i ∧ i < r.1 + r.2}

@[simp] theorem mem_cells {r : ℕ × ℕ} {i : ℕ} : i ∈ cells r ↔ r.1 ≤ i ∧ i < r.1 + r.2 := Iff.rfl

/-- The used positions, and the ranges handed out. -/
structure Ledger where
  /-- The positions in use. -/
  used : Set ℕ
  /-- The ranges handed out and not given back. -/
  live : List (ℕ × ℕ)

/-- A range is handed out or given back. -/
inductive Ledger.Exchange : Ledger → Ledger → Prop
  /-- A range of unused positions is handed out. -/
  | take {l : Ledger} {r : ℕ × ℕ} : Disjoint (cells r) l.used →
      Ledger.Exchange l ⟨l.used ∪ cells r, r :: l.live⟩
  /-- A range is given back. -/
  | release {l : Ledger} {r : ℕ × ℕ} {live : List (ℕ × ℕ)} : l.live.Perm (r :: live) →
      Ledger.Exchange l ⟨l.used \ cells r, live⟩

/-- What may happen to a ledger. -/
inductive Ledger.Step : Ledger → Ledger → Prop
  /-- A range is handed out or given back. -/
  | exchange {l l' : Ledger} : Ledger.Exchange l l' → Ledger.Step l l'
  /-- Unused positions are withdrawn, and nobody is given them. -/
  | withdraw {l : Ledger} {r : ℕ × ℕ} : Disjoint (cells r) l.used →
      Ledger.Step l ⟨l.used ∪ cells r, l.live⟩

/-- What holds of every ledger that started with the positions `base` in use. -/
structure Ledger.Inv (base : Set ℕ) (l : Ledger) : Prop where
  /-- What was in use stays in use. -/
  base_used : base ⊆ l.used
  /-- A range handed out is in use. -/
  live_used : ∀ r ∈ l.live, cells r ⊆ l.used
  /-- No range handed out meets what was in use. -/
  live_base : ∀ r ∈ l.live, Disjoint (cells r) base
  /-- No two ranges handed out meet. -/
  apart : l.live.Pairwise fun r s => Disjoint (cells r) (cells s)

/-- Nothing is in use but what was at the start and what is handed out. -/
def Ledger.Exact (base : Set ℕ) (l : Ledger) : Prop := ∀ i ∈ l.used, i ∈ base ∨ ∃ r ∈ l.live, i ∈ cells r

theorem Ledger.inv_init (base : Set ℕ) : Ledger.Inv base ⟨base, []⟩ :=
  ⟨subset_rfl, by simp, by simp, List.Pairwise.nil⟩

theorem Ledger.exact_init (base : Set ℕ) : Ledger.Exact base ⟨base, []⟩ := fun _ hi => .inl hi

/-- Of ranges that are pairwise apart, the first of a reordering is apart from the rest. -/
theorem apart_of_perm {l l' : List (ℕ × ℕ)} {r : ℕ × ℕ} (hp : l.Perm (r :: l'))
    (h : l.Pairwise fun r s => Disjoint (cells r) (cells s)) :
    (∀ s ∈ l', Disjoint (cells r) (cells s)) ∧ l'.Pairwise fun r s => Disjoint (cells r) (cells s) :=
  List.pairwise_cons.mp ((hp.pairwise_iff fun h => h.symm).mp h)

/-- The invariant is kept when a range is handed out or given back. -/
theorem Ledger.Inv.exchange {base : Set ℕ} {l l' : Ledger} (h : Ledger.Inv base l)
    (hs : Ledger.Exchange l l') : Ledger.Inv base l' := by
  cases hs with
  | @take r hr =>
    have hlive : ∀ s ∈ l.live, Disjoint (cells r) (cells s) := fun s hs => hr.mono_right (h.live_used s hs)
    refine ⟨h.base_used.trans Set.subset_union_left, ?_, ?_, List.pairwise_cons.mpr ⟨hlive, h.apart⟩⟩
    · intro s hs
      rcases List.mem_cons.mp hs with rfl | hs
      · exact Set.subset_union_right
      · exact (h.live_used s hs).trans Set.subset_union_left
    · intro s hs
      rcases List.mem_cons.mp hs with rfl | hs
      · exact hr.mono_right h.base_used
      · exact h.live_base s hs
  | @release r live hp =>
    obtain ⟨hr, hlive⟩ := apart_of_perm hp h.apart
    have hmem : ∀ s ∈ live, s ∈ l.live := fun s hs => hp.symm.subset (List.mem_cons_of_mem _ hs)
    have hrl : r ∈ l.live := hp.symm.subset List.mem_cons_self
    refine ⟨?_, ?_, fun s hs => h.live_base s (hmem s hs), hlive⟩
    · exact fun i hi => ⟨h.base_used hi, fun hir => Set.disjoint_left.mp (h.live_base r hrl) hir hi⟩
    · exact fun s hs i hi => ⟨h.live_used s (hmem s hs) hi, fun hir => Set.disjoint_left.mp (hr s hs) hir hi⟩

/-- The invariant is kept by every step. -/
theorem Ledger.Inv.step {base : Set ℕ} {l l' : Ledger} (h : Ledger.Inv base l) (hs : Ledger.Step l l') :
    Ledger.Inv base l' := by
  cases hs with
  | exchange hx => exact h.exchange hx
  | withdraw hr =>
    exact ⟨h.base_used.trans Set.subset_union_left,
      fun s hs => (h.live_used s hs).trans Set.subset_union_left, h.live_base, h.apart⟩

/-- The invariant holds after every run. -/
theorem Ledger.Inv.run {base : Set ℕ} {l l' : Ledger} (h : Ledger.Inv base l)
    (hs : ReflTransGen Ledger.Step l l') : Ledger.Inv base l' := by
  induction hs with
  | refl => exact h
  | tail _ hlast ih => exact ih.step hlast

/-- The account stays exact when a range is handed out or given back. -/
theorem Ledger.Exact.exchange {base : Set ℕ} {l l' : Ledger} (h : Ledger.Exact base l)
    (hs : Ledger.Exchange l l') : Ledger.Exact base l' := by
  cases hs with
  | @take r hr =>
    rintro i (hi | hi)
    · rcases h i hi with hb | ⟨s, hs, his⟩
      · exact .inl hb
      · exact .inr ⟨s, List.mem_cons_of_mem _ hs, his⟩
    · exact .inr ⟨r, List.mem_cons_self, hi⟩
  | @release r live hp =>
    rintro i ⟨hi, hir⟩
    rcases h i hi with hb | ⟨s, hs, his⟩
    · exact .inl hb
    · rcases List.mem_cons.mp (hp.subset hs) with rfl | hs
      · exact absurd his hir
      · exact .inr ⟨s, hs, his⟩

/-- While ranges are only handed out and given back, the account is exact. -/
theorem Ledger.exact_run {base : Set ℕ} {l : Ledger} (h : ReflTransGen Ledger.Exchange ⟨base, []⟩ l) :
    Ledger.Inv base l ∧ Ledger.Exact base l := by
  induction h with
  | refl => exact ⟨Ledger.inv_init base, Ledger.exact_init base⟩
  | tail _ hlast ih => exact ⟨ih.1.exchange hlast, ih.2.exchange hlast⟩

/-- **Conservation**: when every range has been given back and nothing was withdrawn,
what is in use is what was in use at the start. -/
theorem Ledger.used_eq_base {base : Set ℕ} {l : Ledger} (h : ReflTransGen Ledger.Exchange ⟨base, []⟩ l)
    (hl : l.live = []) : l.used = base := by
  obtain ⟨hinv, hexact⟩ := Ledger.exact_run h
  refine Set.Subset.antisymm (fun i hi => ?_) hinv.base_used
  rcases hexact i hi with hb | ⟨r, hr, -⟩
  · exact hb
  · simp [hl] at hr

end EagleOS.Foundations
