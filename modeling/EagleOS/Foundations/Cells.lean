import EagleOS.Foundations.Run
import Mathlib.Data.Set.Lattice
import Mathlib.Order.CompletePartialOrder

/-!
# Cells behind a translation

A memory as its clients see it: some addresses have a cell, and a cell holds a value. What happens to it is a write
to a cell, new cells, or cells that are taken away. A memory with places of its own, and a translation from the
addresses to the places, is such a memory, if different addresses have different places.

## What is proved

* `CellStep.kept`, `kept_of_runs` — a cell changes only if something happens to it.
* `written_of_runs` — what was written to a cell is in it, until something else happens to it.
* `view_write`, `view_give`, `view_take` — what a store to a place, new translations and lost ones do to the cells.
-/

namespace EagleOS.Foundations

variable {α β γ : Type*}

/-- The cells of a memory, each with what it holds. -/
abbrev Cells (α β : Type*) := α → Option β

/-- What happens to a memory. -/
inductive CellEvent (α β : Type*) where
  /-- A value is written to a cell. -/
  | write (a : α) (x : β)
  /-- The addresses of a set get cells. -/
  | give (s : Set α)
  /-- The cells of a set are taken away. -/
  | take (s : Set α)
  /-- Nothing. -/
  | nothing

/-- It happens. Nobody says what a new cell holds. -/
def CellStep (c : Cells α β) : CellEvent α β → Cells α β → Prop
  | .write a x, c' => c a ≠ none ∧ c' a = some x ∧ ∀ b, b ≠ a → c' b = c b
  | .give s, c' => (∀ a ∈ s, c a = none ∧ c' a ≠ none) ∧ ∀ a ∉ s, c' a = c a
  | .take s, c' => (∀ a ∈ s, c a ≠ none ∧ c' a = none) ∧ ∀ a ∉ s, c' a = c a
  | .nothing, c' => c' = c

/-- It happens to this address. -/
def CellEvent.Touches (a : α) : CellEvent α β → Prop
  | .write b _ => a = b
  | .give s => a ∈ s
  | .take s => a ∈ s
  | .nothing => False

variable {c c' : Cells α β} {e : CellEvent α β} {a b : α} {x : β}

/-- A cell to which nothing happens stays as it is. -/
theorem CellStep.kept (h : CellStep c e c') (ha : ¬ e.Touches a) : c' a = c a := by
  cases e with
  | write b x => exact h.2.2 a ha
  | give s => exact h.2 a ha
  | take s => exact h.2 a ha
  | nothing => rw [h]

/-- Over any run. -/
theorem kept_of_runs (h : RunsWhere CellStep (fun _ e => ¬ e.Touches a) c c') : c' a = c a :=
  h.invariant (P := fun d => d a = c a) (fun _ _ _ hd hok hstep => (hstep.kept hok).trans hd) rfl

/-- What was written is read, after any run in which nothing else happens to the cell. -/
theorem written_of_runs {d : Cells α β} (h : CellStep c (.write a x) c')
    (hrun : RunsWhere CellStep (fun _ e => ¬ e.Touches a) c' d) : d a = some x :=
  (kept_of_runs hrun).trans h.2.1

/-! ### Places -/

/-- Different addresses of the set have different places. -/
def OwnPlaces (tr : α → Option γ) (s : Set α) : Prop :=
  ∀ a ∈ s, ∀ b ∈ s, ∀ p, tr a = some p → tr b = some p → a = b

open Classical in
/-- What is seen at the addresses of a set: the values of their places. -/
noncomputable def view (tr : α → Option γ) (s : Set α) (mem : γ → β) : Cells α β :=
  fun a => if a ∈ s then (tr a).map mem else none

variable {tr tr' : α → Option γ} {s t : Set α} {mem mem' : γ → β} {p : γ}

theorem view_of_mem (ha : a ∈ s) (hp : tr a = some p) : view tr s mem a = some (mem p) := by
  rw [view, if_pos ha, hp, Option.map_some]

theorem view_of_notMem (ha : a ∉ s) : view tr s mem a = none := if_neg ha

/-- A cell that is seen has a place. -/
theorem view_ne_none : view tr s mem a ≠ none ↔ a ∈ s ∧ tr a ≠ none := by
  by_cases ha : a ∈ s
  · simp [view, ha]
  · simp [view, ha]

/-- Nothing changes at the places of the addresses. -/
theorem view_congr (htr : ∀ a ∈ s, tr' a = tr a) (hmem : ∀ a ∈ s, ∀ p, tr a = some p → mem' p = mem p) :
    view tr' s mem' = view tr s mem := by
  funext a
  by_cases ha : a ∈ s
  · rw [view, view, if_pos ha, if_pos ha, htr a ha]
    cases hp : tr a with
    | none => rfl
    | some p => rw [Option.map_some, Option.map_some, hmem a ha p hp]
  · rw [view_of_notMem ha, view_of_notMem ha]

/-- A store to the place of an address writes its cell. -/
theorem view_write (hown : OwnPlaces tr s) (ha : a ∈ s) (hp : tr a = some p) (hx : mem' p = x)
    (hmem : ∀ q, q ≠ p → mem' q = mem q) : CellStep (view tr s mem) (.write a x) (view tr s mem') := by
  refine ⟨view_ne_none.mpr ⟨ha, by simp [hp]⟩, by rw [view_of_mem ha hp, hx], fun b hb => ?_⟩
  by_cases hbs : b ∈ s
  · cases hq : tr b with
    | none => rw [view, view, if_pos hbs, if_pos hbs, hq, Option.map_none, Option.map_none]
    | some q =>
      have hne : q ≠ p := by
        rintro rfl
        exact hb (hown b hbs a ha q hq hp)
      rw [view_of_mem hbs hq, view_of_mem hbs hq, hmem q hne]
  · rw [view_of_notMem hbs, view_of_notMem hbs]

/-- Addresses that were not in the set get places. -/
theorem view_give (hst : Disjoint s t) (htr : ∀ a ∈ s, tr' a = tr a) (hmem : ∀ a ∈ s, ∀ p, tr a = some p → mem' p = mem p)
    (hnew : ∀ a ∈ t, tr' a ≠ none) : CellStep (view tr s mem) (.give t) (view tr' (s ∪ t) mem') := by
  refine ⟨fun a ha => ⟨view_of_notMem (Set.disjoint_right.mp hst ha), view_ne_none.mpr ⟨.inr ha, hnew a ha⟩⟩, fun a ha => ?_⟩
  rw [← view_congr htr hmem]
  by_cases has : a ∈ s
  · rw [view, view, if_pos has, if_pos (.inl has)]
  · rw [view_of_notMem has, view_of_notMem fun h => h.elim has ha]

/-- Addresses of the set lose their places. -/
theorem view_take (hts : t ⊆ s) (hold : ∀ a ∈ t, tr a ≠ none) (htr : ∀ a ∈ s \ t, tr' a = tr a)
    (hmem : ∀ a ∈ s \ t, ∀ p, tr a = some p → mem' p = mem p) :
    CellStep (view tr s mem) (.take t) (view tr' (s \ t) mem') := by
  refine ⟨fun a ha => ⟨view_ne_none.mpr ⟨hts ha, hold a ha⟩, view_of_notMem fun h => h.2 ha⟩, fun a ha => ?_⟩
  rw [view_congr htr hmem]
  by_cases has : a ∈ s
  · rw [view, view, if_pos has, if_pos ⟨has, ha⟩]
  · rw [view_of_notMem has, view_of_notMem fun h => has h.1]

end EagleOS.Foundations
