import Mathlib.Logic.Relation

/-!
# Runs of a labelled step relation

A component is a relation `step s c t`: the call `c` takes the state `s` to the
state `t`. A run is any number of steps. `RunsWhere step ok` keeps only the runs
whose every step meets the condition `ok` on the call and the state before it.

## What is proved

* `RunsWhere.invariant` — what holds at the start and is kept by every step of
  the run holds at its end.
* `RunsWhere.simulation` — if every step is matched by steps of an abstract
  relation, so is every run.
* `runsWhere_of_foldlM` — runs that can be computed.
* `answers_refine` — for a component that answers its calls: if every call is
  answered as an abstract one answers it, so is every list of calls.
* `untilRefused_refine` — the same for calls that are made up to the first one that is refused.
-/

namespace EagleOS.Foundations

open Relation

universe u v w

variable {σ : Type u} {ι : Type v} {α : Type w}

/-- The runs of `step` in which every step meets the condition `ok`. -/
def RunsWhere (step : σ → ι → σ → Prop) (ok : σ → ι → Prop) : σ → σ → Prop :=
  ReflTransGen fun s t => ∃ c, ok s c ∧ step s c t

/-- All runs of `step`. -/
abbrev Runs (step : σ → ι → σ → Prop) : σ → σ → Prop := RunsWhere step fun _ _ => True

variable {step : σ → ι → σ → Prop} {ok : σ → ι → Prop} {s t u : σ} {c : ι}

theorem RunsWhere.refl : RunsWhere step ok s s := ReflTransGen.refl

/-- One more step at the end of a run. -/
theorem RunsWhere.tail (h : RunsWhere step ok s t) (hok : ok t c) (hstep : step t c u) :
    RunsWhere step ok s u :=
  ReflTransGen.tail h ⟨c, hok, hstep⟩

theorem RunsWhere.trans (h : RunsWhere step ok s t) (h' : RunsWhere step ok t u) : RunsWhere step ok s u :=
  ReflTransGen.trans h h'

/-- A run under one condition is a run under a weaker one. -/
theorem RunsWhere.mono {ok' : σ → ι → Prop} (hok : ∀ s c, ok s c → ok' s c) (h : RunsWhere step ok s t) :
    RunsWhere step ok' s t :=
  ReflTransGen.mono (fun _ _ ⟨c, hc, hs⟩ => ⟨c, hok _ c hc, hs⟩) _ _ h

/-- A run of one relation is a run of a larger one. -/
theorem RunsWhere.mono_step {step' : σ → ι → σ → Prop} (hstep : ∀ s c t, step s c t → step' s c t)
    (h : RunsWhere step ok s t) : RunsWhere step' ok s t :=
  ReflTransGen.mono (fun _ _ ⟨c, hc, hs⟩ => ⟨c, hc, hstep _ c _ hs⟩) _ _ h

/-- A run of one step. -/
theorem RunsWhere.single (hok : ok s c) (hstep : step s c t) : RunsWhere step ok s t :=
  RunsWhere.refl.tail hok hstep

/-- **Invariants**: what holds at the start and is kept by every step holds at the end. -/
theorem RunsWhere.invariant {P : σ → Prop} (hkeep : ∀ s c t, P s → ok s c → step s c t → P t)
    (h : RunsWhere step ok s t) (hs : P s) : P t := by
  induction h with
  | refl => exact hs
  | tail _ hlast ih =>
    obtain ⟨c, hok, hstep⟩ := hlast
    exact hkeep _ c _ ih hok hstep

/-- **Simulation**: when related states stay related by matching steps of an
abstract relation, a run is matched by an abstract run. -/
theorem RunsWhere.simulation {R : σ → α → Prop} {astep : α → α → Prop}
    (hsim : ∀ s c t a, R s a → ok s c → step s c t → ∃ b, ReflTransGen astep a b ∧ R t b)
    (h : RunsWhere step ok s t) {a : α} (hs : R s a) : ∃ b, ReflTransGen astep a b ∧ R t b := by
  induction h with
  | refl => exact ⟨a, .refl, hs⟩
  | tail _ hlast ih =>
    obtain ⟨c, hok, hstep⟩ := hlast
    obtain ⟨b, hab, hb⟩ := ih
    obtain ⟨d, hbd, hd⟩ := hsim _ c _ b hb hok hstep
    exact ⟨d, hab.trans hbd, hd⟩

/-- A run that can be computed: steps by a function, under a condition that can be checked. -/
theorem runsWhere_of_foldlM {f : σ → ι → Option σ} {check : σ → ι → Bool} (hcheck : ∀ s c, check s c = true → ok s c)
    (calls : List ι) : ∀ {s t : σ}, calls.foldlM (fun s c => if check s c then f s c else none) s = some t →
      RunsWhere (fun s c t => f s c = some t) ok s t := by
  induction calls with
  | nil =>
    rintro s t h
    cases h
    exact .refl
  | cons c calls ih =>
    intro s t h
    rw [List.foldlM_cons] at h
    obtain ⟨u, hu, hrest⟩ := Option.bind_eq_some_iff.mp h
    split at hu
    · rename_i hc
      exact (RunsWhere.single (hcheck s c hc) hu).trans (ih hrest)
    · cases hu

/-- So can one without a condition. -/
theorem runs_of_foldlM {f : σ → ι → Option σ} (calls : List ι) {s t : σ} (h : calls.foldlM f s = some t) :
    Runs (fun s c t => f s c = some t) s t := by
  have hall : ∀ (_ : σ) (_ : ι), true = true → True := fun _ _ _ => trivial
  exact runsWhere_of_foldlM hall calls (by simpa using h)

/-! ### Calls with answers -/

variable {β : Type*} {τ : Type*}

/-- The answers to a list of calls, and the state after them. -/
def answers (f : σ → ι → β × σ) : σ → List ι → List β × σ
  | s, [] => ([], s)
  | s, c :: cs => ((f s c).1 :: (answers f (f s c).2 cs).1, (answers f (f s c).2 cs).2)

/-- **Refinement**: when related states answer every call alike and stay related, they answer every
list of calls alike. -/
theorem answers_refine {f : σ → ι → β × σ} {g : τ → ι → β × τ} {R : σ → τ → Prop}
    (hsim : ∀ s t c, R s t → (f s c).1 = (g t c).1 ∧ R (f s c).2 (g t c).2) (calls : List ι) :
    ∀ {s : σ} {t : τ}, R s t → (answers f s calls).1 = (answers g t calls).1 ∧
      R (answers f s calls).2 (answers g t calls).2 := by
  induction calls with
  | nil => exact fun h => ⟨rfl, h⟩
  | cons c calls ih =>
    intro s t h
    obtain ⟨hb, hst⟩ := hsim s t c h
    obtain ⟨hbs, hst'⟩ := ih hst
    exact ⟨by rw [answers, answers, hb, hbs], hst'⟩

/-- Calls made one after the other, up to the first that is refused. -/
def untilRefused (f : σ → ι → Bool × σ) : σ → List ι → Bool × σ
  | s, [] => (true, s)
  | s, c :: cs =>
    match f s c with
    | (false, s) => (false, s)
    | (true, s) => untilRefused f s cs

/-- When related states answer every call alike and stay related, they refuse the same call of a list,
and stay related. -/
theorem untilRefused_refine {f : σ → ι → Bool × σ} {g : τ → ι → Bool × τ} {R : σ → τ → Prop}
    (hsim : ∀ s t c, R s t → (f s c).1 = (g t c).1 ∧ R (f s c).2 (g t c).2) (calls : List ι) :
    ∀ {s : σ} {t : τ}, R s t → (untilRefused f s calls).1 = (untilRefused g t calls).1 ∧
      R (untilRefused f s calls).2 (untilRefused g t calls).2 := by
  induction calls with
  | nil => exact fun h => ⟨rfl, h⟩
  | cons c calls ih =>
    intro s t h
    obtain ⟨hb, hst⟩ := hsim s t c h
    unfold untilRefused
    generalize f s c = r at hb hst
    generalize g t c = r' at hb hst
    obtain ⟨b, s'⟩ := r
    obtain ⟨b', t'⟩ := r'
    cases hb
    cases b with
    | false => exact ⟨rfl, hst⟩
    | true => exact ih hst

end EagleOS.Foundations
