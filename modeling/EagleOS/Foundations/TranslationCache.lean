import Mathlib.Data.Set.Insert
import Mathlib.Logic.Relation

/-!
# A cache of translations

A memory `M` in which a `walk` finds the translation of a page, and a cache of translations that the
hardware fills behind the program's back: between any two events of the program it may cache what the
walk finds at that moment. The program's events are its stores to the memory, the invalidation of one
page in the cache, and the release of pages to somebody else.

## What is proved

`Careful` is a discipline for the sequence of events of a program: a store either keeps every
translation that exists, or changes those of one page, which is invalidated next; and pages are
released only when they are `unused` in the memory, and the walk finds nothing for them.

* `Careful.safe` — what the discipline buys, for every interleaving with the hardware: if the cache
  agreed with the memory before the events, it does so after them, and no released page is cached.
* `Config.finishes` — the events can always all happen.
-/

namespace EagleOS.Foundations

open Relation

universe u v w

variable {M : Type u} {P : Type v} {T : Type w}

/-- What a program does that the cache depends on. -/
inductive Event (M : Type u) (P : Type v) where
  /-- A store to the memory. -/
  | store (f : M → M)
  /-- One page is removed from the cache. -/
  | invalidate (page : P)
  /-- Pages are released. -/
  | release (pages : Set P)

/-- The memory, the cache, and the events that are still to come. -/
structure Config (M : Type u) (P : Type v) (T : Type w) where
  /-- The memory. -/
  mem : M
  /-- The cached translations. -/
  cached : Set (P × T)
  /-- The program's remaining events. -/
  rest : List (Event M P)

/-- The hardware fills the cache, or the next event happens. -/
inductive Config.Step (walk : M → P → Option T) : Config M P T → Config M P T → Prop
  /-- The hardware caches a translation that the walk finds. -/
  | fill {m : M} {cached : Set (P × T)} {rest : List (Event M P)} {p : P} {t : T} : walk m p = some t →
      Config.Step walk ⟨m, cached, rest⟩ ⟨m, insert (p, t) cached, rest⟩
  /-- A store. -/
  | store {m : M} {cached : Set (P × T)} {rest : List (Event M P)} {f : M → M} :
      Config.Step walk ⟨m, cached, .store f :: rest⟩ ⟨f m, cached, rest⟩
  /-- An invalidation. -/
  | invalidate {m : M} {cached : Set (P × T)} {rest : List (Event M P)} {p : P} :
      Config.Step walk ⟨m, cached, .invalidate p :: rest⟩ ⟨m, {e ∈ cached | e.1 ≠ p}, rest⟩
  /-- A release. -/
  | release {m : M} {cached : Set (P × T)} {rest : List (Event M P)} {pages : Set P} :
      Config.Step walk ⟨m, cached, .release pages :: rest⟩ ⟨m, cached, rest⟩

/-- Every cached translation is the one the walk finds. -/
def Consistent (walk : M → P → Option T) (m : M) (cached : Set (P × T)) : Prop :=
  ∀ e ∈ cached, walk m e.1 = some e.2

/-- The events of a careful program take the memory `m` to `m'`. -/
inductive Careful (walk : M → P → Option T) (unused : M → P → Prop) : M → List (Event M P) → M → Prop
  /-- No more events. -/
  | done {m : M} : Careful walk unused m [] m
  /-- A store that keeps every translation. -/
  | publish {m m' : M} {f : M → M} {rest : List (Event M P)} :
      (∀ p t, walk m p = some t → walk (f m) p = some t) → Careful walk unused (f m) rest m' →
      Careful walk unused m (.store f :: rest) m'
  /-- A store that keeps every translation but those of one page, which is invalidated next. -/
  | retire {m m' : M} {f : M → M} {p : P} {rest : List (Event M P)} :
      (∀ q t, q ≠ p → walk m q = some t → walk (f m) q = some t) → Careful walk unused (f m) rest m' →
      Careful walk unused m (.store f :: .invalidate p :: rest) m'
  /-- Unused pages without a translation are released. -/
  | release {m m' : M} {pages : Set P} {rest : List (Event M P)} :
      (∀ p ∈ pages, unused m p ∧ walk m p = none) → Careful walk unused m rest m' →
      Careful walk unused m (.release pages :: rest) m'

variable {walk : M → P → Option T} {unused : M → P → Prop}

theorem Careful.append {m m' m'' : M} {es es' : List (Event M P)} (h : Careful walk unused m es m')
    (h' : Careful walk unused m' es' m'') : Careful walk unused m (es ++ es') m'' := by
  induction h with
  | done => exact h'
  | publish hk _ ih => exact .publish hk (ih h')
  | retire hk _ ih => exact .retire hk (ih h')
  | release hk _ ih => exact .release hk (ih h')

/-- What holds of every configuration that a careful program reaches: the cache agrees with the memory,
but for one page when that page is about to be invalidated. -/
inductive Config.Inv (walk : M → P → Option T) (unused : M → P → Prop) (m' : M) (c : Config M P T) : Prop
  /-- The cache agrees with the memory. -/
  | consistent : Careful walk unused c.mem c.rest m' → Consistent walk c.mem c.cached → Config.Inv walk unused m' c
  /-- It does so but for the page that is invalidated next. -/
  | stale {p : P} {rest : List (Event M P)} : c.rest = .invalidate p :: rest → Careful walk unused c.mem rest m' →
      (∀ e ∈ c.cached, e.1 ≠ p → walk c.mem e.1 = some e.2) → Config.Inv walk unused m' c

theorem Config.Inv.step {m' : M} {c d : Config M P T} (h : Config.Inv walk unused m' c) (hs : Config.Step walk c d) :
    Config.Inv walk unused m' d := by
  cases h with
  | consistent hcare hcons =>
    cases hs with
    | fill hw => exact .consistent hcare (by rintro e (rfl | he); exacts [hw, hcons e he])
    | store =>
      cases hcare with
      | publish hk hrest => exact .consistent hrest fun e he => hk _ _ (hcons e he)
      | retire hk hrest => exact .stale rfl hrest fun e he hne => hk _ _ hne (hcons e he)
    | invalidate => nomatch hcare
    | release =>
      cases hcare with
      | release _ hrest => exact .consistent hrest hcons
  | stale hnext hcare hcons =>
    cases hs with
    | fill hw => exact .stale hnext hcare (by rintro e (rfl | he); exacts [fun _ => hw, hcons e he])
    | invalidate =>
      cases hnext
      exact .consistent hcare fun e he => hcons e he.1 he.2
    | store => nomatch hnext
    | release => nomatch hnext

/-- **Careful programs keep the cache**: whatever the hardware caches in between, when the events are
over the memory is as the program left it and the cache agrees with it; and when pages are released they
are unused, and none of them is cached. -/
theorem Careful.safe {m m' : M} {es : List (Event M P)} (h : Careful walk unused m es m') {cached : Set (P × T)}
    (hc : Consistent walk m cached) {c : Config M P T}
    (hrun : ReflTransGen (Config.Step walk) ⟨m, cached, es⟩ c) :
    (c.rest = [] → c.mem = m' ∧ Consistent walk c.mem c.cached) ∧
      ∀ pages rest, c.rest = .release pages :: rest → ∀ p ∈ pages, unused c.mem p ∧ ∀ t, (p, t) ∉ c.cached := by
  have hinv : Config.Inv walk unused m' c := by
    induction hrun with
    | refl => exact .consistent h hc
    | tail _ hlast ih => exact ih.step hlast
  obtain ⟨mem, cached, rest⟩ := c
  cases hinv with
  | consistent hcare hcons =>
    refine ⟨?_, ?_⟩
    · rintro rfl
      cases hcare
      exact ⟨rfl, hcons⟩
    · rintro pages rest rfl p hp
      cases hcare with
      | release hfree _ =>
        refine ⟨(hfree p hp).1, fun t ht => ?_⟩
        have hsome : walk mem p = some t := hcons (p, t) ht
        exact absurd ((hfree p hp).2.symm.trans hsome) (by simp)
  | stale hnext _ _ =>
    exact ⟨fun h => absurd (hnext.symm.trans h) (by simp), fun _ _ h => absurd (hnext.symm.trans h) (by simp)⟩

/-- The events can all happen, and what was cached before may be gone. -/
theorem Config.finishes (walk : M → P → Option T) (es : List (Event M P)) :
    ∀ (m : M) (cached : Set (P × T)), ∃ m' cached', cached' ⊆ cached ∧
      ReflTransGen (Config.Step walk) ⟨m, cached, es⟩ ⟨m', cached', []⟩ := by
  induction es with
  | nil => exact fun m cached => ⟨m, cached, subset_rfl, .refl⟩
  | cons e es ih =>
    intro m cached
    cases e with
    | store f =>
      obtain ⟨m', cached', hsub, hrun⟩ := ih (f m) cached
      exact ⟨m', cached', hsub, .head .store hrun⟩
    | invalidate p =>
      obtain ⟨m', cached', hsub, hrun⟩ := ih m {e ∈ cached | e.1 ≠ p}
      exact ⟨m', cached', hsub.trans fun _ he => he.1, .head .invalidate hrun⟩
    | release pages =>
      obtain ⟨m', cached', hsub, hrun⟩ := ih m cached
      exact ⟨m', cached', hsub, .head .release hrun⟩

end EagleOS.Foundations
