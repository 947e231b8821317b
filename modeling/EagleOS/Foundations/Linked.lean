import Mathlib.Data.List.Infix
import Mathlib.Tactic.Common

/-!
# Doubly linked lists

Nodes that are linked both ways: each leads to the one after it and to the one before it, and the first and the
last lead to `null` on their outer side. Where a node leads to may be read from anything.

## What is proved

* `Linked.split` — the two neighbours of a node in the middle.
* `Linked.next_eq_iff`, `Linked.prev_eq_iff` — what links lead to comes next to a node in the list.
* `Linked.congr` — the same nodes, by links that are the same.
* `Linked.concat` — one more node at the end.
-/

namespace EagleOS.Foundations

universe u

variable {β : Type u}

/-- The nodes are linked one after the other, after the node `last`. -/
def Linked (next prev : β → β) (null : β) : β → List β → Prop
  | _, [] => True
  | last, b :: nodes => prev b = last ∧ next b = nodes.headD null ∧ Linked next prev null b nodes

variable {next prev next' prev' : β → β} {null last b : β} {nodes before after : List β}

/-- The two neighbours of a node. -/
theorem Linked.split (h : Linked next prev null last (before ++ b :: after)) :
    prev b = before.getLastD last ∧ next b = after.headD null := by
  induction before generalizing last with
  | nil => exact ⟨h.1, h.2.1⟩
  | cons c before ih =>
    obtain ⟨hprev, hnext⟩ := ih h.2.2
    rw [List.getLastD_cons]
    exact ⟨hprev, hnext⟩

/-- A node leads to the one that comes after it. -/
theorem Linked.next_eq_iff {c : β} (h : Linked next prev null last nodes) (hb : b ∈ nodes) (hc : c ≠ null) :
    next b = c ↔ [b, c] <:+: nodes := by
  constructor
  · rintro rfl
    obtain ⟨before, after, rfl⟩ := List.append_of_mem hb
    have hnext := h.split.2
    cases after with
    | nil => exact absurd hnext hc
    | cons d after =>
      rw [List.headD_cons] at hnext
      exact ⟨before, after, by simp [hnext]⟩
  · rintro ⟨before, after, rfl⟩
    rw [List.append_assoc] at h
    exact h.split.2

/-- A node leads back to the one that comes before it. -/
theorem Linked.prev_eq_iff {c : β} (h : Linked next prev null last nodes) (hc : c ∈ nodes) (hb : b ≠ last) :
    prev c = b ↔ [b, c] <:+: nodes := by
  constructor
  · rintro rfl
    obtain ⟨before, after, rfl⟩ := List.append_of_mem hc
    have hprev := h.split.1
    rcases List.eq_nil_or_concat' before with rfl | ⟨before, d, rfl⟩
    · exact absurd hprev hb
    · rw [List.getLastD_concat] at hprev
      exact ⟨before, after, by simp [hprev]⟩
  · rintro ⟨before, after, rfl⟩
    rw [show before ++ [b, c] ++ after = (before ++ [b]) ++ c :: after by simp] at h
    rw [h.split.1, List.getLastD_concat]

/-- Two nodes that come one after the other are two nodes of the list. -/
theorem ne_of_infix (hnodup : nodes.Nodup) {c : β} (h : [b, c] <:+: nodes) : b ∈ nodes ∧ c ∈ nodes ∧ b ≠ c :=
  ⟨h.subset (by simp), h.subset (by simp), by simpa using h.nodup hnodup⟩

/-- A node leads to `null` or to another node of the list. -/
theorem Linked.next_mem (h : Linked next prev null last nodes) (hnodup : nodes.Nodup) (hb : b ∈ nodes) :
    next b = null ∨ next b ∈ nodes ∧ next b ≠ b := by
  by_cases h0 : next b = null
  · exact .inl h0
  · obtain ⟨-, hc, hne⟩ := ne_of_infix hnodup ((h.next_eq_iff hb h0).mp rfl)
    exact .inr ⟨hc, hne.symm⟩

/-- A node leads back to what is before the list, or to another node of it. -/
theorem Linked.prev_mem (h : Linked next prev null last nodes) (hnodup : nodes.Nodup) (hb : b ∈ nodes) :
    prev b = last ∨ prev b ∈ nodes ∧ prev b ≠ b := by
  by_cases h0 : prev b = last
  · exact .inl h0
  · obtain ⟨hc, -, hne⟩ := ne_of_infix hnodup ((h.prev_eq_iff hb h0).mp rfl)
    exact .inr ⟨hc, hne⟩

/-- The same nodes, by links that are the same. -/
theorem Linked.congr (hlinks : ∀ b ∈ nodes, next' b = next b ∧ prev' b = prev b)
    (h : Linked next prev null last nodes) : Linked next' prev' null last nodes := by
  induction nodes generalizing last with
  | nil => trivial
  | cons c nodes ih =>
    obtain ⟨hnext, hprev⟩ := hlinks c List.mem_cons_self
    exact ⟨hprev.trans h.1, hnext.trans h.2.1, ih (fun b hb => hlinks b (List.mem_cons_of_mem _ hb)) h.2.2⟩

/-- One more node at the end, to which the last one then leads. -/
theorem Linked.concat (h : Linked next prev null last nodes) (hnodup : nodes.Nodup)
    (hprev : ∀ c ∈ nodes, prev' c = prev c) (hnext : ∀ c ∈ nodes, c ≠ nodes.getLastD last → next' c = next c)
    (hlast : nodes ≠ [] → next' (nodes.getLastD last) = b) (hb : prev' b = nodes.getLastD last ∧ next' b = null) :
    Linked next' prev' null last (nodes ++ [b]) := by
  induction nodes generalizing last with
  | nil => exact ⟨hb.1, hb.2, trivial⟩
  | cons c nodes ih =>
    rw [List.getLastD_cons] at hnext hlast hb
    obtain ⟨hc, hrest⟩ := List.nodup_cons.mp hnodup
    refine ⟨(hprev c List.mem_cons_self).trans h.1, ?_, ?_⟩
    · cases nodes with
      | nil => exact hlast (by simp)
      | cons d nodes =>
        refine (hnext c List.mem_cons_self ?_).trans h.2.1
        rintro he
        rw [List.getLastD_cons] at he
        exact hc (he ▸ List.getLastD_mem_cons)
    · exact ih h.2.2 hrest (fun d hd => hprev d (List.mem_cons_of_mem _ hd))
        (fun d hd => hnext d (List.mem_cons_of_mem _ hd)) (fun _ => hlast (by simp)) hb

end EagleOS.Foundations
