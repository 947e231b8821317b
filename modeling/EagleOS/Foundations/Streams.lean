import EagleOS.Foundations.Ports

/-!
# Loops that wait for a value

A program reads one value after the other from a device that it does not control: the values are a stream, and a loop
that waits for one ends at the first that will do. `FirstFrom` is that position, if there is one.

## What is proved

* `FirstFrom.unique`, `exists_firstFrom` — there is one such position at most, and one if any value will do.
* `mem_wait_iff` — a loop that reads a value in every round ends at the first that it accepts, and only there.
* `mem_waitNext_iff` — so does one that reads the next value at the end of a round.
-/

namespace EagleOS.Foundations

section

variable {β : Type} {p : β → Prop} {s : ℕ → β} {i j k : ℕ}

/-- From `i` on, `k` is the first position where the stream has a value in `p`. -/
structure FirstFrom (p : β → Prop) (s : ℕ → β) (i k : ℕ) : Prop where
  /-- It is not before `i`. -/
  le : i ≤ k
  /-- The value there is in `p`. -/
  holds : p (s k)
  /-- None before it is. -/
  before : ∀ j, i ≤ j → j < k → ¬ p (s j)

namespace FirstFrom

theorem unique (h : FirstFrom p s i j) (h' : FirstFrom p s i k) : j = k := by
  rcases Nat.lt_trichotomy j k with hlt | heq | hlt
  · exact absurd h.holds (h'.before j h.le hlt)
  · exact heq
  · exact absurd h'.holds (h.before k h'.le hlt)

/-- No position with such a value is before the first one. -/
theorem le_of_holds (h : FirstFrom p s i k) (hij : i ≤ j) (hj : p (s j)) : k ≤ j := by
  by_contra hlt
  exact h.before j hij (Nat.lt_of_not_le hlt) hj

theorem here (h : p (s i)) : FirstFrom p s i i := ⟨Nat.le_refl i, h, fun _ hij hji => absurd hij (Nat.not_le.mpr hji)⟩

/-- The first position from `i` on, where `i` is not one. -/
theorem iff_succ (h : ¬ p (s i)) : FirstFrom p s i k ↔ FirstFrom p s (i + 1) k := by
  constructor
  · intro hk
    have hne : i ≠ k := fun e => h (e ▸ hk.holds)
    have hle := hk.le
    exact ⟨by omega, hk.holds, fun j hij => hk.before j (by omega)⟩
  · intro hk
    refine ⟨Nat.le_of_succ_le hk.le, hk.holds, fun j hij hjk => ?_⟩
    rcases Nat.eq_or_lt_of_le hij with rfl | hlt
    · exact h
    · exact hk.before j hlt hjk

end FirstFrom

/-- Where any value will do, there is a first one. -/
theorem exists_firstFrom (hij : i ≤ j) (hj : p (s j)) : ∃ k, FirstFrom p s i k := by
  obtain ⟨n, rfl⟩ := Nat.exists_eq_add_of_le hij
  clear hij
  induction n generalizing i with
  | zero => exact ⟨i, .here hj⟩
  | succ n ih =>
    by_cases hi : p (s i)
    · exact ⟨i, .here hi⟩
    · obtain ⟨k, hk⟩ := ih (i := i + 1) (by rwa [Nat.add_assoc, Nat.add_comm 1])
      exact ⟨k, (FirstFrom.iff_succ hi).mpr hk⟩

end

/-! ### Loops -/

section

variable {σ β γ : Type} {next : Program σ β} {s : ℕ → β} {state : ℕ → Machine σ} {i : ℕ}

/-- A loop reads a value in every round, and ends when that is in `p`: so it does at the first such value. -/
theorem mem_wait_iff (hnext : ∀ i, next.run (state i) = .some (s i, state (i + 1))) (p : β → Prop) [DecidablePred p]
    (f : β → γ) {r : γ × Machine σ} :
    r ∈ (Program.loop (fun _ => next >>= fun v => pure (if p v then .inl (f v) else .inr ())) ()).run (state i) ↔
      ∃ k, FirstFrom p s i k ∧ r = (f (s k), state (k + 1)) := by
  have hbody : ∀ i, (next >>= fun v => (pure (if p v then .inl (f v) else .inr ()) : Program σ (γ ⊕ Unit))).run (state i) =
      .some (if p (s i) then .inl (f (s i)) else .inr (), state (i + 1)) := fun i => Program.run_bind_of (hnext i)
  constructor
  · intro h
    refine Program.loop_induction
      (C := fun _ m => ∀ i, m = state i → ∃ k, FirstFrom p s i k ∧ r = (f (s k), state (k + 1))) h ?_ ?_ i rfl
    · rintro _ _ hend i rfl
      rw [hbody, Part.mem_some_iff, Prod.mk.injEq] at hend
      by_cases hp : p (s i)
      · rw [if_pos hp] at hend
        exact ⟨i, .here hp, Prod.ext (Sum.inl.inj hend.1) hend.2⟩
      · rw [if_neg hp] at hend
        cases hend.1
    · rintro _ _ _ m' hgo ih i rfl
      rw [hbody, Part.mem_some_iff, Prod.mk.injEq] at hgo
      by_cases hp : p (s i)
      · rw [if_pos hp] at hgo
        cases hgo.1
      · obtain ⟨k, hk, hr⟩ := ih (i + 1) hgo.2
        exact ⟨k, (FirstFrom.iff_succ hp).mpr hk, hr⟩
  · rintro ⟨k, hk, rfl⟩
    obtain ⟨n, rfl⟩ := Nat.exists_eq_add_of_le hk.le
    induction n generalizing i with
    | zero =>
      rw [Nat.add_zero] at hk ⊢
      rw [Program.loop_eq, Program.run_bind_of (hbody i), if_pos hk.holds]
      exact Part.mem_some _
    | succ n ih =>
      have hp : ¬ p (s i) := hk.before i (Nat.le_refl i) (by omega)
      have hindex : i + (n + 1) = i + 1 + n := by omega
      rw [hindex] at hk ⊢
      rw [Program.loop_eq, Program.run_bind_of (hbody i), if_neg hp]
      exact ih ((FirstFrom.iff_succ hp).mp hk)

/-- The same for a loop that has read a value when it starts, and reads the next one as long as that is in `p`. -/
theorem mem_waitNext_iff (hnext : ∀ i, next.run (state i) = .some (s i, state (i + 1))) (p : β → Prop) [DecidablePred p]
    {r : β × Machine σ} :
    r ∈ (next >>= Program.loop fun v => if p v then .inr <$> next else pure (.inl v)).run (state i) ↔
      ∃ k, FirstFrom (fun v => ¬ p v) s i k ∧ r = (s k, state (k + 1)) := by
  rw [Program.run_bind_of (hnext i)]
  constructor
  · intro h
    refine Program.loop_induction
      (C := fun v m => ∀ i, v = s i → m = state (i + 1) → ∃ k, FirstFrom (fun v => ¬ p v) s i k ∧ r = (s k, state (k + 1)))
      h ?_ ?_ i rfl rfl
    · rintro _ _ hend i rfl rfl
      split at hend
      · rw [StateT.run_map, hnext] at hend
        obtain ⟨_, _, heq⟩ := (Part.mem_map_iff _).mp hend
        cases heq
      · rename_i hp
        obtain ⟨hvalue, hstate⟩ := Prod.mk.inj (Part.mem_some_iff.mp hend)
        exact ⟨i, .here hp, Prod.ext (Sum.inl.inj hvalue) hstate⟩
    · rintro _ _ v' m' hgo ih i rfl rfl
      split at hgo
      · rename_i hp
        rw [StateT.run_map, hnext] at hgo
        obtain ⟨_, hv, heq⟩ := (Part.mem_map_iff _).mp hgo
        cases Part.mem_some_iff.mp hv
        cases heq
        obtain ⟨k, hk, hr⟩ := ih (i + 1) rfl rfl
        exact ⟨k, (FirstFrom.iff_succ (p := fun v => ¬ p v) (not_not.mpr hp)).mpr hk, hr⟩
      · cases Part.mem_some_iff.mp hgo
  · rintro ⟨k, hk, rfl⟩
    obtain ⟨n, rfl⟩ := Nat.exists_eq_add_of_le hk.le
    induction n generalizing i with
    | zero =>
      rw [Nat.add_zero] at hk ⊢
      rw [Program.loop_eq, if_neg hk.holds, pure_bind]
      exact Part.mem_some _
    | succ n ih =>
      have hp : p (s i) := not_not.mp (hk.before i (Nat.le_refl i) (by omega))
      have hindex : i + (n + 1) = i + 1 + n := by omega
      rw [hindex] at hk ⊢
      have hround := ih ((FirstFrom.iff_succ (p := fun v => ¬ p v) (not_not.mpr hp)).mp hk)
      rw [Program.loop_eq, if_pos hp, bind_map_left, Program.run_bind_of (hnext (i + 1))]
      exact hround

end

end EagleOS.Foundations
