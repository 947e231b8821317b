import EagleOS.Foundations.Memory

/-!
# Words on a stack

A stack grows down: a push stores a word below its top. `Holds m a vs` says that the words `vs` lie in the memory from
`a` on, so that the list is the stack with its top first.

## What is proved

* `Holds.push` — a push puts a word in front.
* `Holds.top`, `Holds.pop` — and a pop takes it off.
* `Holds.congr` — the words depend on their own bytes only.
-/

namespace EagleOS.Foundations

/-- The words `vs` lie in the memory from `a` on. -/
def Holds (m : Memory) : BitVec 32 → List (BitVec 32) → Prop
  | _, [] => True
  | a, v :: vs => m.load32 a = v ∧ Holds m (a + 4#32) vs

namespace Holds

variable {m m' : Memory} {a v : BitVec 32} {vs : List (BitVec 32)}

theorem top (h : Holds m a (v :: vs)) : m.load32 a = v := h.1

theorem pop (h : Holds m a (v :: vs)) : Holds m (a + 4#32) vs := h.2

/-- The words in front. -/
theorem of_append {ws : List (BitVec 32)} (h : Holds m a (vs ++ ws)) : Holds m a vs := by
  induction vs generalizing a with
  | nil => trivial
  | cons v vs ih => exact ⟨h.1, ih h.2⟩

/-- A word of a list lies where the words before it end. -/
theorem load32 (h : Holds m a vs) {i : ℕ} (hi : vs[i]? = some v) : m.load32 (a + BitVec.ofNat 32 (4 * i)) = v := by
  induction vs generalizing a i with
  | nil => cases hi
  | cons w vs ih =>
    cases i with
    | zero =>
      cases hi
      rw [Nat.mul_zero, BitVec.add_zero]
      exact h.top
    | succ i =>
      have haddress : a + BitVec.ofNat 32 (4 * (i + 1)) = a + 4#32 + BitVec.ofNat 32 (4 * i) := by
        rw [BitVec.add_assoc, ← BitVec.ofNat_add, Nat.mul_succ, Nat.add_comm 4]
      rw [haddress]
      exact ih h.pop (by simpa using hi)

/-- The words are what they were where their bytes are. -/
theorem congr (h : Holds m a vs) (hlen : 4 * vs.length ≤ 2 ^ 32) (hsame : ∀ x ∈ Span a (4 * vs.length), m' x = m x) :
    Holds m' a vs := by
  induction vs generalizing a with
  | nil => trivial
  | cons w vs ih =>
    rw [List.length_cons] at hlen hsame
    refine ⟨?_, ih h.pop (by omega) fun x hx => hsame x ?_⟩
    · rw [← h.top]
      exact Memory.load32_congr fun x hx => hsame x (Span.mono (by omega) hx)
    · simp only [mem_span, BitVec.toNat_sub, BitVec.toNat_add, BitVec.toNat_ofNat] at hx ⊢
      omega

/-- A word is stored below the others. -/
theorem push (h : Holds m a vs) (hlen : 4 * (vs.length + 1) ≤ 2 ^ 32) (v : BitVec 32) :
    Holds (m.store32 (a - 4#32) v) (a - 4#32) (v :: vs) := by
  refine ⟨Memory.load32_store32 m _ v, ?_⟩
  rw [BitVec.sub_add_cancel]
  refine h.congr (by omega) fun x hx => Memory.store32_of_notMem fun hx' => ?_
  simp only [mem_span, BitVec.toNat_sub, BitVec.toNat_ofNat] at hx hx'
  omega

end Holds

end EagleOS.Foundations
