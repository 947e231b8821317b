import Mathlib.Tactic.Common

/-!
# Programs on blocks of memory

A pointer points into a block, into a text that is not written to, or nowhere. A program loads and stores bytes through
pointers, and has blocks handed out and deleted.

## The model

An `Action` is the tree of what a program does: after a load it has a branch for every byte that may be found, and after
`new[]` one for every pointer that may be returned. It says nothing of the memory that it runs in: `BlockMemory` is what a
memory has to say for a program to run in it, and `Action.run` runs it there. An action may never return.

## What is proved

* `Action.run_bind` — one program after the other.
* `Action.Only.bind` — what commands a program is made of, step by step.
* `Action.Only.always` — what holds of the commands that it runs, from those that it is made of.
-/

namespace EagleOS.Foundations

/-- What a pointer points into. -/
inductive Base where
  /-- Nowhere. -/
  | null
  /-- A text that ends with a zero, and is not written to. -/
  | text (chars : List (BitVec 8))
  /-- A block. -/
  | block (id : ℕ)
  deriving DecidableEq

/-- A pointer: where it points into, and how far. -/
structure Pointer where
  /-- What it points into. -/
  base : Base
  /-- How far from the start; offsets are 32-bit words, and wrap around. -/
  offset : ℕ
  deriving DecidableEq

namespace Pointer

/-- The pointer that points nowhere. -/
def null : Pointer := ⟨.null, 0⟩

instance : HAdd Pointer ℕ Pointer := ⟨fun p n => ⟨p.base, p.offset + n⟩⟩

@[simp] theorem base_add (p : Pointer) (n : ℕ) : (p + n).base = p.base := rfl

@[simp] theorem offset_add (p : Pointer) (n : ℕ) : (p + n).offset = p.offset + n := rfl

@[simp] theorem add_zero (p : Pointer) : p + 0 = p := rfl

theorem add_add (p : Pointer) (m n : ℕ) : p + m + n = p + (m + n) := by
  simp only [HAdd.hAdd, Pointer.mk.injEq, true_and]
  exact Nat.add_assoc _ _ _

/-- The block that a pointer points into. -/
def block? (p : Pointer) : Option ℕ :=
  match p.base with
  | .block id => some id
  | _ => none

end Pointer

/-! ### Programs -/

/-- What a program does with the memory. -/
inductive Command where
  /-- `*p`. -/
  | load (p : Pointer)
  /-- `*p = b`. -/
  | store (p : Pointer) (b : BitVec 8)
  /-- `new char[n]`. -/
  | newArray (n : BitVec 32)
  /-- `delete[] p`. -/
  | deleteArray (p : Pointer)

/-- It is a load or a store. -/
def Command.IsAccess : Command → Prop
  | .load _ => True
  | .store _ _ => True
  | .newArray _ => False
  | .deleteArray _ => False

/-- It is not a `delete[]`. -/
def Command.KeepsBlocks : Command → Prop
  | .load _ => True
  | .store _ _ => True
  | .newArray _ => True
  | .deleteArray _ => False

theorem Command.IsAccess.keepsBlocks {c : Command} (h : c.IsAccess) : c.KeepsBlocks := by
  cases c with
  | load p => trivial
  | store p b => trivial
  | newArray n => exact absurd h not_false
  | deleteArray p => exact absurd h not_false

/-- A program that returns an `α`. -/
inductive Action (α : Type) where
  /-- It returns. -/
  | ret (v : α)
  /-- It never returns. -/
  | hang
  /-- It loads a byte and goes on with what it finds. -/
  | load (p : Pointer) (next : BitVec 8 → Action α)
  /-- It stores a byte. -/
  | store (p : Pointer) (b : BitVec 8) (next : Action α)
  /-- It goes on with what `new[]` returns. -/
  | newArray (n : BitVec 32) (next : Pointer → Action α)
  /-- It deletes. -/
  | deleteArray (p : Pointer) (next : Action α)

namespace Action

variable {α β : Type}

/-- One program, and then another with what it returns. -/
def bind : Action α → (α → Action β) → Action β
  | .ret v, f => f v
  | .hang, _ => .hang
  | .load p next, f => .load p fun b => (next b).bind f
  | .store p b next, f => .store p b (next.bind f)
  | .newArray n next, f => .newArray n fun p => (next p).bind f
  | .deleteArray p next, f => .deleteArray p (next.bind f)

instance : Monad Action where
  pure := .ret
  bind := bind

end Action

/-- `*p`. -/
def load (p : Pointer) : Action (BitVec 8) := .load p .ret

/-- `*p = b`. -/
def store (p : Pointer) (b : BitVec 8) : Action Unit := .store p b (.ret ())

/-- `new char[n]`. -/
def newArray (n : BitVec 32) : Action Pointer := .newArray n .ret

/-- `delete[] p`. -/
def deleteArray (p : Pointer) : Action Unit := .deleteArray p (.ret ())

/-! ### Memories -/

/-- A memory that programs run in. -/
class BlockMemory (σ : Type) where
  /-- What a load finds. -/
  load : Pointer → σ → BitVec 8 × σ
  /-- After a store. -/
  store : Pointer → BitVec 8 → σ → σ
  /-- What `new[]` returns, if it does. -/
  newArray : BitVec 32 → σ → Option (Pointer × σ)
  /-- After `delete[]`. -/
  deleteArray : Pointer → σ → σ

namespace Action

variable {α β σ : Type} [BlockMemory σ]

/-- What a program returns, if it does, and the memory then. -/
def run : Action α → σ → Option (α × σ)
  | .ret v, w => some (v, w)
  | .hang, _ => none
  | .load p next, w => (next (BlockMemory.load p w).1).run (BlockMemory.load p w).2
  | .store p b next, w => next.run (BlockMemory.store p b w)
  | .newArray n next, w => (BlockMemory.newArray n w).bind fun r => (next r.1).run r.2
  | .deleteArray p next, w => next.run (BlockMemory.deleteArray p w)

@[simp] theorem run_pure (v : α) (w : σ) : (pure v : Action α).run w = some (v, w) := rfl

@[simp] theorem run_bind (a : Action α) (f : α → Action β) (w : σ) :
    (a >>= f).run w = a.run w >>= fun r => (f r.1).run r.2 := by
  change (a.bind f).run w = _
  induction a generalizing w with
  | ret v => rfl
  | hang => rfl
  | load p next ih => exact ih _ _
  | store p b next ih => exact ih _
  | newArray n next ih =>
    cases hnew : BlockMemory.newArray n w with
    | none => simp [bind, run, hnew]
    | some r => simpa [bind, run, hnew] using ih r.1 r.2
  | deleteArray p next ih => exact ih _

theorem run_load (p : Pointer) (w : σ) : (Foundations.load p).run w = some (BlockMemory.load p w) := rfl

theorem run_store (p : Pointer) (b : BitVec 8) (w : σ) :
    (Foundations.store p b).run w = some ((), BlockMemory.store p b w) := rfl

theorem run_newArray (n : BitVec 32) (w : σ) : (Foundations.newArray n).run w = BlockMemory.newArray n w :=
  Option.bind_fun_some (BlockMemory.newArray n w)

theorem run_deleteArray (p : Pointer) (w : σ) :
    (Foundations.deleteArray p).run w = some ((), BlockMemory.deleteArray p w) := rfl

/-- When one program after the other returns, both do. -/
theorem run_bind_eq_some {a : Action α} {f : α → Action β} {w : σ} {r : β × σ} :
    (a >>= f).run w = some r ↔ ∃ v w', a.run w = some (v, w') ∧ (f v).run w' = some r := by
  rw [run_bind, Option.bind_eq_bind, Option.bind_eq_some_iff, Prod.exists]

/-! ### The commands of a program -/

/-- Every command that the program is made of, whatever it finds, is one of these. -/
def Only (P : Command → Prop) : Action α → Prop
  | .ret _ => True
  | .hang => True
  | .load p next => P (.load p) ∧ ∀ b, (next b).Only P
  | .store p b next => P (.store p b) ∧ next.Only P
  | .newArray n next => P (.newArray n) ∧ ∀ p, (next p).Only P
  | .deleteArray p next => P (.deleteArray p) ∧ next.Only P

/-- Every command that the program runs, from the memory `w` on, meets a condition where it is run. -/
def Always (P : σ → Command → Prop) : Action α → σ → Prop
  | .ret _, _ => True
  | .hang, _ => True
  | .load p next, w => P w (.load p) ∧ (next (BlockMemory.load p w).1).Always P (BlockMemory.load p w).2
  | .store p b next, w => P w (.store p b) ∧ next.Always P (BlockMemory.store p b w)
  | .newArray n next, w => P w (.newArray n) ∧ ∀ p w', BlockMemory.newArray n w = some (p, w') → (next p).Always P w'
  | .deleteArray p next, w => P w (.deleteArray p) ∧ next.Always P (BlockMemory.deleteArray p w)

/-- A condition on the commands that can be checked. -/
def check (P : σ → Command → Bool) : Action α → σ → Bool
  | .ret _, _ => true
  | .hang, _ => true
  | .load p next, w => P w (.load p) && (next (BlockMemory.load p w).1).check P (BlockMemory.load p w).2
  | .store p b next, w => P w (.store p b) && next.check P (BlockMemory.store p b w)
  | .newArray n next, w => P w (.newArray n) && (BlockMemory.newArray n w).all fun r => (next r.1).check P r.2
  | .deleteArray p next, w => P w (.deleteArray p) && next.check P (BlockMemory.deleteArray p w)

section

variable {P Q : Command → Prop} {R S : σ → Command → Prop} {a : Action α} {f : α → Action β} {w : σ}

theorem only_pure (v : α) : (pure v : Action α).Only P := trivial

theorem only_hang : (hang : Action α).Only P := trivial

theorem Only.bind (ha : a.Only P) (hf : ∀ v, (f v).Only P) : (a >>= f).Only P := by
  change (a.bind f).Only P
  induction a with
  | ret v => exact hf v
  | hang => trivial
  | load p next ih => exact ⟨ha.1, fun b => ih b (ha.2 b)⟩
  | store p b next ih => exact ⟨ha.1, ih ha.2⟩
  | newArray n next ih => exact ⟨ha.1, fun p => ih p (ha.2 p)⟩
  | deleteArray p next ih => exact ⟨ha.1, ih ha.2⟩

theorem only_ite {c : Prop} [Decidable c] {a a' : Action α} (ha : a.Only P) (ha' : a'.Only P) :
    (if c then a else a').Only P := by
  split
  · exact ha
  · exact ha'

theorem Only.mono (ha : a.Only P) (h : ∀ c, P c → Q c) : a.Only Q := by
  induction a with
  | ret v => trivial
  | hang => trivial
  | load p next ih => exact ⟨h _ ha.1, fun b => ih b (ha.2 b)⟩
  | store p b next ih => exact ⟨h _ ha.1, ih ha.2⟩
  | newArray n next ih => exact ⟨h _ ha.1, fun p => ih p (ha.2 p)⟩
  | deleteArray p next ih => exact ⟨h _ ha.1, ih ha.2⟩

theorem only_newArray {n : BitVec 32} (h : P (.newArray n)) : (Foundations.newArray n).Only P := ⟨h, fun _ => trivial⟩

theorem accesses_load (p : Pointer) : (Foundations.load p).Only Command.IsAccess := ⟨trivial, fun _ => trivial⟩

theorem accesses_store (p : Pointer) (b : BitVec 8) : (Foundations.store p b).Only Command.IsAccess := ⟨trivial, trivial⟩

/-- What holds of all commands that a program is made of holds of those that it runs. -/
theorem Only.always (ha : a.Only P) (hw : a.Always R w) (h : ∀ w c, P c → R w c → S w c) : a.Always S w := by
  induction a generalizing w with
  | ret v => trivial
  | hang => trivial
  | load p next ih => exact ⟨h _ _ ha.1 hw.1, ih _ (ha.2 _) hw.2⟩
  | store p b next ih => exact ⟨h _ _ ha.1 hw.1, ih ha.2 hw.2⟩
  | newArray n next ih => exact ⟨h _ _ ha.1 hw.1, fun p w' hnew => ih p (ha.2 p) (hw.2 p w' hnew)⟩
  | deleteArray p next ih => exact ⟨h _ _ ha.1 hw.1, ih ha.2 hw.2⟩

theorem always_of_check {C : σ → Command → Bool} (hC : ∀ w c, C w c = true → R w c) (h : a.check C w = true) : a.Always R w := by
  induction a generalizing w with
  | ret v => trivial
  | hang => trivial
  | load p next ih =>
    obtain ⟨hc, hnext⟩ := Bool.and_eq_true_iff.mp h
    exact ⟨hC _ _ hc, ih _ hnext⟩
  | store p b next ih =>
    obtain ⟨hc, hnext⟩ := Bool.and_eq_true_iff.mp h
    exact ⟨hC _ _ hc, ih hnext⟩
  | newArray n next ih =>
    obtain ⟨hc, hnext⟩ := Bool.and_eq_true_iff.mp h
    refine ⟨hC _ _ hc, fun p w' hnew => ih p ?_⟩
    rw [hnew] at hnext
    exact hnext
  | deleteArray p next ih =>
    obtain ⟨hc, hnext⟩ := Bool.and_eq_true_iff.mp h
    exact ⟨hC _ _ hc, ih hnext⟩

end

end Action

end EagleOS.Foundations
