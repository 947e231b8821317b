import EagleOS.Foundations.Memory
import Mathlib.Data.PFun

/-!
# Programs that use ports

A machine has a memory and, behind ports, devices. A program reads and writes both, one access after the other, and
may never return.

## The model

`Ports σ` says how devices with states of type `σ` answer the accesses to their ports: a read can change their state.
A `Program` is a state transformer that may have no result: a `loop` has one if it ends.

## What is proved

* `Program.run_bind_of` — a program whose first part returns goes on with the second.
* `Program.loop_eq` — a loop is one round, and then the loop again or the end.
* `Program.loop_induction` — what a loop that ends has done, from its last round back.
-/

namespace EagleOS.Foundations

/-- How devices answer to accesses. -/
structure Ports (σ : Type) where
  /-- A byte is read. -/
  inb : BitVec 16 → σ → BitVec 8 × σ
  /-- A byte is written. -/
  outb : BitVec 16 → BitVec 8 → σ → σ
  /-- Two bytes are read. -/
  inw : BitVec 16 → σ → BitVec 16 × σ
  /-- Two bytes are written. -/
  outw : BitVec 16 → BitVec 16 → σ → σ

/-- A memory and devices. -/
structure Machine (σ : Type) where
  /-- The memory. -/
  memory : Memory
  /-- The devices. -/
  devices : σ

/-- A program, with its result. -/
abbrev Program (σ : Type) := StateT (Machine σ) Part

section

variable {σ : Type} (ports : Ports σ) {m : Machine σ}

/-- A byte from a port. -/
def insb (port : BitVec 16) : Program σ (BitVec 8) := fun m =>
  .some ((ports.inb port m.devices).1, { m with devices := (ports.inb port m.devices).2 })

/-- A byte to a port. -/
def outb (port : BitVec 16) (data : BitVec 8) : Program σ Unit := fun m =>
  .some ((), { m with devices := ports.outb port data m.devices })

/-- Two bytes from a port. -/
def insw (port : BitVec 16) : Program σ (BitVec 16) := fun m =>
  .some ((ports.inw port m.devices).1, { m with devices := (ports.inw port m.devices).2 })

/-- Two bytes to a port. -/
def outw (port : BitVec 16) (data : BitVec 16) : Program σ Unit := fun m =>
  .some ((), { m with devices := ports.outw port data m.devices })

/-- Two bytes of the memory. -/
def load16 (a : BitVec 32) : Program σ (BitVec 16) := fun m => .some (m.memory.load16 a, m)

/-- Two bytes are stored. -/
def store16 (a : BitVec 32) (v : BitVec 16) : Program σ Unit := fun m =>
  .some ((), { m with memory := m.memory.store16 a v })

variable {ports}

@[simp] theorem run_insb (port : BitVec 16) : (insb ports port).run m =
    .some ((ports.inb port m.devices).1, { m with devices := (ports.inb port m.devices).2 }) := rfl

@[simp] theorem run_outb (port : BitVec 16) (data : BitVec 8) : (outb ports port data).run m =
    .some ((), { m with devices := ports.outb port data m.devices }) := rfl

@[simp] theorem run_insw (port : BitVec 16) : (insw ports port).run m =
    .some ((ports.inw port m.devices).1, { m with devices := (ports.inw port m.devices).2 }) := rfl

@[simp] theorem run_outw (port : BitVec 16) (data : BitVec 16) : (outw ports port data).run m =
    .some ((), { m with devices := ports.outw port data m.devices }) := rfl

@[simp] theorem run_load16 (a : BitVec 32) : (load16 a : Program σ _).run m = .some (m.memory.load16 a, m) := rfl

@[simp] theorem run_store16 (a : BitVec 32) (v : BitVec 16) : (store16 a v : Program σ _).run m =
    .some ((), { m with memory := m.memory.store16 a v }) := rfl

/-! ### Composition -/

namespace Program

variable {α β : Type} {v : α} {m' : Machine σ}

/-- A program of two parts has a result when the first part has one and the second has one from there on. -/
theorem mem_bind_iff {a : Program σ α} {f : α → Program σ β} {r : β × Machine σ} :
    r ∈ (a >>= f).run m ↔ ∃ v m', (v, m') ∈ a.run m ∧ r ∈ (f v).run m' := by
  rw [StateT.run_bind, Part.bind_eq_bind, Part.mem_bind_iff]
  exact Prod.exists

/-- A program whose first part returns goes on with the second. -/
theorem run_bind_of {a : Program σ α} {f : α → Program σ β} (h : a.run m = .some (v, m')) :
    (a >>= f).run m = (f v).run m' := by
  simp only [StateT.run_bind, h, Part.bind_eq_bind, Part.bind_some]

/-- One round of a loop. -/
def round (body : α → Program σ (β ⊕ α)) : α × Machine σ →. β × Machine σ ⊕ α × Machine σ := fun s =>
  ((body s.1).run s.2).map fun r => r.1.map (·, r.2) (·, r.2)

/-- A loop: it goes on as long as its body returns `.inr`. -/
def loop (body : α → Program σ (β ⊕ α)) (a : α) : Program σ β := fun m => (round body).fix (a, m)

theorem mem_round {body : α → Program σ (β ⊕ α)} {a : α} {s : β × Machine σ ⊕ α × Machine σ} :
    s ∈ round body (a, m) ↔ ∃ r ∈ (body a).run m, r.1.map (·, r.2) (·, r.2) = s := Part.mem_map_iff _

/-- A loop is one round, and then the loop again or the end. -/
theorem loop_eq (body : α → Program σ (β ⊕ α)) (a : α) : loop body a = body a >>= Sum.elim pure (loop body) := by
  refine funext fun m => Part.ext fun r => ?_
  change r ∈ (round body).fix (a, m) ↔ r ∈ ((body a).run m).bind fun v => (Sum.elim pure (loop body) v.1).run v.2
  rw [PFun.mem_fix_iff, Part.mem_bind_iff]
  simp only [mem_round]
  constructor
  · rintro (⟨⟨v, m'⟩, hv, h⟩ | ⟨s, ⟨⟨v, m'⟩, hv, h⟩, hr⟩)
    · cases v with
      | inl b =>
        cases h
        exact ⟨_, hv, Part.mem_some _⟩
      | inr a' => cases h
    · cases v with
      | inl b => cases h
      | inr a' =>
        cases h
        exact ⟨_, hv, hr⟩
  · rintro ⟨⟨v, m'⟩, hv, hr⟩
    cases v with
    | inl b => exact .inl ⟨_, hv, congrArg Sum.inl (Part.mem_some_iff.mp hr).symm⟩
    | inr a' => exact .inr ⟨(a', m'), ⟨_, hv, rfl⟩, hr⟩

/-- What holds where a loop ends, and is carried back over a round, holds where it starts. -/
theorem loop_induction {body : α → Program σ (β ⊕ α)} {r : β × Machine σ} {C : α → Machine σ → Prop} {a : α}
    (h : r ∈ (loop body a).run m) (hdone : ∀ a m, (.inl r.1, r.2) ∈ (body a).run m → C a m)
    (hround : ∀ a m a' m', (.inr a', m') ∈ (body a).run m → C a' m' → C a m) : C a m := by
  refine PFun.fixInduction' (C := fun s => C s.1 s.2) h ?_ ?_
  · rintro ⟨a, m⟩ hend
    obtain ⟨⟨v, m'⟩, hv, heq⟩ := mem_round.mp hend
    cases v with
    | inl b =>
      cases heq
      exact hdone a m hv
    | inr a' => cases heq
  · rintro ⟨a, m⟩ ⟨a', m'⟩ - hgo hC
    obtain ⟨⟨v, m''⟩, hv, heq⟩ := mem_round.mp hgo
    cases v with
    | inl b => cases heq
    | inr a'' =>
      cases heq
      exact hround a m _ _ hv hC

end Program

end

end EagleOS.Foundations
