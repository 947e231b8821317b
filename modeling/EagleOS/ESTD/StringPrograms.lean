import EagleOS.ESTD.StringOwnership

/-!
# Calls on strings as programs

What a call on strings does with the memory is one program, which is the same in every memory. So a memory in which the commands do
what they do on fresh blocks is one in which the calls do.

## What is proved

* `Strings.call_eq` — a call runs its program.
* `Strings.keepsBlocks_program` — no program but that of a destructor deletes.
* `Strings.call_simulates` — from memories that are related, a call leads to the same objects.
-/

namespace EagleOS.ESTD

open Foundations Buffers CString

/-! ### What the member functions delete -/

section

variable {α β : Type}

/-- Loads and stores first. -/
theorem keepsBlocks_access {a : Action α} {f : α → Action β} (ha : a.Only Command.IsAccess)
    (hf : ∀ v, (f v).Only Command.KeepsBlocks) : (a >>= f).Only Command.KeepsBlocks :=
  (ha.mono fun _ hc => hc.keepsBlocks).bind hf

/-- An allocation first. -/
theorem keepsBlocks_newArray {n : SizeT} {f : Pointer → Action β} (hf : ∀ p, (f p).Only Command.KeepsBlocks) :
    (newArray n >>= f).Only Command.KeepsBlocks := (Action.only_newArray trivial).bind hf

/-- What `Strdup` and `Strndup` do with what `new[]` returned. -/
theorem keepsBlocks_filled (dup str last : Pointer) (len : ℕ) :
    (do
      if dup.base ≠ .null then
        let _ ← strncpy dup str len
      store last 0#8
      pure dup : Action Pointer).Only Command.KeepsBlocks := by
  have hlast : (store last 0#8 >>= fun _ => (pure dup : Action Pointer)).Only Command.KeepsBlocks :=
    keepsBlocks_access (Action.accesses_store _ _) fun _ => Action.only_pure _
  dsimp only
  split
  · exact keepsBlocks_access (accesses_strncpy _ _ _) fun _ => hlast
  · exact hlast

theorem keepsBlocks_strdup (str : Pointer) : (strdup str).Only Command.KeepsBlocks :=
  keepsBlocks_access (accesses_strlen str) fun _ => keepsBlocks_newArray fun _ => keepsBlocks_filled _ _ _ _

theorem keepsBlocks_strndup (str : Pointer) (num : SizeT) : (strndup str num).Only Command.KeepsBlocks :=
  keepsBlocks_newArray fun _ => keepsBlocks_filled _ _ _ _

theorem keepsBlocks_ofText (str : Pointer) : (String.ofText str).Only Command.KeepsBlocks :=
  (keepsBlocks_strdup str).bind fun _ => keepsBlocks_access (accesses_strlen str) fun _ => Action.only_pure _

theorem keepsBlocks_ofPrefix (str : Pointer) (size : SizeT) : (String.ofPrefix str size).Only Command.KeepsBlocks :=
  (keepsBlocks_strndup str size).bind fun _ => Action.only_pure _

theorem keepsBlocks_fill (size : SizeT) (ch : BitVec 8) : (String.filled size ch).Only Command.KeepsBlocks :=
  keepsBlocks_newArray fun _ => keepsBlocks_access (accesses_memset ch _ _) fun _ => Action.only_pure _

theorem keepsBlocks_copy (rhs : String) : (String.copy rhs).Only Command.KeepsBlocks :=
  (keepsBlocks_strdup _).bind fun _ => Action.only_pure _

theorem keepsBlocks_assign (rhs : String) : (String.assign rhs).Only Command.KeepsBlocks :=
  (keepsBlocks_strdup _).bind fun _ => Action.only_pure _

theorem keepsBlocks_add (s rhs : String) : (s.add rhs).Only Command.KeepsBlocks :=
  keepsBlocks_newArray fun _ => keepsBlocks_access (accesses_memcpy _ _ _) fun _ =>
    keepsBlocks_access (accesses_memcpy _ _ _) fun _ => keepsBlocks_access (Action.accesses_store _ _) fun _ => keepsBlocks_ofText _

theorem keepsBlocks_addChar (s : String) (ch : BitVec 8) : (s.addChar ch).Only Command.KeepsBlocks :=
  keepsBlocks_newArray fun _ => keepsBlocks_access (accesses_memcpy _ _ _) fun _ =>
    keepsBlocks_access (Action.accesses_store _ _) fun _ => keepsBlocks_access (Action.accesses_store _ _) fun _ => keepsBlocks_ofText _

theorem keepsBlocks_substr (s : String) (pos len : SizeT) : (s.substr pos len).Only Command.KeepsBlocks :=
  keepsBlocks_newArray fun _ => keepsBlocks_access (accesses_memcpy _ _ _) fun _ =>
    keepsBlocks_access (Action.accesses_store _ _) fun _ => keepsBlocks_ofText _

/-- The temporary holds nothing when it is destroyed. -/
theorem keepsBlocks_become {sum : Action String} (h : sum.Only Command.KeepsBlocks) :
    (String.become sum).Only Command.KeepsBlocks :=
  h.bind fun _ => (Action.only_pure ()).bind fun _ => Action.only_pure _

end

/-! ### Programs -/

namespace Strings

/-- The object `x` becomes what an action returns. -/
def setProgram (objects : ℕ → Option String) (x : ℕ) (a : Action String) : Action (ℕ → Option String) := do
  let str ← a
  pure (Function.update objects x (some str))

/-- A new object is what an action returns. -/
def createProgram (objects : ℕ → Option String) (x : ℕ) (a : Action String) : Option (Action (ℕ → Option String)) :=
  if (objects x).isNone then some (setProgram objects x a) else none

/-- A comparison. -/
def compareProgram (objects : ℕ → Option String) (a : Action Bool) : Action (ℕ → Option String) := do
  let _ ← a
  pure objects

/-- What a call does with the memory, and which objects there are then; there is nothing for a call on objects that are not live. -/
def program (objects : ℕ → Option String) : StringCall → Option (Action (ℕ → Option String))
  | .construct x => createProgram objects x (pure String.empty)
  | .constructText x str => createProgram objects x (String.ofText str)
  | .constructPrefix x str size => createProgram objects x (String.ofPrefix str size)
  | .constructFilled x size ch => createProgram objects x (String.filled size ch)
  | .copy x y => do createProgram objects x (String.copy (← objects y))
  | .move x y => do
    let rhs ← objects y
    if (objects x).isNone then
      some (pure (Function.update (Function.update objects x (some rhs.move.1)) y (some rhs.move.2)))
    else none
  | .assign x y => do
    let _ ← objects x
    some (setProgram objects x (String.assign (← objects y)))
  | .moveAssign x y => do
    let _ ← objects x
    let rhs ← objects y
    some (pure (Function.update (Function.update objects x (some rhs.moveAssign.1)) y (some rhs.moveAssign.2)))
  | .equal x y => do some (compareProgram objects ((← objects x).equal (← objects y)))
  | .notEqual x y => do some (compareProgram objects ((← objects x).notEqual (← objects y)))
  | .add x y z => do createProgram objects x ((← objects y).add (← objects z))
  | .addChar x y ch => do createProgram objects x ((← objects y).addChar ch)
  | .append x y => do some (setProgram objects x ((← objects x).append (← objects y)))
  | .appendChar x ch => do some (setProgram objects x ((← objects x).appendChar ch))
  | .substr x y pos len => do createProgram objects x ((← objects y).substr pos len)
  | .destroy x => do
    let str ← objects x
    some do
      str.destroy
      pure (Function.update objects x none)

/-- Every command that a call runs meets a condition where it is run. -/
def Always {σ : Type} [BlockMemory σ] (P : σ → Command → Prop) (s : Strings σ) (c : StringCall) : Prop :=
  ∀ a, program s.objects c = some a → a.Always P s.buffers

section

variable {σ : Type} [BlockMemory σ] {s : Strings σ} {objects : ℕ → Option String} {x : ℕ} {a : Action String}

theorem set_eq (s : Strings σ) (x : ℕ) (a : Action String) :
    s.set x a = ((setProgram s.objects x a).run s.buffers).map fun r => ⟨r.2, r.1⟩ := by
  rw [set, setProgram, Action.run_bind]
  cases a.run s.buffers <;> rfl

theorem create_eq (s : Strings σ) (x : ℕ) (a : Action String) :
    s.create x a = (createProgram s.objects x a).bind fun a => (a.run s.buffers).map fun r => ⟨r.2, r.1⟩ := by
  rw [create, createProgram]
  split
  · exact set_eq s x a
  · rfl

theorem compare_eq (s : Strings σ) (a : Action Bool) :
    s.compare a = ((compareProgram s.objects a).run s.buffers).map fun r => ⟨r.2, r.1⟩ := by
  rw [compare, compareProgram, Action.run_bind]
  cases a.run s.buffers <;> rfl

/-- A call runs its program. -/
theorem call_eq (s : Strings σ) (c : StringCall) :
    s.call c = (program s.objects c).bind fun a => (a.run s.buffers).map fun r => ⟨r.2, r.1⟩ := by
  cases c with
  | construct x => exact create_eq s x _
  | constructText x str => exact create_eq s x _
  | constructPrefix x str size => exact create_eq s x _
  | constructFilled x size ch => exact create_eq s x _
  | copy x y =>
    rw [call, program]
    cases s.objects y with
    | none => rfl
    | some rhs => exact create_eq s x _
  | move x y =>
    rw [call, program]
    cases s.objects y with
    | none => rfl
    | some rhs =>
      by_cases hx : (s.objects x).isNone = true
      · simp [hx]
      · simp [hx]
  | assign x y =>
    rw [call, program]
    cases s.objects x with
    | none => rfl
    | some lhs =>
      cases s.objects y with
      | none => rfl
      | some rhs => exact set_eq s x _
  | moveAssign x y =>
    rw [call, program]
    cases s.objects x with
    | none => rfl
    | some lhs => cases s.objects y <;> rfl
  | equal x y =>
    rw [call, program]
    cases s.objects x with
    | none => rfl
    | some lhs =>
      cases s.objects y with
      | none => rfl
      | some rhs => exact compare_eq s _
  | notEqual x y =>
    rw [call, program]
    cases s.objects x with
    | none => rfl
    | some lhs =>
      cases s.objects y with
      | none => rfl
      | some rhs => exact compare_eq s _
  | add x y z =>
    rw [call, program]
    cases s.objects y with
    | none => rfl
    | some lhs =>
      cases s.objects z with
      | none => rfl
      | some rhs => exact create_eq s x _
  | addChar x y ch =>
    rw [call, program]
    cases s.objects y with
    | none => rfl
    | some lhs => exact create_eq s x _
  | append x y =>
    rw [call, program]
    cases s.objects x with
    | none => rfl
    | some lhs =>
      cases s.objects y with
      | none => rfl
      | some rhs => exact set_eq s x _
  | appendChar x ch =>
    rw [call, program]
    cases s.objects x with
    | none => rfl
    | some lhs => exact set_eq s x _
  | substr x y pos len =>
    rw [call, program]
    cases s.objects y with
    | none => rfl
    | some lhs => exact create_eq s x _
  | destroy x =>
    rw [call, program]
    cases s.objects x with
    | none => rfl
    | some str =>
      simp only [Option.bind_eq_bind, Option.bind_some, Action.run_bind]
      cases str.destroy.run s.buffers <;> rfl

theorem keepsBlocks_setProgram (ha : a.Only Command.KeepsBlocks) : (setProgram objects x a).Only Command.KeepsBlocks :=
  ha.bind fun _ => Action.only_pure _

theorem keepsBlocks_createProgram {b : Action (ℕ → Option String)} (ha : a.Only Command.KeepsBlocks)
    (h : createProgram objects x a = some b) : b.Only Command.KeepsBlocks := by
  unfold createProgram at h
  split at h
  · cases h
    exact keepsBlocks_setProgram ha
  · cases h

/-- Only a destructor deletes. -/
theorem keepsBlocks_program {c : StringCall} {b : Action (ℕ → Option String)} (h : program objects c = some b)
    (hc : ∀ x, c ≠ .destroy x) : b.Only Command.KeepsBlocks := by
  cases c with
  | construct x => exact keepsBlocks_createProgram (Action.only_pure _) h
  | constructText x str => exact keepsBlocks_createProgram (keepsBlocks_ofText _) h
  | constructPrefix x str size => exact keepsBlocks_createProgram (keepsBlocks_ofPrefix _ _) h
  | constructFilled x size ch => exact keepsBlocks_createProgram (keepsBlocks_fill _ _) h
  | copy x y =>
    obtain ⟨rhs, -, h⟩ := Option.bind_eq_some_iff.mp h
    exact keepsBlocks_createProgram (keepsBlocks_copy _) h
  | move x y =>
    obtain ⟨rhs, -, h⟩ := Option.bind_eq_some_iff.mp h
    split at h <;> cases h
    exact Action.only_pure _
  | assign x y =>
    obtain ⟨lhs, -, h⟩ := Option.bind_eq_some_iff.mp h
    obtain ⟨rhs, -, h⟩ := Option.bind_eq_some_iff.mp h
    cases h
    exact keepsBlocks_setProgram (keepsBlocks_assign _)
  | moveAssign x y =>
    obtain ⟨lhs, -, h⟩ := Option.bind_eq_some_iff.mp h
    obtain ⟨rhs, -, h⟩ := Option.bind_eq_some_iff.mp h
    cases h
    exact Action.only_pure _
  | equal x y =>
    obtain ⟨lhs, -, h⟩ := Option.bind_eq_some_iff.mp h
    obtain ⟨rhs, -, h⟩ := Option.bind_eq_some_iff.mp h
    cases h
    exact keepsBlocks_access (accesses_equal _ _) fun _ => Action.only_pure _
  | notEqual x y =>
    obtain ⟨lhs, -, h⟩ := Option.bind_eq_some_iff.mp h
    obtain ⟨rhs, -, h⟩ := Option.bind_eq_some_iff.mp h
    cases h
    exact keepsBlocks_access (accesses_notEqual _ _) fun _ => Action.only_pure _
  | add x y z =>
    obtain ⟨lhs, -, h⟩ := Option.bind_eq_some_iff.mp h
    obtain ⟨rhs, -, h⟩ := Option.bind_eq_some_iff.mp h
    exact keepsBlocks_createProgram (keepsBlocks_add _ _) h
  | addChar x y ch =>
    obtain ⟨lhs, -, h⟩ := Option.bind_eq_some_iff.mp h
    exact keepsBlocks_createProgram (keepsBlocks_addChar _ _) h
  | append x y =>
    obtain ⟨lhs, -, h⟩ := Option.bind_eq_some_iff.mp h
    obtain ⟨rhs, -, h⟩ := Option.bind_eq_some_iff.mp h
    cases h
    exact keepsBlocks_setProgram (keepsBlocks_become (keepsBlocks_add _ _))
  | appendChar x ch =>
    obtain ⟨lhs, -, h⟩ := Option.bind_eq_some_iff.mp h
    cases h
    exact keepsBlocks_setProgram (keepsBlocks_become (keepsBlocks_addChar _ _))
  | substr x y pos len =>
    obtain ⟨lhs, -, h⟩ := Option.bind_eq_some_iff.mp h
    exact keepsBlocks_createProgram (keepsBlocks_substr _ _ _) h
  | destroy x => exact absurd rfl (hc x)

end

/-! ### Other memories -/

section

variable {σ : Type} [BlockMemory σ] {R : σ → Buffers → Prop} {ok : σ → Command → Prop} {s : Strings σ} {w : Buffers} {c : StringCall}

/-- From related memories a call leads to the same objects and to related memories, for some contents of the blocks that are
handed out. -/
theorem call_simulates (h : Simulation R ok) (hR : R s.buffers w) (hc : s.Always ok c) : ∃ f : ℕ → ℕ → BitVec 8,
    Option.Rel (fun t u => t.objects = u.objects ∧ R t.buffers u.buffers) (s.call c) (call ⟨w.withFresh f, s.objects⟩ c) := by
  simp only [call_eq]
  cases hprogram : program s.objects c with
  | none => exact ⟨w.fresh, .none⟩
  | some a =>
    obtain ⟨f, hf⟩ := h.run a hR (hc a hprogram)
    refine ⟨f, ?_⟩
    simp only [Option.bind_some]
    generalize a.run s.buffers = r at hf ⊢
    generalize a.run (w.withFresh f) = r' at hf ⊢
    cases hf with
    | none => exact .none
    | some hrel => exact .some hrel

end

end Strings

end EagleOS.ESTD
