import Mathlib.Logic.Function.Basic
import EagleOS.ESTD.CString

/-!
# `ESTD::String`

A string owns a buffer, or none: `m_Data` points to it, and `m_Size` is the length of the text.

## The model

The member functions are actions on the buffers. What they do is kept as the source has it: the constructor from a
size and a character makes no room for a terminator; a move empties only `m_Data`; the assignments do not delete the
buffer that `m_Data` points to; `operator+` and `Substr` return their buffer as a `const char*`, which the constructor
of the result copies.

`Strings` are the objects of a program, and `StringCall` is what it does with them, in any memory of blocks. An object may be
assigned to itself.

## What is proved

* `Strings.objects_call` — a call leaves the objects that it does not name.
-/

namespace EagleOS.ESTD

open Foundations Buffers CString

/-- `String`. -/
structure String where
  /-- `m_Data`. -/
  data : Pointer
  /-- `m_Size`. -/
  size : SizeT

namespace String

/-- `String()`. -/
def empty : String := ⟨.null, 0#32⟩

/-- `~String()`. -/
def destroy (s : String) : Action Unit := if s.data.base ≠ .null then deleteArray s.data else pure ()

/-- `String(const char* str)`. -/
def ofText (str : Pointer) : Action String := do
  let data ← strdup str
  let size ← strlen str
  pure ⟨data, size⟩

/-- `String(const char* str, size_t size)`. -/
def ofPrefix (str : Pointer) (size : SizeT) : Action String := do
  let data ← strndup str size
  pure ⟨data, size⟩

/-- `String(size_t size, char ch)`. -/
def filled (size : SizeT) (ch : BitVec 8) : Action String := do
  let data ← newArray size
  CString.memset data ch size.toNat
  pure ⟨data, size⟩

/-- `String(const String& rhs)`. -/
def copy (rhs : String) : Action String := do
  let data ← strdup rhs.data
  pure ⟨data, rhs.size⟩

/-- `String(String&& rhs)`: the new string, and what is left of `rhs`. -/
def move (rhs : String) : String × String := (⟨rhs.data, rhs.size⟩, { rhs with data := .null })

/-- `operator=(const String& rhs)`: what the string was does not matter. -/
def assign (rhs : String) : Action String := do
  let data ← strdup rhs.data
  pure ⟨data, rhs.size⟩

/-- `operator=(String&& rhs)`: what the string was does not matter. -/
def moveAssign (rhs : String) : String × String := (⟨rhs.data, rhs.size⟩, { rhs with data := .null })

/-- `operator==`. -/
def equal (s rhs : String) : Action Bool := do
  let r ← strncmp s.data rhs.data s.size.toNat
  pure (r == 0)

/-- `operator!=`. -/
def notEqual (s rhs : String) : Action Bool := do
  let r ← strncmp s.data rhs.data s.size.toNat
  pure (r != 0)

/-- `operator+(const String& rhs)`. -/
def add (s rhs : String) : Action String := do
  let len := s.size + rhs.size + 1#32
  let buf ← newArray len
  CString.memcpy buf s.data s.size.toNat
  CString.memcpy (buf + s.size.toNat) rhs.data rhs.size.toNat
  store (buf + (len - 1#32).toNat) 0#8
  ofText buf

/-- `operator+(char rhs)`. -/
def addChar (s : String) (rhs : BitVec 8) : Action String := do
  let len := s.size + 2#32
  let buf ← newArray len
  CString.memcpy buf s.data s.size.toNat
  store (buf + (len - 2#32).toNat) rhs
  store (buf + (len - 1#32).toNat) 0#8
  ofText buf

/-- `*this = *this + rhs`, where `sum` is `*this + rhs`: the temporary is moved from, and destroyed. -/
def become (sum : Action String) : Action String := do
  let temp ← sum
  let (this, temp) := moveAssign temp
  temp.destroy
  pure this

/-- `operator+=(const String& rhs)`. -/
def append (s rhs : String) : Action String := become (s.add rhs)

/-- `operator+=(char rhs)`. -/
def appendChar (s : String) (rhs : BitVec 8) : Action String := become (s.addChar rhs)

/-- `Substr`. -/
def substr (s : String) (pos len : SizeT) : Action String := do
  let buf ← newArray len
  CString.memcpy buf (s.data + pos.toNat) len.toNat
  store (buf + len.toNat) 0#8
  ofText buf

end String

/-- The string objects of a program, and the memory with their buffers. -/
structure Strings (σ : Type) where
  /-- The buffers. -/
  buffers : σ
  /-- The objects that are live. -/
  objects : ℕ → Option String

/-- What a program does with strings. -/
inductive StringCall where
  /-- `String x;` -/
  | construct (x : ℕ)
  /-- `String x(str);` -/
  | constructText (x : ℕ) (str : Pointer)
  /-- `String x(str, size);` -/
  | constructPrefix (x : ℕ) (str : Pointer) (size : SizeT)
  /-- `String x(size, ch);` -/
  | constructFilled (x : ℕ) (size : SizeT) (ch : BitVec 8)
  /-- `String x(y);` -/
  | copy (x y : ℕ)
  /-- `String x(Move(y));` -/
  | move (x y : ℕ)
  /-- `x = y;` -/
  | assign (x y : ℕ)
  /-- `x = Move(y);` -/
  | moveAssign (x y : ℕ)
  /-- `x == y` -/
  | equal (x y : ℕ)
  /-- `x != y` -/
  | notEqual (x y : ℕ)
  /-- `String x = y + z;` -/
  | add (x y z : ℕ)
  /-- `String x = y + ch;` -/
  | addChar (x y : ℕ) (ch : BitVec 8)
  /-- `x += y;` -/
  | append (x y : ℕ)
  /-- `x += ch;` -/
  | appendChar (x : ℕ) (ch : BitVec 8)
  /-- `String x = y.Substr(pos, len);` -/
  | substr (x y : ℕ) (pos len : SizeT)
  /-- The end of `x`. -/
  | destroy (x : ℕ)

namespace Strings

variable {σ : Type} [BlockMemory σ]

/-- No object, and no buffer. -/
def start (outside : ℕ → BitVec 8) (fresh : ℕ → ℕ → BitVec 8) : Strings Buffers := ⟨.empty outside fresh, fun _ => none⟩

/-- The object `x` becomes what an action returns. -/
def set (s : Strings σ) (x : ℕ) (a : Action String) : Option (Strings σ) :=
  (a.run s.buffers).map fun r => ⟨r.2, Function.update s.objects x (some r.1)⟩

/-- A new object is what an action returns. -/
def create (s : Strings σ) (x : ℕ) (a : Action String) : Option (Strings σ) :=
  if (s.objects x).isNone then s.set x a else none

/-- A comparison. -/
def compare (s : Strings σ) (a : Action Bool) : Option (Strings σ) :=
  (a.run s.buffers).map fun r => { s with buffers := r.2 }

/-- After a call; there is none for a call on objects that are not live, or that does not return. -/
def call (s : Strings σ) : StringCall → Option (Strings σ)
  | .construct x => s.create x (pure String.empty)
  | .constructText x str => s.create x (String.ofText str)
  | .constructPrefix x str size => s.create x (String.ofPrefix str size)
  | .constructFilled x size ch => s.create x (String.filled size ch)
  | .copy x y => do s.create x (String.copy (← s.objects y))
  | .move x y => do
    let rhs ← s.objects y
    if (s.objects x).isNone then
      some { s with objects := Function.update (Function.update s.objects x (some rhs.move.1)) y (some rhs.move.2) }
    else none
  | .assign x y => do
    let _ ← s.objects x
    s.set x (String.assign (← s.objects y))
  | .moveAssign x y => do
    let _ ← s.objects x
    let rhs ← s.objects y
    -- where `x` is `y`, it ends as what is left
    some { s with
      objects := Function.update (Function.update s.objects x (some rhs.moveAssign.1)) y (some rhs.moveAssign.2) }
  | .equal x y => do s.compare ((← s.objects x).equal (← s.objects y))
  | .notEqual x y => do s.compare ((← s.objects x).notEqual (← s.objects y))
  | .add x y z => do s.create x ((← s.objects y).add (← s.objects z))
  | .addChar x y ch => do s.create x ((← s.objects y).addChar ch)
  | .append x y => do s.set x ((← s.objects x).append (← s.objects y))
  | .appendChar x ch => do s.set x ((← s.objects x).appendChar ch)
  | .substr x y pos len => do s.create x ((← s.objects y).substr pos len)
  | .destroy x => do
    let r ← (← s.objects x).destroy.run s.buffers
    some ⟨r.2, Function.update s.objects x none⟩

/-- A call, as a step. -/
def Step (s : Strings σ) (c : StringCall) (t : Strings σ) : Prop := s.call c = some t

/-! ### What a call leaves -/

/-- The objects that a call can change. -/
def changes : StringCall → List ℕ
  | .construct x => [x]
  | .constructText x _ => [x]
  | .constructPrefix x _ _ => [x]
  | .constructFilled x _ _ => [x]
  | .copy x _ => [x]
  | .move x y => [x, y]
  | .assign x _ => [x]
  | .moveAssign x y => [x, y]
  | .equal _ _ => []
  | .notEqual _ _ => []
  | .add x _ _ => [x]
  | .addChar x _ _ => [x]
  | .append x _ => [x]
  | .appendChar x _ => [x]
  | .substr x _ _ _ => [x]
  | .destroy x => [x]

section

variable {s t : Strings σ} {x z : ℕ} {a : Action String}

theorem objects_set (h : s.set x a = some t) (hz : z ≠ x) : t.objects z = s.objects z := by
  obtain ⟨r, -, rfl⟩ := Option.map_eq_some_iff.mp h
  exact Function.update_of_ne hz _ _

theorem objects_create (h : s.create x a = some t) (hz : z ≠ x) : t.objects z = s.objects z := by
  unfold create at h
  split at h
  · exact objects_set h hz
  · cases h

theorem objects_compare {a : Action Bool} (h : s.compare a = some t) : t.objects z = s.objects z := by
  obtain ⟨r, -, rfl⟩ := Option.map_eq_some_iff.mp h
  rfl

/-- A call leaves the other objects. -/
theorem objects_call {c : StringCall} (h : s.call c = some t) (hz : z ∉ changes c) : t.objects z = s.objects z := by
  cases c with
  | construct x => exact objects_create h (by simpa [changes] using hz)
  | constructText x p => exact objects_create h (by simpa [changes] using hz)
  | constructPrefix x p size => exact objects_create h (by simpa [changes] using hz)
  | constructFilled x size ch => exact objects_create h (by simpa [changes] using hz)
  | copy x y =>
    obtain ⟨rhs, -, h⟩ := Option.bind_eq_some_iff.mp h
    exact objects_create h (by simpa [changes] using hz)
  | move x y =>
    obtain ⟨rhs, -, h⟩ := Option.bind_eq_some_iff.mp h
    split at h
    · cases h
      simp only [changes, List.mem_cons, List.not_mem_nil, or_false, not_or] at hz
      simp [Function.update_of_ne hz.1, Function.update_of_ne hz.2]
    · cases h
  | assign x y =>
    obtain ⟨-, -, h⟩ := Option.bind_eq_some_iff.mp h
    obtain ⟨rhs, -, h⟩ := Option.bind_eq_some_iff.mp h
    exact objects_set h (by simpa [changes] using hz)
  | moveAssign x y =>
    obtain ⟨-, -, h⟩ := Option.bind_eq_some_iff.mp h
    obtain ⟨rhs, -, h⟩ := Option.bind_eq_some_iff.mp h
    cases h
    simp only [changes, List.mem_cons, List.not_mem_nil, or_false, not_or] at hz
    simp [Function.update_of_ne hz.1, Function.update_of_ne hz.2]
  | equal x y =>
    obtain ⟨lhs, -, h⟩ := Option.bind_eq_some_iff.mp h
    obtain ⟨rhs, -, h⟩ := Option.bind_eq_some_iff.mp h
    exact objects_compare h
  | notEqual x y =>
    obtain ⟨lhs, -, h⟩ := Option.bind_eq_some_iff.mp h
    obtain ⟨rhs, -, h⟩ := Option.bind_eq_some_iff.mp h
    exact objects_compare h
  | add x y z =>
    obtain ⟨lhs, -, h⟩ := Option.bind_eq_some_iff.mp h
    obtain ⟨rhs, -, h⟩ := Option.bind_eq_some_iff.mp h
    exact objects_create h (by simpa [changes] using hz)
  | addChar x y ch =>
    obtain ⟨lhs, -, h⟩ := Option.bind_eq_some_iff.mp h
    exact objects_create h (by simpa [changes] using hz)
  | append x y =>
    obtain ⟨lhs, -, h⟩ := Option.bind_eq_some_iff.mp h
    obtain ⟨rhs, -, h⟩ := Option.bind_eq_some_iff.mp h
    exact objects_set h (by simpa [changes] using hz)
  | appendChar x ch =>
    obtain ⟨lhs, -, h⟩ := Option.bind_eq_some_iff.mp h
    exact objects_set h (by simpa [changes] using hz)
  | substr x y pos len =>
    obtain ⟨lhs, -, h⟩ := Option.bind_eq_some_iff.mp h
    exact objects_create h (by simpa [changes] using hz)
  | destroy x =>
    obtain ⟨lhs, -, h⟩ := Option.bind_eq_some_iff.mp h
    obtain ⟨r, -, h⟩ := Option.bind_eq_some_iff.mp h
    cases h
    exact Function.update_of_ne (by simpa [changes] using hz) _ _

/-- So do any calls. -/
theorem objects_calls (calls : List StringCall) (h : calls.foldlM call s = some t) (hz : ∀ c ∈ calls, z ∉ changes c) :
    t.objects z = s.objects z := by
  induction calls generalizing s with
  | nil =>
    cases h
    rfl
  | cons c calls ih =>
    rw [List.foldlM_cons] at h
    obtain ⟨u, hu, hrest⟩ := Option.bind_eq_some_iff.mp h
    rw [List.forall_mem_cons] at hz
    exact (ih hrest hz.2).trans (objects_call hu hz.1)

end

end Strings

end EagleOS.ESTD
