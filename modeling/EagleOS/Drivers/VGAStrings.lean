import EagleOS.Drivers.VGA
import EagleOS.ESTD.CString

/-!
# `VGA::WriteStr`

A text is written character by character, from where a pointer points to.

## The model

The driver is a `Console`, as before. A `Printing` is an action on blocks that writes to a `Display`: the console, and a
record of what `WriteChar` is called with, which nothing reads.

## What is proved

* `run_writeStr` — `WriteChar` is called with the characters of a text, in order.
* `strays_liftM` — an access outside that an action makes is made by what writes.
-/

namespace EagleOS.Drivers

open Foundations Buffers ESTD

/-- The console, and what has been written to it. -/
structure Display where
  /-- The console. -/
  console : Console
  /-- The characters that `WriteChar` has been called with. -/
  written : List (BitVec 8)

namespace Display

/-- The display after these characters. -/
def write (d : Display) (chars : List (BitVec 8)) : Display := ⟨chars.foldl Console.writeChar d.console, d.written ++ chars⟩

variable {d : Display} {xs ys : List (BitVec 8)}

@[simp] theorem write_nil : d.write [] = d := by simp [write]

@[simp] theorem written_write : (d.write xs).written = d.written ++ xs := rfl

theorem write_write : (d.write xs).write ys = d.write (xs ++ ys) := by simp [write]

end Display

/-- What writes to a display. -/
abbrev Printing := StateT Display Action

namespace Printing

/-- `WriteChar`. -/
def writeChar (ch : BitVec 8) : Printing Unit := modify fun d => ⟨d.console.writeChar ch, d.written ++ [ch]⟩

/-- The loop of `WriteStr`. -/
def writeStrLoop (str : Pointer) : ℕ → ℕ → Printing Unit
  | 0, _ => fun _ => .hang
  | fuel + 1, i => do
    if i < (← CString.strlen str).toNat then
      writeChar (← load (str + i))
      writeStrLoop str fuel (i + 1)
    else pure ()

/-- `WriteStr`. -/
def writeStr (str : Pointer) : Printing Unit := writeStrLoop str (2 ^ 32) 0

/-! ### What is written -/

section

variable {α β : Type} {d d' : Display} {w w' : Buffers} {v : α} {p : Pointer} {chars : List (BitVec 8)}

/-- What goes on after a first part that returns. -/
theorem run_bind_of {m : Printing α} {f : α → Printing β} (h : (m.run d).run w = some ((v, d'), w')) :
    ((m >>= f).run d).run w = ((f v).run d').run w' := by
  rw [StateT.run_bind, Action.run_bind, h]
  rfl

/-- An action on blocks leaves the display as it is. -/
theorem run_liftM {a : Action α} (h : a.run w = some (v, w')) : ((liftM a : Printing α).run d).run w = some ((v, d), w') := by
  have hlift : (liftM a : Printing α).run d = a >>= fun v => pure (v, d) := rfl
  rw [hlift, Action.run_bind, h]
  rfl

theorem run_writeChar (ch : BitVec 8) : ((writeChar ch).run d).run w = some (((), d.write [ch]), w) := rfl

/-- The loop of `WriteStr` writes what is left of a text. -/
theorem run_writeStrLoop {xs ys : List (BitVec 8)} {fuel : ℕ} (h : w.IsText p chars) (hchars : chars = xs ++ ys)
    (hfuel : ys.length < fuel) : ((writeStrLoop p fuel xs.length).run d).run w = some (((), d.write ys), w) := by
  have hfits := h.fits
  have hstrlen := fun d => @run_liftM _ d _ _ _ _ (CString.run_strlen h)
  have hlen : (BitVec.ofNat 32 chars.length).toNat = chars.length := by
    rw [BitVec.toNat_ofNat, Nat.mod_eq_of_lt (by omega)]
  induction ys generalizing xs fuel d with
  | nil =>
    obtain ⟨fuel, rfl⟩ : ∃ n, fuel = n + 1 := Nat.exists_eq_succ_of_ne_zero (Nat.ne_of_gt hfuel)
    rw [writeStrLoop, run_bind_of (hstrlen d), hlen, hchars, List.append_nil, if_neg (Nat.lt_irrefl _), Display.write_nil]
    rfl
  | cons y ys ih =>
    obtain ⟨fuel, rfl⟩ : ∃ n, fuel = n + 1 := Nat.exists_eq_succ_of_ne_zero (by omega)
    have hy : w.byteAt? (p + xs.length) = some y := by
      have hreads := (reads_append.mp h.reads).1
      rw [hchars] at hreads
      exact (reads_cons.mp (reads_append.mp hreads).2).1
    have hlt : xs.length < chars.length := by
      rw [hchars, List.length_append, List.length_cons]
      omega
    have hnext := @ih (d.write [y]) (xs ++ [y]) fuel (by rw [hchars, List.append_assoc, List.singleton_append])
      (Nat.lt_of_succ_lt_succ hfuel)
    rw [List.length_append, List.length_singleton, Display.write_write, List.singleton_append] at hnext
    rw [writeStrLoop, run_bind_of (hstrlen d), hlen, if_pos hlt, run_bind_of (run_liftM (run_load hy)),
      run_bind_of (run_writeChar y), hnext]

/-- `WriteStr` writes a text. -/
theorem run_writeStr (h : w.IsText p chars) : ((writeStr p).run d).run w = some (((), d.write chars), w) := by
  have hfits := h.fits
  exact @run_writeStrLoop d w p chars [] chars _ h rfl (by omega)

end

theorem strays_liftM {α : Type} {w : Buffers} {a : Action α} (ha : Strays w a) (d : Display) :
    Strays w ((liftM a : Printing α).run d) := by
  have hlift : (liftM a : Printing α).run d = a >>= fun v => pure (v, d) := rfl
  rw [hlift]
  exact ha.bind

end Printing

end EagleOS.Drivers
