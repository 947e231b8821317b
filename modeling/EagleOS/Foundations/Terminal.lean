import Mathlib.Data.Fin.Basic
import Mathlib.Logic.Function.Basic

/-!
# A scrolling terminal

A terminal shows a fixed number of lines of a fixed number of characters, and a place for the next character. The
place may be below the last line: the lines move up when the next input needs room, and not before.

## The model

The place is a `Fin`, so that it is never to the right of the lines or more than one line below them. Characters are
of any type.

## What is proved

* `room_of_lt`, `room_below` — when the lines move.
* `shift_of_lt`, `shift_last` — the lines that have moved, and the blank one below them.
* `put_apply` — a character is put in its place and in no other.
-/

namespace EagleOS.Foundations

universe u

/-- The lines of a terminal: `height + 1` of them, of `width + 1` characters each. -/
abbrev Lines (α : Type u) (height width : ℕ) := Fin (height + 1) → Fin (width + 1) → α

/-- A terminal. -/
structure Terminal (α : Type u) (height width : ℕ) where
  /-- The characters. -/
  lines : Lines α height width
  /-- The column of the next one. -/
  col : Fin (width + 1)
  /-- Its line, or the one below the last. -/
  row : Fin (height + 2)

/-- What a terminal is given. -/
inductive Terminal.Input (α : Type u) where
  /-- Something that is not shown. -/
  | ignored
  /-- The end of a line. -/
  | newline
  /-- A character. -/
  | char (a : α)

namespace Terminal

variable {α : Type u} {height width : ℕ}

/-- All lines move up by one, and the last one is blank. -/
def shift (blank : α) (lines : Lines α height width) : Lines α height width := fun r =>
  if h : r.val < height then lines ⟨r.val + 1, Nat.succ_lt_succ h⟩ else fun _ => blank

/-- The terminal when there is room for another character: its lines, and the line of the character. -/
def room (blank : α) (t : Terminal α height width) : Lines α height width × Fin (height + 1) :=
  if h : t.row.val < height + 1 then (t.lines, ⟨t.row.val, h⟩) else (shift blank t.lines, Fin.last height)

/-- The place after another one. -/
def next (col : Fin (width + 1)) (row : Fin (height + 1)) : Fin (width + 1) × Fin (height + 2) :=
  if h : col.val + 1 < width + 1 then (⟨col.val + 1, h⟩, row.castSucc) else (0, row.succ)

/-- A character is put in its place. -/
def put (lines : Lines α height width) (row : Fin (height + 1)) (col : Fin (width + 1)) (a : α) : Lines α height width :=
  Function.update lines row (Function.update (lines row) col a)

/-- The terminal after an input. -/
def write (blank : α) (t : Terminal α height width) : Input α → Terminal α height width
  | .ignored => t
  | .newline => ⟨(t.room blank).1, 0, (t.room blank).2.succ⟩
  | .char a =>
    let (lines, row) := t.room blank
    ⟨put lines row t.col a, (next t.col row).1, (next t.col row).2⟩

/-- A terminal that shows nothing. -/
def cleared (blank : α) (col : Fin (width + 1)) (row : Fin (height + 2)) : Terminal α height width :=
  ⟨fun _ _ => blank, col, row⟩

section

variable {blank : α} {t : Terminal α height width} {lines : Lines α height width} {r row : Fin (height + 1)} {x col : Fin (width + 1)}

theorem shift_of_lt (h : r.val < height) : shift blank lines r x = lines ⟨r.val + 1, Nat.succ_lt_succ h⟩ x := by
  simp [shift, h]

theorem shift_last (h : r.val = height) : shift blank lines r x = blank := by
  simp [shift, h]

theorem put_apply (a : α) : put lines row col a r x = if r = row ∧ x = col then a else lines r x := by
  unfold put
  by_cases hr : r = row
  · subst hr
    by_cases hx : x = col
    · simp [hx]
    · simp [hx]
  · simp [hr]

theorem room_of_lt (h : t.row.val < height + 1) : t.room blank = (t.lines, ⟨t.row.val, h⟩) := dif_pos h

/-- Below the last line the lines move. -/
theorem room_below (h : t.row.val = height + 1) : t.room blank = (shift blank t.lines, Fin.last height) :=
  dif_neg (by omega)

end

end Terminal

end EagleOS.Foundations
