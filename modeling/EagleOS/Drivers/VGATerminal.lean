import EagleOS.Drivers.VGA
import EagleOS.Foundations.Terminal

/-!
# The screen as a terminal

The driver writes to the screen as to a terminal of 25 lines of 80 characters (`Foundations.Terminal`), as long as the
row below the screen is blank: `ScrollDown` moves that row onto the last line, and clears the rows from there on only
then.

## What is proved

* `Shows.makeRoom`, `Shows.print` — the two halves of `WriteCharColor`.
* `Shows.writeChar`, `Shows.write` — the refinement, for one character and for a text.
* `terminal_shown_iff` — the screen shows the terminal, whatever is written, if and only if the row below the screen
  is blank at the start.
-/

namespace EagleOS.Drivers

open Foundations Foundations.Terminal

/-- The terminal that the screen is. -/
abbrev Screen := Terminal (BitVec 8) 24 79

/-- A byte, as the terminal takes it. -/
def input (ch : BitVec 8) : Terminal.Input (BitVec 8) :=
  if ch = 0#8 then .ignored else if ch = 0x0A#8 then .newline else .char ch

/-- The terminal after a text. -/
def typed (t : Screen) (text : List (BitVec 8)) : Screen := text.foldl (fun t ch => t.write 0x20#8 (input ch)) t

theorem typed_append (t : Screen) (text : List (BitVec 8)) (ch : BitVec 8) :
    typed t (text ++ [ch]) = (typed t text).write 0x20#8 (input ch) := by
  simp only [typed, List.foldl_append, List.foldl_cons, List.foldl_nil]

/-- The screen shows the terminal. -/
structure Shows (c : Console) (t : Screen) : Prop where
  /-- The characters of the visible cells. -/
  chars : ∀ r x, c.charAt (r.val * 80 + x.val) = t.lines r x
  /-- The column. -/
  col : c.vga.col.toNat = t.col.val
  /-- The row. -/
  row : c.vga.row.toNat = t.row.val

/-- The row below the screen is blank. -/
def BlankBelow (c : Console) : Prop := ∀ x < 80, c.charAt (2000 + x) = 0x20#8

namespace Console

/-- What `WriteCharColor` does first. -/
def makeRoom (c : Console) : Console := if 25#16 ≤ c.vga.row then c.scrollDown else c

/-- What it does with a character that is shown. -/
def print (c : Console) (ch : BitVec 8) (color : VGAColor) : Console :=
  let c := c.writeCharLocation c.vga.col c.vga.row ch color
  let vga := { c.vga with col := c.vga.col + 1#16 }
  let vga := if 80#16 ≤ vga.col then { vga with col := 0#16, row := vga.row + 1#16 } else vga
  { c with vga := vga }.setCursor ((getTextOffset vga.col vga.row).setWidth 16)

/-- What it does at the end of a line. -/
def newline (c : Console) : Console := { c with vga := { c.vga with col := 0#16, row := c.vga.row + 1#16 } }

theorem writeCharColor_eq (c : Console) (ch : BitVec 8) (color : VGAColor) : c.writeCharColor ch color =
    if ch = 0#8 then c else if ch = 0x0A#8 then c.makeRoom.newline else c.makeRoom.print ch color := rfl

end Console

variable {c : Console} {t : Screen} {lines : Lines (BitVec 8) 24 79} {row : Fin 25} {ch : BitVec 8} {color : VGAColor}

theorem makeRoom_of_lt (h : c.vga.row.toNat < 25) : c.makeRoom = c := by
  refine if_neg ?_
  rw [BitVec.le_def]
  exact Nat.not_le.mpr h

theorem makeRoom_below (h : c.vga.row.toNat = 25) : c.makeRoom = c.scrollDown := by
  refine if_pos ?_
  rw [BitVec.le_def, h]
  rfl

theorem row_of_toNat (h : c.vga.row.toNat = 25) : c.vga.row = 25#16 := BitVec.eq_of_toNat_eq h

/-! ### One character -/

/-- Room is made on the screen as on the terminal, if the screen does not scroll or what is below it is blank. -/
theorem Shows.makeRoom (h : Shows c t) (hbelow : t.row.val < 25 ∨ BlankBelow c) :
    Shows c.makeRoom ⟨(t.room 0x20#8).1, t.col, (t.room 0x20#8).2.castSucc⟩ := by
  by_cases hlt : t.row.val < 25
  · rw [makeRoom_of_lt (h.row ▸ hlt), room_of_lt hlt]
    exact h
  · have hrow : t.row.val = 25 := by omega
    rw [makeRoom_below (h.row.trans hrow), room_below hrow]
    have hvga : c.vga.row = 25#16 := row_of_toNat (h.row.trans hrow)
    refine ⟨fun r x => ?_, h.col, ?_⟩
    · rw [Console.charAt_scrollDown hvga (by omega), if_pos (by omega)]
      dsimp only
      by_cases hr : r.val < 24
      · rw [shift_of_lt hr, ← h.chars]
        congr 1
        simp only
        omega
      · rw [shift_last (by omega), show r.val * 80 + x.val + 80 = 2000 + x.val by omega]
        exact hbelow.resolve_left hlt x.val x.isLt
    · simp [Console.scrollDown, hvga]

/-- The rest of a line is as it was. -/
theorem Shows.newline (h : Shows c ⟨lines, t.col, row.castSucc⟩) : Shows c.newline ⟨lines, 0, row.succ⟩ := by
  refine ⟨h.chars, rfl, ?_⟩
  have hrow := h.row
  simp only [Fin.val_castSucc] at hrow
  simp only [Console.newline, BitVec.toNat_add, hrow, Fin.val_succ]
  simp
  omega

theorem vga_print (c : Console) (ch : BitVec 8) (color : VGAColor) : (c.print ch color).vga = if 80#16 ≤ c.vga.col + 1#16 then
    { c.vga with col := 0#16, row := c.vga.row + 1#16 } else { c.vga with col := c.vga.col + 1#16 } := rfl

theorem charAt_print {i : ℕ} (hi : i < 2 ^ 31) :
    (c.print ch color).charAt i = if i = c.vga.row.toNat * 80 + c.vga.col.toNat then ch else c.charAt i := by
  have hbase : (c.print ch color).vga.videoAddress = c.vga.videoAddress := by
    rw [vga_print]
    split <;> rfl
  have hmemory : (c.print ch color).memory = (c.writeCharLocation c.vga.col c.vga.row ch color).memory := rfl
  rw [Console.charAt, hbase, hmemory]
  exact Console.charAt_writeCharLocation hi

/-- A character is put in its place, and the place moves on. -/
theorem Shows.print (h : Shows c ⟨lines, t.col, row.castSucc⟩) :
    Shows (c.print ch color) ⟨put lines row t.col ch, (next t.col row).1, (next t.col row).2⟩ := by
  have hrow : c.vga.row.toNat = row.val := h.row
  have hcol : c.vga.col.toNat = t.col.val := h.col
  have hadd : (c.vga.col + 1#16).toNat = t.col.val + 1 := by
    simp [BitVec.toNat_add, hcol]
    omega
  have hchars : ∀ r x, (c.print ch color).charAt (r.val * 80 + x.val) = put lines row t.col ch r x := by
    intro r x
    rw [charAt_print (by omega), put_apply, hrow, hcol, h.chars]
    have hiff : r.val * 80 + x.val = row.val * 80 + t.col.val ↔ r = row ∧ x = t.col := by
      rw [Fin.ext_iff, Fin.ext_iff]
      omega
    simp only [hiff]
  have hvga := vga_print c ch color
  by_cases hlt : t.col.val + 1 < 80
  · have hnext : next t.col row = (⟨t.col.val + 1, hlt⟩, row.castSucc) := dif_pos hlt
    have hle : ¬ 80#16 ≤ c.vga.col + 1#16 := by
      rw [BitVec.le_def, hadd]
      exact Nat.not_le.mpr hlt
    rw [if_neg hle] at hvga
    rw [hnext]
    exact ⟨hchars, by rw [hvga]; exact hadd, by rw [hvga]; exact hrow⟩
  · have hnext : next t.col row = (0, row.succ) := dif_neg hlt
    have hle : 80#16 ≤ c.vga.col + 1#16 := by
      rw [BitVec.le_def, hadd]
      exact Nat.not_lt.mp hlt
    rw [if_pos hle] at hvga
    rw [hnext]
    refine ⟨hchars, by rw [hvga]; rfl, ?_⟩
    rw [hvga]
    simp [BitVec.toNat_add, hrow]
    omega

/-- What is below the screen stays as it is, unless the screen scrolls: then it becomes blank. -/
theorem BlankBelow.makeRoom (h : c.vga.row.toNat ≤ 25) (hblank : BlankBelow c) : BlankBelow c.makeRoom := by
  intro x hx
  by_cases hlt : c.vga.row.toNat < 25
  · rw [makeRoom_of_lt hlt]
    exact hblank x hx
  · have hrow : c.vga.row.toNat = 25 := by omega
    rw [makeRoom_below hrow, Console.charAt_scrollDown (row_of_toNat hrow) (by omega), if_neg (by omega)]

/-- A character does not go below the screen. -/
theorem charAt_print_below (hrow : c.vga.row.toNat < 25) (hcol : c.vga.col.toNat < 80) {i : ℕ} (hi : 2000 ≤ i) (hi' : i < 2 ^ 31) :
    (c.print ch color).charAt i = c.charAt i := by
  rw [charAt_print hi', if_neg (by omega)]

/-- **Refinement**, for one character. -/
theorem Shows.writeChar (h : Shows c t) (hblank : BlankBelow c) (ch : BitVec 8) :
    Shows (c.writeChar ch) (t.write 0x20#8 (input ch)) ∧ BlankBelow (c.writeChar ch) := by
  have hroom := h.makeRoom (.inr hblank)
  have hblank' := hblank.makeRoom (by rw [h.row]; omega)
  rw [Console.writeChar, Console.writeCharColor_eq, input]
  by_cases h0 : ch = 0#8
  · rw [if_pos h0, if_pos h0]
    exact ⟨h, hblank⟩
  rw [if_neg h0, if_neg h0]
  by_cases hn : ch = 0x0A#8
  · rw [if_pos hn, if_pos hn]
    exact ⟨hroom.newline, hblank'⟩
  · rw [if_neg hn, if_neg hn]
    refine ⟨hroom.print, fun x hx => ?_⟩
    have hrow := hroom.row
    have hcol := hroom.col
    simp only [Fin.val_castSucc] at hrow
    exact (charAt_print_below (by omega) (by omega) (by omega) (by omega)).trans (hblank' x hx)

/-- **Refinement**, for a text. -/
theorem Shows.write (h : Shows c t) (hblank : BlankBelow c) (text : List (BitVec 8)) :
    Shows (text.foldl Console.writeChar c) (typed t text) := by
  induction text generalizing c t with
  | nil => exact h
  | cons ch text ih =>
    obtain ⟨h', hblank'⟩ := h.writeChar hblank ch
    exact ih h' hblank'

/-! ### The row below the screen -/

/-- The end of a line, when the screen does not scroll. -/
theorem Shows.writeChar_newline (h : Shows c t) (hlt : t.row.val < 25) :
    Shows (c.writeChar 0x0A#8) (t.write 0x20#8 .newline) ∧ ∀ i, (c.writeChar 0x0A#8).charAt i = c.charAt i := by
  have hcall : c.writeChar 0x0A#8 = c.makeRoom.newline := rfl
  refine ⟨hcall ▸ (h.makeRoom (.inl hlt)).newline, fun i => ?_⟩
  rw [hcall, makeRoom_of_lt (h.row ▸ hlt)]
  rfl

/-- Newlines lead below the screen, and change nothing there. -/
theorem Shows.newlines (h : Shows c t) {n : ℕ} (hn : t.row.val + n = 25) :
    Shows ((List.replicate n 0x0A#8).foldl Console.writeChar c)
        (typed t (List.replicate n 0x0A#8)) ∧
      (typed t (List.replicate n 0x0A#8)).row.val = 25 ∧
      ∀ i, ((List.replicate n 0x0A#8).foldl Console.writeChar c).charAt i = c.charAt i := by
  induction n generalizing c t with
  | zero => exact ⟨h, hn, fun _ => rfl⟩
  | succ n ih =>
    have hlt : t.row.val < 25 := by omega
    obtain ⟨h', hsame⟩ := h.writeChar_newline hlt
    have hrow : (t.write 0x20#8 .newline).row.val + n = 25 := by
      rw [Terminal.write, room_of_lt hlt]
      simp only [Fin.val_succ]
      omega
    obtain ⟨hshows, hbelow, hchars⟩ := ih h' hrow
    exact ⟨hshows, hbelow, fun i => (hchars i).trans (hsame i)⟩

/-- After one newline more the row below the screen is on the last line, where the terminal is blank. -/
theorem Shows.scrolled (h : Shows c t) {n : ℕ} (hn : t.row.val + n = 25) (x : Fin 80) :
    ((List.replicate (n + 1) 0x0A#8).foldl Console.writeChar c).charAt (24 * 80 + x.val) = c.charAt (2000 + x.val) ∧
      (typed t (List.replicate (n + 1) 0x0A#8)).lines (Fin.last 24) x = 0x20#8 := by
  obtain ⟨h', hrow, hsame⟩ := h.newlines hn
  rw [List.replicate_succ', typed_append, List.foldl_append, List.foldl_cons, List.foldl_nil, ← hsame]
  generalize (List.replicate n 0x0A#8).foldl Console.writeChar c = c' at h'
  generalize typed t (List.replicate n 0x0A#8) = t' at h' hrow
  have hrow' := h'.row.trans hrow
  constructor
  · have hcall : c'.writeChar 0x0A#8 = c'.makeRoom.newline := rfl
    have hchar : (c'.scrollDown.newline).charAt (24 * 80 + x.val) = c'.scrollDown.charAt (24 * 80 + x.val) := rfl
    rw [hcall, makeRoom_below hrow', hchar, Console.charAt_scrollDown (row_of_toNat hrow') (by omega), if_pos (by omega)]
    congr 1
    omega
  · have hinput : input 0x0A#8 = .newline := rfl
    have hlast : (Fin.last 24).val = 24 := rfl
    rw [hinput, Terminal.write, room_below hrow]
    dsimp only
    exact shift_last hlast

/-- The screen that has been cleared. -/
theorem shows_clearScreen (hcol : c.vga.col.toNat < 80) (hrow : c.vga.row.toNat ≤ 25) :
    Shows c.clearScreen (cleared 0x20#8 ⟨c.vga.col.toNat, hcol⟩ ⟨c.vga.row.toNat, Nat.lt_succ_of_le hrow⟩) := by
  obtain ⟨hvga, -⟩ := Console.charAt_clearScreen (show 0 < 2 ^ 31 by omega) c
  refine ⟨fun r x => ?_, by rw [hvga]; rfl, by rw [hvga]; rfl⟩
  rw [(Console.charAt_clearScreen (by omega) c).2, if_pos (by omega)]
  rfl

/-- **The console is a terminal** of 25 lines of 80 characters, after `ClearScreen` and whatever is written, if and only
if the row of the video memory below the screen is blank. -/
theorem terminal_shown_iff (c : Console) (hcol : c.vga.col.toNat < 80) (hrow : c.vga.row.toNat ≤ 25) :
    (∀ (text : List (BitVec 8)) (r : Fin 25) (x : Fin 80),
      (text.foldl Console.writeChar c.clearScreen).charAt (r.val * 80 + x.val) =
        (typed (cleared 0x20#8 ⟨c.vga.col.toNat, hcol⟩ ⟨c.vga.row.toNat, Nat.lt_succ_of_le hrow⟩) text).lines r x) ↔
      ∀ x < 80, c.charAt (2000 + x) = 0x20#8 := by
  have hstart := shows_clearScreen hcol hrow
  constructor
  · intro hall x hx
    obtain ⟨n, hn⟩ : ∃ n, c.vga.row.toNat + n = 25 := ⟨25 - c.vga.row.toNat, by omega⟩
    obtain ⟨hcode, hterminal⟩ := hstart.scrolled hn ⟨x, hx⟩
    have hbelow := hcode.symm.trans ((hall _ (Fin.last 24) ⟨x, hx⟩).trans hterminal)
    rwa [(Console.charAt_clearScreen (by omega) c).2, if_neg (by omega)] at hbelow
  · intro hblank text r x
    refine (hstart.write (fun x hx => ?_) text).chars r x
    rw [(Console.charAt_clearScreen (by omega) c).2, if_neg (by omega)]
    exact hblank x hx

/-- The driver after `Init`, and a memory that is filled with one character. -/
def filledWith (ch : BitVec 8) : Console where
  vga := ⟨0xB8000#32, 0#16, 0#16, .lightBrown, 0x3D4#16, 0x3D5#16⟩
  memory := fun _ => ch
  crtc := ⟨1#8, 0#8, fun _ => 0#8⟩

/-- In a memory of spaces. -/
theorem terminal_shown_iff_filledWith_space :
    (∀ x < 80, (filledWith 0x20#8).charAt (2000 + x) = 0x20#8) ∧
      ∀ (text : List (BitVec 8)) (r : Fin 25) (x : Fin 80),
        (text.foldl Console.writeChar (filledWith 0x20#8).clearScreen).charAt (r.val * 80 + x.val) =
          (typed (cleared 0x20#8 0 0) text).lines r x :=
  have hblank : ∀ x < 80, (filledWith 0x20#8).charAt (2000 + x) = 0x20#8 := fun _ _ => rfl
  ⟨hblank, (terminal_shown_iff (filledWith 0x20#8) (by decide) (by decide)).mpr hblank⟩

/-- In a memory of stars 26 newlines bring stars onto the last line. -/
theorem stars_shown :
    (∀ x : Fin 80, ((List.replicate 26 0x0A#8).foldl Console.writeChar (filledWith 0x2A#8).clearScreen).charAt
      (24 * 80 + x.val) = 0x2A#8) ∧
    ∀ x : Fin 80, (typed (cleared 0x20#8 0 0) (List.replicate 26 0x0A#8)).lines (Fin.last 24) x = 0x20#8 := by
  have hstart : Shows (filledWith 0x2A#8).clearScreen (cleared 0x20#8 0 0) := shows_clearScreen (by decide) (by decide)
  have hscrolled (x : Fin 80) := hstart.scrolled (show (0 : Fin 26).val + 25 = 25 from rfl) x
  refine ⟨fun x => ?_, fun x => (hscrolled x).2⟩
  have hsame := (Console.charAt_clearScreen (show 2000 + x.val < 2 ^ 31 by omega) (filledWith 0x2A#8)).2
  have hstar : (filledWith 0x2A#8).charAt (2000 + x.val) = 0x2A#8 := rfl
  rw [if_neg (by omega), hstar] at hsame
  exact (hscrolled x).1.trans hsame

end EagleOS.Drivers
