import EagleOS.Drivers.VGACalls

/-!
# The cursor

The cursor is to be where the next character goes to. The driver keeps that place in `s_Row` and `s_Col`, and tells the
CRT controller when it has stored a character. It does not when it is given a newline; `ClearScreen` puts the cursor
into the corner of the screen, but not the next character; and the cursor that follows the last cell of the screen is
below the screen, where the next character does not go because the screen scrolls first.

## The model

`Caret` is the place and the cursor. `Marked` says that they fit. `marks` follows a text from a place on, without the
controller, and says whether they fit at its end.

## What is proved

* `cursorLocation_setCursor` — `SetCursor` reaches the registers.
* `caret_step` — what the calls do to the place and to the cursor.
* `Tracked.marked_after` — when they fit after a character; `Tracked` is what makes it exact.
* `cursor_marks_iff` — they fit after every call that writes if and only if each of these calls `Keeps` them together.
-/

namespace EagleOS.Drivers

open Foundations

/-! ### The registers -/

namespace CRTC

/-- The cursor location registers: `CTRL_CURSOR_LOCATION_HIGH_REG` and `CTRL_CURSOR_LOCATION_LOW_REG`. -/
def cursorLocation (crtc : CRTC) : BitVec 16 := crtc.registers 0x0E#8 ++ crtc.registers 0x0F#8

/-- The controller is at these ports. -/
structure Answers (crtc : CRTC) (address data : BitVec 16) : Prop where
  /-- The port of the index register. -/
  address : address = crtc.addressPort
  /-- The port of the others. -/
  data : data = crtc.dataPort

variable {crtc : CRTC} {address data : BitVec 16}

theorem dataPort_ne_addressPort (crtc : CRTC) : crtc.dataPort ≠ crtc.addressPort := by
  rw [dataPort, addressPort]
  split <;> decide

/-- It stays there. -/
theorem Answers.outb (h : crtc.Answers address data) (port : BitVec 16) (v : BitVec 8) :
    (crtc.outb port v).Answers address data := by
  rw [CRTC.outb]
  split_ifs <;> exact ⟨h.address, h.data⟩

theorem registers_outb_address (h : crtc.Answers address data) (v : BitVec 8) :
    (crtc.outb address v).registers = crtc.registers := by
  rw [outb, if_pos h.address]

/-- A register is chosen, and written. -/
theorem registers_outb_outb (h : crtc.Answers address data) (index v : BitVec 8) :
    ((crtc.outb address index).outb data v).registers = Function.update crtc.registers index v := by
  have h' := h.outb address index
  have hne : data ≠ (crtc.outb address index).addressPort := by
    rw [h'.data]
    exact dataPort_ne_addressPort _
  rw [outb, if_neg hne, if_pos h'.data, outb, if_pos h.address]

end CRTC

namespace Console

variable {c : Console}

/-- The driver uses the ports of the controller. -/
def Wired (c : Console) : Prop := c.crtc.Answers c.vga.ctrlAddressRegister c.vga.ctrlDataRegister

/-- An offset from its two bytes. -/
theorem append_offset (offset : BitVec 16) :
    (offset >>> 8 &&& 0xFF#16).setWidth 8 ++ (offset &&& 0xFF#16).setWidth 8 = offset := by
  have hlow : ∀ i < 8, (0xFF#16).getLsbD i = true := by decide
  refine BitVec.eq_of_getLsbD_eq fun i hi => ?_
  simp only [BitVec.getLsbD_append, BitVec.getLsbD_setWidth, BitVec.getLsbD_and, BitVec.getLsbD_ushiftRight]
  grind

/-- `SetCursor` reaches the registers. -/
theorem cursorLocation_setCursor (hw : c.Wired) (offset : BitVec 16) :
    (c.setCursor offset).crtc.cursorLocation = offset := by
  have hlow := (hw.outb c.vga.ctrlAddressRegister 0x0F#8).outb c.vga.ctrlDataRegister
    ((offset &&& 0xFF#16).setWidth 8)
  have hhigh := (hlow.outb c.vga.ctrlAddressRegister 0x0E#8).outb c.vga.ctrlDataRegister
    ((offset >>> 8 &&& 0xFF#16).setWidth 8)
  rw [setCursor, CRTC.cursorLocation, CRTC.registers_outb_address hhigh, CRTC.registers_outb_outb hlow,
    CRTC.registers_outb_outb hw, Function.update_self, Function.update_of_ne (by decide), Function.update_self,
    append_offset]

theorem Wired.setCursor (hw : c.Wired) (offset : BitVec 16) : (c.setCursor offset).Wired :=
  ((((hw.outb _ _).outb _ _).outb _ _).outb _ _).outb _ _

theorem Wired.changeCursorStart (hw : c.Wired) (f : BitVec 8 → BitVec 8) : (c.changeCursorStart f).Wired :=
  ((hw.outb _ _).outb _ _).outb _ _

theorem Wired.enableCursor (hw : c.Wired) : c.enableCursor.Wired := hw.changeCursorStart _

theorem Wired.disableCursor (hw : c.Wired) : c.disableCursor.Wired := hw.changeCursorStart _

/-- `Init` finds the controller. -/
theorem wired_setUp (memory : Memory) (crtc : CRTC) : (setUp ⟨.static, memory, crtc⟩).Wired := by
  have hread : crtc.insb 0x3CC#16 = crtc.miscOutput := if_pos rfl
  have hbit : crtc.miscOutput >>> 0 &&& 1#8 = 0#8 ↔ crtc.miscOutput.getLsbD 0 = false := by
    constructor
    · intro h
      have := congrArg (·.getLsbD 0) h
      simpa using this
    · intro h
      refine BitVec.eq_of_getLsbD_eq fun i hi => ?_
      simp only [BitVec.getLsbD_and, BitVec.getLsbD_ushiftRight, BitVec.getLsbD_one, BitVec.getLsbD_zero]
      grind
  rw [setUp]
  refine Wired.enableCursor (Wired.disableCursor ?_)
  rw [hread]
  by_cases h0 : crtc.miscOutput >>> 0 &&& 1#8 = 0#8
  · have hmono := hbit.mp h0
    rw [if_pos h0]
    exact ⟨by rw [CRTC.addressPort, hmono]; rfl, by rw [CRTC.dataPort, hmono]; rfl⟩
  · have hcolor : crtc.miscOutput.getLsbD 0 = true := Bool.eq_true_of_not_eq_false (mt hbit.mpr h0)
    rw [if_neg h0]
    exact ⟨by rw [CRTC.addressPort, hcolor]; rfl, by rw [CRTC.dataPort, hcolor]; rfl⟩

end Console

/-! ### The place and the cursor -/

/-- Where the next character goes to, and where the cursor is. -/
structure Caret where
  /-- The place. -/
  place : Place
  /-- The offset that the controller has. -/
  cursor : ℕ
  deriving DecidableEq

namespace Caret

/-- The cursor is at the cell of the next character. -/
def Marked (k : Caret) : Prop := k.cursor = k.place.cell

instance (k : Caret) : Decidable k.Marked := inferInstanceAs (Decidable (_ = _))

/-- After another character: the controller is told the place, except for a newline. -/
def after (k : Caret) (ch : BitVec 8) : Caret where
  place := k.place.after ch
  cursor := if ch = 0#8 ∨ ch = 0x0A#8 then k.cursor else (k.place.after ch).row * 80 + (k.place.after ch).col

/-- After a call. -/
def call (k : Caret) : VGACall → Caret
  | .clearScreen => { k with cursor := 0 }
  | .writeChar ch => k.after ch
  | .writeCharColor ch _ => k.after ch
  | .writeStr text => text.foldl after k
  | .setColor _ => k

end Caret

namespace Console

variable {c : Console}

/-- The place and the cursor. -/
def caret (c : Console) : Caret := ⟨c.place, c.crtc.cursorLocation.toNat⟩

/-- The controller is left alone when room is made. -/
theorem wired_makeRoom : c.makeRoom.Wired ↔ c.Wired := by
  rw [makeRoom]
  split <;> rfl

theorem crtc_makeRoom (c : Console) : c.makeRoom.crtc = c.crtc := by
  rw [makeRoom]
  split <;> rfl

/-- The console when a character has been stored, and the controller has not been told. -/
def moved (c : Console) (ch : BitVec 8) (color : VGAColor) : Console :=
  { c.writeCharLocation c.vga.col c.vga.row ch color with vga := (c.print ch color).vga }

theorem print_eq_moved (c : Console) (ch : BitVec 8) (color : VGAColor) :
    c.print ch color = (c.moved ch color).setCursor
      ((getTextOffset (c.moved ch color).vga.col (c.moved ch color).vga.row).setWidth 16) := rfl

theorem Wired.moved (hw : c.Wired) (ch : BitVec 8) (color : VGAColor) : (c.moved ch color).Wired := by
  rw [Wired, Console.moved, vga_print]
  split <;> exact hw

/-- One character. -/
theorem caret_writeCharColor (hw : c.Wired) (h : c.place.OnScreen) (ch : BitVec 8) (color : VGAColor) :
    (c.writeCharColor ch color).caret = c.caret.after ch ∧ (c.writeCharColor ch color).Wired := by
  have hplace := place_writeCharColor h ch color
  have hscreen := h.after ch
  rw [caret, Caret.after, hplace]
  rw [writeCharColor_eq] at hplace ⊢
  by_cases h0 : ch = 0#8
  · rw [if_pos h0, if_pos (.inl h0)]
    exact ⟨rfl, hw⟩
  by_cases hn : ch = 0x0A#8
  · rw [if_neg h0, if_pos hn, if_pos (.inr hn)]
    exact ⟨congrArg (fun crtc => Caret.mk _ crtc.cursorLocation.toNat) (crtc_makeRoom c), wired_makeRoom.mpr hw⟩
  · rw [if_neg h0, if_neg hn, if_neg (by rw [not_or]; exact ⟨h0, hn⟩)]
    rw [if_neg h0, if_neg hn] at hplace
    have hw' := (wired_makeRoom.mpr hw).moved ch color
    rw [print_eq_moved] at hplace ⊢
    generalize c.makeRoom.moved ch color = c' at hplace hw' ⊢
    have hrow : c'.vga.row.toNat = (c.place.after ch).row := congrArg Place.row hplace
    have hcol : c'.vga.col.toNat = (c.place.after ch).col := congrArg Place.col hplace
    have hoffset : (c.place.after ch).row * 80 + (c.place.after ch).col < 2 ^ 16 := by
      have hrow25 := hscreen.row
      have hcol80 := hscreen.col
      omega
    refine ⟨?_, hw'.setCursor _⟩
    rw [cursorLocation_setCursor hw', getTextOffset_eq, hrow, hcol, BitVec.toNat_setWidth, BitVec.toNat_ofNat,
      Nat.mod_eq_of_lt (Nat.lt_trans hoffset (by decide)), Nat.mod_eq_of_lt hoffset]
    rfl

/-- A text. -/
theorem caret_text (hw : c.Wired) (h : c.place.OnScreen) (text : List (BitVec 8)) :
    (text.foldl writeChar c).caret = text.foldl Caret.after c.caret ∧ (text.foldl writeChar c).Wired := by
  have hrel : (text.foldl writeChar c).caret = text.foldl Caret.after c.caret ∧ (text.foldl writeChar c).Wired ∧
      (text.foldl writeChar c).place.OnScreen := by
    refine List.foldl_rel (r := fun (c' : Console) (k : Caret) => c'.caret = k ∧ c'.Wired ∧ c'.place.OnScreen) ⟨rfl, hw, h⟩ ?_
    rintro ch - c' k ⟨rfl, hw', h'⟩
    obtain ⟨hcaret, hwired⟩ := caret_writeCharColor hw' h' ch c'.vga.color
    refine ⟨hcaret, hwired, ?_⟩
    rw [writeChar, place_writeCharColor h']
    exact h'.after ch
  exact ⟨hrel.1, hrel.2.1⟩

theorem crtc_clearColumns (c : Console) (y n : ℕ) : (c.clearColumns y n).crtc = c.crtc := by
  induction n with
  | zero => rfl
  | succ n ih =>
    rw [clearColumns_succ]
    exact ih

theorem crtc_clearRows (c : Console) (n : ℕ) : (c.clearRows n).crtc = c.crtc := by
  induction n with
  | zero => rfl
  | succ n ih => rw [clearRows_succ, crtc_clearColumns, ih]

/-- `ClearScreen` puts the cursor into the corner, and leaves the place. -/
theorem caret_clearScreen (hw : c.Wired) : c.clearScreen.caret = ⟨c.place, 0⟩ ∧ c.clearScreen.Wired := by
  have hvga := (charAt_clearRows 25 le_rfl (show 0 < 2 ^ 31 by decide) c).1
  have hw' : (c.clearRows 25).Wired := by
    rw [Wired, hvga, crtc_clearRows]
    exact hw
  rw [clearScreen]
  refine ⟨?_, hw'.setCursor _⟩
  rw [caret, cursorLocation_setCursor hw', place, vga_setCursor, hvga]
  rfl

/-- A call. -/
theorem caret_step (hw : c.Wired) (h : c.place.OnScreen) (call : VGACall) :
    (call.step c).caret = c.caret.call call ∧ (call.step c).Wired := by
  cases call with
  | clearScreen => exact caret_clearScreen hw
  | writeChar ch => exact caret_writeCharColor hw h ch _
  | writeCharColor ch color => exact caret_writeCharColor hw h ch color
  | writeStr text => exact caret_text hw h text
  | setColor color => exact ⟨rfl, hw⟩

/-- The cell that the next character is stored in, when room has been made for it. -/
def nextCell (c : Console) : ℕ := (getTextOffset c.makeRoom.vga.col c.makeRoom.vga.row).toNat

/-- The cursor is there. -/
def Marked (c : Console) : Prop := c.crtc.cursorLocation.toNat = c.nextCell

theorem nextCell_eq (h : c.place.OnScreen) : c.nextCell = c.place.cell := by
  have hplace := place_makeRoom h
  have hrow : c.makeRoom.vga.row.toNat = c.place.room := congrArg Place.row hplace
  have hcol : c.makeRoom.vga.col.toNat = c.place.col := congrArg Place.col hplace
  have hcell := h.cell_lt
  rw [Place.cell] at hcell
  rw [nextCell, getTextOffset_eq, hrow, hcol, BitVec.toNat_ofNat, Nat.mod_eq_of_lt (by omega), Place.cell]

/-- It is where a character is stored that is shown. -/
theorem charAt_nextCell (h : c.place.OnScreen) {ch : BitVec 8} (h0 : ch ≠ 0#8) (hn : ch ≠ 0x0A#8) :
    (c.writeChar ch).charAt c.nextCell = ch := by
  have hcell := h.cell_lt
  have hplace := place_makeRoom h
  have hrow : c.makeRoom.vga.row.toNat = c.place.room := congrArg Place.row hplace
  have hcol : c.makeRoom.vga.col.toNat = c.place.col := congrArg Place.col hplace
  rw [nextCell_eq h, writeChar, writeCharColor_eq, if_neg h0, if_neg hn, charAt_print (by omega), hrow, hcol, Place.cell,
    if_pos rfl]

theorem marked_iff (h : c.place.OnScreen) : c.Marked ↔ c.caret.Marked := by
  rw [Marked, nextCell_eq h]
  rfl

end Console

/-! ### When they fit -/

/-- Whether place and cursor fit after a text, from a place on where they do or do not: a character does it that is
shown, but for one in the last cell of the screen; a newline undoes it, but for one at the start of the last line. -/
def marks (fit : Prop) (p : Place) : List (BitVec 8) → Prop
  | [] => fit
  | ch :: text =>
    marks (if ch = 0#8 then fit else if ch = 0x0A#8 then fit ∧ 24 ≤ p.row ∧ p.col = 0 else ¬ (p.row = 24 ∧ p.col = 79))
      (p.after ch) text

namespace VGACall

/-- A call that writes or clears something. -/
def Writes : VGACall → Prop
  | .clearScreen => True
  | .writeChar ch => ch ≠ 0#8
  | .writeCharColor ch _ => ch ≠ 0#8
  | .writeStr text => ∃ ch ∈ text, ch ≠ 0#8
  | .setColor _ => False

/-- A call that leaves place and cursor together. -/
def Keeps (fit : Prop) (p : Place) : VGACall → Prop
  | .clearScreen => False
  | .writeChar ch => marks fit p [ch]
  | .writeCharColor ch _ => marks fit p [ch]
  | .writeStr text => marks fit p text
  | .setColor _ => fit

end VGACall

namespace Caret

/-- What holds after `Init` and any calls. -/
structure Tracked (k : Caret) : Prop where
  /-- The place is on the screen. -/
  onScreen : k.place.OnScreen
  /-- The first line has been left. -/
  started : 1 ≤ k.place.row
  /-- Below the screen no character has been stored yet. -/
  below : k.place.row = 25 → k.place.col = 0
  /-- A cursor that has been left behind is not at the start of this line or of a later one. -/
  cursor : k.Marked ∨ ∀ row, k.place.room ≤ row → row ≤ 24 → k.cursor ≠ row * 80

variable {k : Caret}

/-- A character that is shown takes the cursor along. -/
theorem after_shown (k : Caret) {ch : BitVec 8} (h0 : ch ≠ 0#8) (hn : ch ≠ 0x0A#8) : k.after ch =
    if k.place.col + 1 < 80 then ⟨⟨k.place.room, k.place.col + 1⟩, k.place.room * 80 + (k.place.col + 1)⟩
    else ⟨⟨k.place.room + 1, 0⟩, (k.place.room + 1) * 80 + 0⟩ := by
  rw [Caret.after, Place.after, if_neg (not_or.mpr ⟨h0, hn⟩), if_neg h0, if_neg hn]
  split <;> rfl

/-- What a newline does to place and cursor. -/
theorem Tracked.marked_newline (h : k.Tracked) :
    (k.after 0x0A#8).Marked ↔ k.Marked ∧ 24 ≤ k.place.row ∧ k.place.col = 0 := by
  have hcol := h.onScreen.col
  have hroom : k.place.room = min k.place.row 24 := rfl
  have hnext : (k.after 0x0A#8).Marked ↔ k.cursor = min (k.place.room + 1) 24 * 80 := Iff.rfl
  rw [hnext]
  rcases h.cursor with hmark | hbehind
  · have hcursor : k.cursor = k.place.room * 80 + k.place.col := hmark
    rw [and_iff_right hmark, hcursor]
    omega
  · refine iff_of_false (hbehind _ (by omega) (by omega)) ?_
    rintro ⟨hmark, hrow, hcol0⟩
    have hcursor : k.cursor = k.place.room * 80 + k.place.col := hmark
    exact hbehind k.place.room le_rfl (by omega) (by omega)

/-- What a character that is shown does to them. -/
theorem Tracked.marked_shown (h : k.Tracked) {ch : BitVec 8} (h0 : ch ≠ 0#8) (hn : ch ≠ 0x0A#8) :
    (k.after ch).Marked ↔ ¬ (k.place.row = 24 ∧ k.place.col = 79) := by
  have hcol := h.onScreen.col
  have hrow := h.onScreen.row
  have hbelow := h.below
  have hroom : k.place.room = min k.place.row 24 := rfl
  -- the cursor is told a row that may be below the screen
  have hmarked : ∀ r x, Marked ⟨⟨r, x⟩, r * 80 + x⟩ ↔ r * 80 + x = min r 24 * 80 + x := fun _ _ => Iff.rfl
  rw [after_shown k h0 hn]
  split
  · rw [hmarked]
    omega
  · rw [hmarked]
    omega

/-- What a character does to them. -/
theorem Tracked.marked_after (h : k.Tracked) (ch : BitVec 8) : (k.after ch).Marked ↔
    if ch = 0#8 then k.Marked else if ch = 0x0A#8 then k.Marked ∧ 24 ≤ k.place.row ∧ k.place.col = 0
      else ¬ (k.place.row = 24 ∧ k.place.col = 79) := by
  by_cases h0 : ch = 0#8
  · subst h0
    rfl
  by_cases hn : ch = 0x0A#8
  · subst hn
    exact h.marked_newline
  · rw [if_neg h0, if_neg hn]
    exact h.marked_shown h0 hn

/-- After a newline only a cursor at the start of the last line is found again. -/
theorem Tracked.newline (h : k.Tracked) : (k.after 0x0A#8).Tracked := by
  have hcol := h.onScreen.col
  have hroom : k.place.room = min k.place.row 24 := rfl
  have hscreen : (k.after 0x0A#8).place.OnScreen := h.onScreen.after 0x0A#8
  refine ⟨hscreen, Nat.succ_le_succ (Nat.zero_le _), fun _ => rfl, ?_⟩
  rw [or_iff_not_imp_left, h.marked_newline]
  intro hmarked row hle hle24
  have hle' : min (k.place.room + 1) 24 ≤ row := hle
  have hsame : (k.after 0x0A#8).cursor = k.cursor := rfl
  rw [hsame]
  rcases h.cursor with hmark | hbehind
  · have hcursor : k.cursor = k.place.room * 80 + k.place.col := hmark
    rw [and_iff_right hmark] at hmarked
    omega
  · exact hbehind row (by omega) hle24

/-- After a character that is shown the cursor is right, or below the screen. -/
theorem Tracked.shown (h : k.Tracked) {ch : BitVec 8} (h0 : ch ≠ 0#8) (hn : ch ≠ 0x0A#8) : (k.after ch).Tracked := by
  have hstarted := h.started
  have hroom : k.place.room = min k.place.row 24 := rfl
  have hscreen : (k.after ch).place.OnScreen := h.onScreen.after ch
  have hmarked := h.marked_shown h0 hn
  rw [after_shown k h0 hn] at hscreen hmarked ⊢
  by_cases hlt : k.place.col + 1 < 80
  · rw [if_pos hlt] at hscreen hmarked ⊢
    refine ⟨hscreen, ?_, ?_, .inl (hmarked.mpr (by omega))⟩ <;>
      · dsimp only
        omega
  · rw [if_neg hlt] at hscreen hmarked ⊢
    refine ⟨hscreen, Nat.succ_le_succ (Nat.zero_le _), fun _ => rfl, ?_⟩
    rw [or_iff_not_imp_left, hmarked, not_not]
    rintro ⟨hrow, -⟩ row - hle24
    dsimp only
    omega

theorem Tracked.after (h : k.Tracked) (ch : BitVec 8) : (k.after ch).Tracked := by
  by_cases h0 : ch = 0#8
  · subst h0
    exact h
  by_cases hn : ch = 0x0A#8
  · subst hn
    exact h.newline
  · exact h.shown h0 hn

/-- What a text does to them. -/
theorem Tracked.marked_text (h : k.Tracked) (text : List (BitVec 8)) :
    ((text.foldl Caret.after k).Marked ↔ marks k.Marked k.place text) ∧ (text.foldl Caret.after k).Tracked := by
  induction text generalizing k with
  | nil => exact ⟨Iff.rfl, h⟩
  | cons ch text ih =>
    have hone := propext (h.marked_after ch)
    rw [List.foldl_cons, marks, ← hone]
    exact ih (h.after ch)

/-- `ClearScreen` does not bring them together. -/
theorem Tracked.clear (h : k.Tracked) : ¬ Marked { k with cursor := 0 } ∧ Tracked { k with cursor := 0 } := by
  have hstarted := h.started
  have hroom : k.place.room = min k.place.row 24 := rfl
  have hpos : 1 ≤ k.place.room := by omega
  refine ⟨?_, h.onScreen, h.started, h.below, .inr fun row hle _ => ?_⟩
  · rw [Marked, Place.cell]
    dsimp only
    omega
  · dsimp only at hle ⊢
    omega

/-- What a call does to them. -/
theorem Tracked.call (h : k.Tracked) (call : VGACall) :
    ((k.call call).Marked ↔ call.Keeps k.Marked k.place) ∧ (k.call call).Tracked := by
  cases call with
  | clearScreen => exact ⟨iff_of_false h.clear.1 not_false, h.clear.2⟩
  | writeChar ch => exact h.marked_text [ch]
  | writeCharColor ch color => exact h.marked_text [ch]
  | writeStr text => exact h.marked_text text
  | setColor color => exact ⟨Iff.rfl, h⟩

end Caret

/-! ### Runs -/

namespace Console

variable {c : Console}

/-- What holds after `Init` and any calls. -/
structure Running (c : Console) : Prop where
  /-- The controller is where the driver looks for it. -/
  wired : c.Wired
  /-- Place and cursor. -/
  caret : c.caret.Tracked

/-- A call leaves place and cursor together exactly when it `Keeps` them. -/
theorem Running.step (h : c.Running) (call : VGACall) :
    ((call.step c).Marked ↔ call.Keeps c.Marked c.place) ∧ (call.step c).Running := by
  obtain ⟨hcaret, hwired⟩ := caret_step h.wired h.caret.onScreen call
  obtain ⟨hmarked, htracked⟩ := h.caret.call call
  rw [← hcaret] at hmarked htracked
  rw [marked_iff htracked.onScreen, propext (marked_iff h.caret.onScreen)]
  exact ⟨hmarked, hwired, htracked⟩

theorem Running.run (h : c.Running) (calls : List VGACall) : (c.run calls).Running :=
  List.foldlRecOn calls _ h fun _ hrunning call _ => (hrunning.step call).2

/-- `Init` has written a line: the cursor is at its end. -/
theorem caret_started (memory : Memory) (crtc : CRTC) : (started memory crtc).caret = ⟨⟨1, 0⟩, 18⟩ ∧
    (started memory crtc).Wired := by
  have hplace := place_setUp ⟨.static, memory, crtc⟩
  obtain ⟨hcaret, hwired⟩ := caret_text (wired_setUp memory crtc) (by rw [hplace]; exact ⟨by decide, by decide⟩) initText
  refine ⟨hcaret.trans ?_, hwired⟩
  rw [caret, hplace]
  -- the first character puts the cursor in its place
  have hfirst : ∀ cursor, Caret.after ⟨⟨0, 0⟩, cursor⟩ 0x49#8 = ⟨⟨0, 1⟩, 1⟩ := fun _ => rfl
  have htext : initText = 0x49#8 :: initText.tail := rfl
  rw [htext, List.foldl_cons, hfirst]
  decide

theorem running_started (memory : Memory) (crtc : CRTC) : (started memory crtc).Running := by
  obtain ⟨hcaret, hwired⟩ := caret_started memory crtc
  refine ⟨hwired, ?_⟩
  rw [hcaret]
  exact ⟨⟨by decide, by decide⟩, by decide, by decide, .inr fun row hle _ => by
    have hrow : 1 ≤ row := hle
    dsimp only
    omega⟩

/-- **The cursor**: after `Init` it is at the cell of the next character after every call that writes or clears, if and
only if each of these calls leaves them together, and so none of them clears the screen. -/
theorem cursor_marks_iff (memory : Memory) (crtc : CRTC) (calls : List VGACall) :
    let c := started memory crtc
    (∀ made call, made ++ [call] <+: calls → call.Writes → (c.run (made ++ [call])).Marked) ↔
      ∀ made call, made ++ [call] <+: calls → call.Writes → call.Keeps (c.run made).Marked (c.run made).place := by
  intro c
  refine forall_congr' fun made => forall_congr' fun call => imp_congr_right fun _ => imp_congr_right fun _ => ?_
  rw [run_append]
  exact (((running_started memory crtc).run made).step call).1

/-- After `Init` a newline leaves the cursor behind, and so does `ClearScreen`. -/
theorem cursor_left_behind :
    let c := started (fun _ => 0#8) ⟨1#8, 0#8, fun _ => 0#8⟩
    ((VGACall.writeChar 0x0A#8).Writes ∧ (c.run [.writeChar 0x0A#8]).crtc.cursorLocation.toNat = 18 ∧
        (c.run [.writeChar 0x0A#8]).nextCell = 160) ∧
      VGACall.clearScreen.Writes ∧ (c.run [.clearScreen]).crtc.cursorLocation.toNat = 0 ∧
        (c.run [.clearScreen]).nextCell = 80 := by
  intro c
  obtain ⟨hcaret, hwired⟩ := caret_started (fun _ => 0#8) ⟨1#8, 0#8, fun _ => 0#8⟩
  have hrunning : c.Running := running_started _ _
  have hcall : ∀ call, (c.run [call]).crtc.cursorLocation.toNat = (Caret.call ⟨⟨1, 0⟩, 18⟩ call).cursor ∧
      (c.run [call]).nextCell = (Caret.call ⟨⟨1, 0⟩, 18⟩ call).place.cell := by
    intro call
    have hstep := (caret_step hwired hrunning.caret.onScreen call).1
    rw [hcaret] at hstep
    have hscreen : (c.run [call]).place.OnScreen := (hrunning.step call).2.caret.onScreen
    exact ⟨congrArg Caret.cursor hstep, (nextCell_eq hscreen).trans (congrArg (fun k => k.place.cell) hstep)⟩
  have hwrites : (0x0A#8 : BitVec 8) ≠ 0#8 := by decide
  exact ⟨⟨hwrites, hcall _⟩, trivial, hcall _⟩

end Console

end EagleOS.Drivers
