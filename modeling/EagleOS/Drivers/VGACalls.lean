import EagleOS.Drivers.VGAStrings
import EagleOS.Drivers.VGATerminal

/-!
# Calls to the VGA driver

`Init` finds out where the CRT controller is, switches its cursor off and on and writes a line. After it the driver is
called in any order.

## The model

`VGACall` is a call, `VGACall.step` is what it does to the console. `WriteStr` is called with the characters of a text;
`run_writeStr_call` says that this is what it does with a pointer to it. `Place` is where the next character goes to,
when room has been made for it: the row can be one below the screen.

## What is proved

* `place_step` — where a call leads.
* `Place.OnScreen.call` — never outside the screen, but for the row below it.
-/

namespace EagleOS.Drivers

open Foundations Buffers ESTD

namespace VGA

/-- The static members before `Init`. -/
def static : VGA := ⟨0#32, 0#16, 0#16, .lightBrown, 0x3D4#16, 0x3D5#16⟩

end VGA

namespace Console

/-- What `EnableCursor` and `DisableCursor` have in common: register `CTRL_CURSOR_START_REG` is changed. -/
def changeCursorStart (c : Console) (f : BitVec 8 → BitVec 8) : Console :=
  let address := c.vga.ctrlAddressRegister
  let data := c.vga.ctrlDataRegister
  let addrRegBak := c.crtc.insb address
  let crtc := c.crtc.outb address 0x0A#8
  let cursorStartRegData := crtc.insb data
  let crtc := crtc.outb data (f cursorStartRegData)
  { c with crtc := crtc.outb address addrRegBak }

/-- `EnableCursor`. -/
def enableCursor (c : Console) : Console := c.changeCursorStart fun num => num &&& ~~~(1#8 <<< 5)

/-- `DisableCursor`. -/
def disableCursor (c : Console) : Console := c.changeCursorStart fun num => num ||| 1#8 <<< 5

/-- The text that `Init` writes. -/
def initText : List (BitVec 8) :=
  (['I', 'n', 'i', 't', 'i', 'a', 'l', 'i', 'z', 'e', 'd', ' ', 'V', 'G', 'A', '.', '.', '.'].map
    fun ch => BitVec.ofNat 8 ch.toNat) ++ [0x0A#8]

/-- `Init`, up to where it writes. -/
def setUp (c : Console) : Console :=
  let vga := { c.vga with videoAddress := 0xB8000#32, col := 0#16, row := 0#16, color := .lightBrown }
  let ioas := c.crtc.insb 0x3CC#16 >>> 0 &&& 1#8
  let vga := if ioas = 0#8 then { vga with ctrlAddressRegister := 0x3B4#16, ctrlDataRegister := 0x3B5#16 } else vga
  { c with vga := vga }.disableCursor.enableCursor

/-- `Init`. -/
def init (c : Console) : Console := initText.foldl writeChar c.setUp

/-- `SetColor`. -/
def setColor (c : Console) (color : VGAColor) : Console := { c with vga := { c.vga with color := color } }

end Console

/-- A call to the driver. -/
inductive VGACall where
  /-- `ClearScreen()`. -/
  | clearScreen
  /-- `WriteChar(ch)`. -/
  | writeChar (ch : BitVec 8)
  /-- `WriteCharColor(ch, color)`. -/
  | writeCharColor (ch : BitVec 8) (color : VGAColor)
  /-- `WriteStr(str)`, with the characters of the text. -/
  | writeStr (text : List (BitVec 8))
  /-- `SetColor(color)`. -/
  | setColor (color : VGAColor)

/-- What a call does. -/
def VGACall.step (c : Console) : VGACall → Console
  | .clearScreen => c.clearScreen
  | .writeChar ch => c.writeChar ch
  | .writeCharColor ch color => c.writeCharColor ch color
  | .writeStr text => text.foldl Console.writeChar c
  | .setColor color => c.setColor color

namespace Console

/-- The console after calls. -/
def run (c : Console) (calls : List VGACall) : Console := calls.foldl VGACall.step c

/-- The console after `Init`, in a machine with any memory and any state of the controller. -/
def started (memory : Memory) (crtc : CRTC) : Console := init ⟨.static, memory, crtc⟩

theorem run_append (c : Console) (made : List VGACall) (call : VGACall) :
    c.run (made ++ [call]) = call.step (c.run made) := by
  simp [run]

end Console

/-- `WriteStr`, given a pointer to a text, makes the call with its characters. -/
theorem run_writeStr_call {w : Buffers} {str : Pointer} {text : List (BitVec 8)} (h : w.IsText str text) (d : Display) :
    ((Printing.writeStr str).run d).run w =
      some (((), ⟨VGACall.step d.console (.writeStr text), d.written ++ text⟩), w) :=
  Printing.run_writeStr h

/-! ### Where the next character goes to -/

/-- A row and a column. -/
structure Place where
  /-- The row, or 25 when the screen has to scroll first. -/
  row : ℕ
  /-- The column. -/
  col : ℕ
  deriving DecidableEq

namespace Place

/-- The row when room has been made. -/
def room (p : Place) : ℕ := min p.row 24

/-- The cell that the next character is stored in. -/
def cell (p : Place) : ℕ := p.room * 80 + p.col

/-- The place after another character. -/
def after (p : Place) (ch : BitVec 8) : Place :=
  if ch = 0#8 then p
  else if ch = 0x0A#8 then ⟨p.room + 1, 0⟩
  else if p.col + 1 < 80 then ⟨p.room, p.col + 1⟩
  else ⟨p.room + 1, 0⟩

/-- The place after a call. -/
def call (p : Place) : VGACall → Place
  | .clearScreen => p
  | .writeChar ch => p.after ch
  | .writeCharColor ch _ => p.after ch
  | .writeStr text => text.foldl after p
  | .setColor _ => p

/-- On the screen, or at the row below it. -/
structure OnScreen (p : Place) : Prop where
  /-- The column. -/
  col : p.col < 80
  /-- The row. -/
  row : p.row ≤ 25

variable {p : Place}

theorem OnScreen.cell_lt (h : p.OnScreen) : p.cell < 2000 := by
  have := h.col
  rw [cell, room]
  omega

theorem OnScreen.after (h : p.OnScreen) (ch : BitVec 8) : (p.after ch).OnScreen := by
  have hroom : p.room ≤ 24 := Nat.min_le_right _ _
  rw [Place.after]
  split_ifs with h0 hn hlt
  · exact h
  · exact ⟨Nat.zero_lt_succ 79, Nat.succ_le_succ hroom⟩
  · exact ⟨hlt, Nat.le_succ_of_le hroom⟩
  · exact ⟨Nat.zero_lt_succ 79, Nat.succ_le_succ hroom⟩

theorem OnScreen.text (h : p.OnScreen) (text : List (BitVec 8)) : (text.foldl Place.after p).OnScreen :=
  List.foldlRecOn text _ h fun _ hscreen ch _ => hscreen.after ch

theorem OnScreen.call (h : p.OnScreen) (call : VGACall) : (p.call call).OnScreen := by
  cases call with
  | clearScreen => exact h
  | writeChar ch => exact h.after ch
  | writeCharColor ch color => exact h.after ch
  | writeStr text => exact h.text text
  | setColor color => exact h

end Place

namespace Console

/-- Where the next character goes to. -/
def place (c : Console) : Place := ⟨c.vga.row.toNat, c.vga.col.toNat⟩

variable {c : Console}

/-- Room is made by changing the row. -/
theorem place_makeRoom (h : c.place.OnScreen) : c.makeRoom.place = ⟨c.place.room, c.place.col⟩ := by
  have hrow : c.vga.row.toNat ≤ 25 := h.row
  by_cases hlt : c.vga.row.toNat < 25
  · rw [makeRoom_of_lt hlt, place, Place.room, Nat.min_eq_left (Nat.le_of_lt_succ hlt)]
  · have h25 : c.vga.row.toNat = 25 := by omega
    rw [makeRoom_below h25, place, place, Place.room, h25]
    simp [scrollDown, row_of_toNat h25]

/-- Where a character leads that is shown. -/
theorem place_print (hrow : c.place.row ≤ 24) (hcol : c.place.col < 80) (ch : BitVec 8) (color : VGAColor) :
    (c.print ch color).place = if c.place.col + 1 < 80 then ⟨c.place.row, c.place.col + 1⟩ else ⟨c.place.row + 1, 0⟩ := by
  have hrow' : c.vga.row.toNat ≤ 24 := hrow
  have hcol' : c.vga.col.toNat < 80 := hcol
  have hadd : (c.vga.col + 1#16).toNat = c.vga.col.toNat + 1 := by
    rw [BitVec.toNat_add, show (1#16).toNat = 1 from rfl]
    omega
  have hle : 80#16 ≤ c.vga.col + 1#16 ↔ ¬ c.vga.col.toNat + 1 < 80 := by
    rw [BitVec.le_def, hadd, Nat.not_lt]
    rfl
  rw [place, vga_print]
  by_cases hlt : c.vga.col.toNat + 1 < 80
  · rw [if_neg (fun h => hle.mp h hlt), place, if_pos hlt, hadd]
  · rw [if_pos (hle.mpr hlt), place, if_neg hlt]
    have hsucc : (c.vga.row + 1#16).toNat = c.vga.row.toNat + 1 := by
      rw [BitVec.toNat_add, show (1#16).toNat = 1 from rfl]
      omega
    rw [hsucc]
    rfl

/-- One character. -/
theorem place_writeCharColor (h : c.place.OnScreen) (ch : BitVec 8) (color : VGAColor) :
    (c.writeCharColor ch color).place = c.place.after ch := by
  have hroom := place_makeRoom h
  have hle : c.place.room ≤ 24 := Nat.min_le_right _ _
  rw [writeCharColor_eq, Place.after]
  split_ifs with h0 hn hlt
  · rfl
  · have hrow : c.makeRoom.vga.row.toNat = c.place.room := congrArg Place.row hroom
    have hsucc : (c.makeRoom.vga.row + 1#16).toNat = c.place.room + 1 := by
      rw [BitVec.toNat_add, hrow, show (1#16).toNat = 1 from rfl]
      omega
    rw [place, newline, hsucc]
    rfl
  · rw [place_print (by rw [hroom]; exact hle) (by rw [hroom]; exact h.col), hroom, if_pos hlt]
  · rw [place_print (by rw [hroom]; exact hle) (by rw [hroom]; exact h.col), hroom, if_neg hlt]

/-- A text. -/
theorem place_text (h : c.place.OnScreen) (text : List (BitVec 8)) :
    (text.foldl writeChar c).place = text.foldl Place.after c.place := by
  have hrel : (text.foldl writeChar c).place = text.foldl Place.after c.place ∧
      (text.foldl Place.after c.place).OnScreen := by
    refine List.foldl_rel (r := fun (c' : Console) (p : Place) => c'.place = p ∧ p.OnScreen) ⟨rfl, h⟩ ?_
    rintro ch - c' p ⟨rfl, hscreen⟩
    exact ⟨place_writeCharColor hscreen ch _, hscreen.after ch⟩
  exact hrel.1

/-- A call. -/
theorem place_step (h : c.place.OnScreen) (call : VGACall) : (call.step c).place = c.place.call call := by
  cases call with
  | clearScreen =>
    have hvga := (charAt_clearScreen (show 0 < 2 ^ 31 by decide) c).1
    rw [VGACall.step, place, hvga]
    rfl
  | writeChar ch => exact place_writeCharColor h ch _
  | writeCharColor ch color => exact place_writeCharColor h ch color
  | writeStr text => exact place_text h text
  | setColor color => rfl

/-- The first place. -/
theorem place_setUp (c : Console) : c.setUp.place = ⟨0, 0⟩ := by
  simp only [setUp]
  split <;> rfl

end Console

end EagleOS.Drivers
