import EagleOS.ESTD.Basic

/-!
# The VGA driver

The driver writes characters and their colours to the video memory, 80 to a row, and tells the CRT controller where
the cursor is.

## The model

`VGA` holds the static members of the class; the memory is the machine's, byte by byte. `CRTC` is the controller: an
index register and the registers behind it, at two ports that depend on a bit of the miscellaneous output register.
Static functions take the `Console` and return it as they leave it.

## What is proved

* `charAt_writeCharLocation`, `charAt_scrollDown`, `charAt_clearScreen` — what is in the video memory, cell by cell.
-/

namespace EagleOS.Drivers

open Foundations ESTD

/-- `VGAColor`. -/
inductive VGAColor where
  | black | blue | green | cyan | red | magenta | brown | lightGrey
  | darkGrey | lightBlue | lightGreen | lightCyan | lightRed | lightMagenta | lightBrown | white

/-- The `uint8_t` that a colour is. -/
def VGAColor.toByte : VGAColor → BitVec 8
  | .black => 0#8
  | .blue => 1#8
  | .green => 2#8
  | .cyan => 3#8
  | .red => 4#8
  | .magenta => 5#8
  | .brown => 6#8
  | .lightGrey => 7#8
  | .darkGrey => 8#8
  | .lightBlue => 9#8
  | .lightGreen => 10#8
  | .lightCyan => 11#8
  | .lightRed => 12#8
  | .lightMagenta => 13#8
  | .lightBrown => 14#8
  | .white => 15#8

/-- The CRT controller. -/
structure CRTC where
  /-- The miscellaneous output register. -/
  miscOutput : BitVec 8
  /-- The index register. -/
  index : BitVec 8
  /-- The registers that the index register chooses from. -/
  registers : BitVec 8 → BitVec 8

namespace CRTC

/-- The port of the index register. -/
def addressPort (crtc : CRTC) : BitVec 16 := if crtc.miscOutput.getLsbD 0 then 0x3D4#16 else 0x3B4#16

/-- The port of the register that is chosen. -/
def dataPort (crtc : CRTC) : BitVec 16 := if crtc.miscOutput.getLsbD 0 then 0x3D5#16 else 0x3B5#16

/-- `INSB`. -/
def insb (crtc : CRTC) (port : BitVec 16) : BitVec 8 :=
  if port = 0x3CC#16 then crtc.miscOutput
  else if port = crtc.addressPort then crtc.index
  else if port = crtc.dataPort then crtc.registers crtc.index
  -- nothing answers
  else 0xFF#8

/-- `OUTB`. -/
def outb (crtc : CRTC) (port : BitVec 16) (data : BitVec 8) : CRTC :=
  if port = crtc.addressPort then { crtc with index := data }
  else if port = crtc.dataPort then { crtc with registers := Function.update crtc.registers crtc.index data }
  else crtc

end CRTC

/-- The static members of `VGA`. -/
structure VGA where
  /-- `s_VideoAddress`. -/
  videoAddress : BitVec 32
  /-- `s_Col`. -/
  col : BitVec 16
  /-- `s_Row`. -/
  row : BitVec 16
  /-- `s_Color`. -/
  color : VGAColor
  /-- `s_CtrlAddressRegister`. -/
  ctrlAddressRegister : BitVec 16
  /-- `s_CtrlDataRegister`. -/
  ctrlDataRegister : BitVec 16

/-- The driver, the memory and the controller. -/
structure Console where
  /-- The driver. -/
  vga : VGA
  /-- The memory. -/
  memory : Memory
  /-- The controller. -/
  crtc : CRTC

/-- `VGA_TEXT_ENCODE`. -/
def textEncode (ch : BitVec 8) (color : BitVec 8) : BitVec 16 := color.setWidth 16 <<< 8 ||| ch.setWidth 16

/-- `VGA_GET_TEXT_OFFSET`. -/
def getTextOffset (col row : BitVec 16) : BitVec 32 := row.setWidth 32 * 80#32 + col.setWidth 32

namespace Console

/-- `SetCursor`. -/
def setCursor (c : Console) (offset : BitVec 16) : Console :=
  let address := c.vga.ctrlAddressRegister
  let data := c.vga.ctrlDataRegister
  let addrRegBak := c.crtc.insb address
  let crtc := (c.crtc.outb address 0x0F#8).outb data (offset &&& 0xFF#16 |>.setWidth 8)
  let crtc := (crtc.outb address 0x0E#8).outb data (offset >>> 8 &&& 0xFF#16 |>.setWidth 8)
  { c with crtc := crtc.outb address addrRegBak }

/-- `WriteCharLocation`. -/
def writeCharLocation (c : Console) (col row : BitVec 16) (ch : BitVec 8) (color : VGAColor) : Console :=
  { c with memory := c.memory.store16 (c.vga.videoAddress + 2#32 * getTextOffset col row) (textEncode ch color.toByte) }

/-- The inner loop of `ClearScreen`, up to the column `n`. -/
def clearColumns (c : Console) (y n : ℕ) : Console := (List.range n).foldl
  (fun c x => c.writeCharLocation (BitVec.ofNat 16 x) (BitVec.ofNat 16 y) 0x20#8 c.vga.color) c

/-- Its outer loop, up to the row `n`. -/
def clearRows (c : Console) (n : ℕ) : Console := (List.range n).foldl (fun c y => c.clearColumns y 80) c

/-- `ClearScreen`. -/
def clearScreen (c : Console) : Console := (c.clearRows 25).setCursor 0#16

/-- `ScrollDown`. -/
def scrollDown (c : Console) : Console :=
  let start := c.vga.videoAddress + 160#32
  let size := c.vga.row.setWidth 32 * 80#32 * 2#32
  let memory := memcpy c.memory c.vga.videoAddress start size.toNat
  let start := c.vga.videoAddress + size
  let memory := memsetw memory start (textEncode 0x20#8 VGAColor.black.toByte) size.toNat
  { c with memory := memory, vga := { c.vga with row := c.vga.row - 1#16 } }

/-- `WriteCharColor`. -/
def writeCharColor (c : Console) (ch : BitVec 8) (color : VGAColor) : Console :=
  if ch = 0#8 then c
  else
    let c := if 25#16 ≤ c.vga.row then c.scrollDown else c
    if ch = 0x0A#8 then { c with vga := { c.vga with col := 0#16, row := c.vga.row + 1#16 } }
    else
      let c := c.writeCharLocation c.vga.col c.vga.row ch color
      let vga := { c.vga with col := c.vga.col + 1#16 }
      let vga := if 80#16 ≤ vga.col then { vga with col := 0#16, row := vga.row + 1#16 } else vga
      { c with vga := vga }.setCursor ((getTextOffset vga.col vga.row).setWidth 16)

/-- `WriteChar`. -/
def writeChar (c : Console) (ch : BitVec 8) : Console := c.writeCharColor ch c.vga.color

/-! ### The cells -/

/-- The character of a cell. -/
def charAt (c : Console) (i : ℕ) : BitVec 8 := c.memory (c.vga.videoAddress + BitVec.ofNat 32 (2 * i))

section

variable {c : Console} {col row : BitVec 16} {ch : BitVec 8} {color : VGAColor} {i : ℕ}

@[simp] theorem charAt_setCursor (c : Console) (offset : BitVec 16) : (c.setCursor offset).charAt i = c.charAt i := rfl

@[simp] theorem vga_setCursor (c : Console) (offset : BitVec 16) : (c.setCursor offset).vga = c.vga := rfl

theorem textEncode_char (ch color : BitVec 8) : (textEncode ch color).extractLsb' 0 8 = ch := by
  ext i hi
  simp [textEncode, hi, Nat.lt_trans hi (show 8 < 16 by decide)]

theorem getTextOffset_eq (col row : BitVec 16) : getTextOffset col row = BitVec.ofNat 32 (row.toNat * 80 + col.toNat) := by
  refine BitVec.eq_of_toNat_eq ?_
  simp only [getTextOffset, BitVec.toNat_add, BitVec.toNat_mul, BitVec.toNat_setWidth, BitVec.toNat_ofNat]
  omega

/-- A character is stored in its cell. -/
theorem charAt_writeCharLocation (hi : i < 2 ^ 31) :
    (c.writeCharLocation col row ch color).charAt i = if i = row.toNat * 80 + col.toNat then ch else c.charAt i := by
  have htwo : 2#32 * getTextOffset col row = BitVec.ofNat 32 (2 * (row.toNat * 80 + col.toNat)) := by
    rw [getTextOffset_eq, ← BitVec.ofNat_mul]
  have hodd : c.vga.videoAddress + BitVec.ofNat 32 (2 * (row.toNat * 80 + col.toNat)) + 1#32 =
      c.vga.videoAddress + BitVec.ofNat 32 (2 * (row.toNat * 80 + col.toNat) + 1) := by
    rw [BitVec.add_assoc, BitVec.ofNat_add]
  -- the second byte of the cell is the colour
  have hcolor : c.vga.videoAddress + BitVec.ofNat 32 (2 * i) ≠
      c.vga.videoAddress + BitVec.ofNat 32 (2 * (row.toNat * 80 + col.toNat) + 1) := by
    rw [ne_eq, add_ofNat_inj (by omega) (by omega)]
    omega
  simp only [charAt, writeCharLocation, htwo, Memory.store16, hodd, Memory.store8_of_ne hcolor]
  split
  · rename_i h
    rw [h, Memory.store8_self, textEncode_char]
  · rename_i h
    refine Memory.store8_of_ne ?_
    rw [ne_eq, add_ofNat_inj (by omega) (by omega)]
    omega

/-- The last round of the inner loop of `ClearScreen`. -/
theorem clearColumns_succ (c : Console) (y n : ℕ) : c.clearColumns y (n + 1) =
    (c.clearColumns y n).writeCharLocation (BitVec.ofNat 16 n) (BitVec.ofNat 16 y) 0x20#8 (c.clearColumns y n).vga.color := by
  simp [clearColumns, List.range_succ]

/-- The last round of its outer loop. -/
theorem clearRows_succ (c : Console) (n : ℕ) : c.clearRows (n + 1) = (c.clearRows n).clearColumns n 80 := by
  simp [clearRows, List.range_succ]

theorem charAt_clearColumns (y n : ℕ) (hy : y < 25) (hn : n ≤ 80) (hi : i < 2 ^ 31) (c : Console) :
    (c.clearColumns y n).vga = c.vga ∧
      (c.clearColumns y n).charAt i = if y * 80 ≤ i ∧ i < y * 80 + n then 0x20#8 else c.charAt i := by
  induction n with
  | zero =>
    refine ⟨rfl, ?_⟩
    rw [if_neg (by omega)]
    rfl
  | succ n ih =>
    obtain ⟨hvga, hchar⟩ := ih (by omega)
    rw [clearColumns_succ]
    refine ⟨hvga, ?_⟩
    rw [charAt_writeCharLocation hi, hchar, BitVec.toNat_ofNat, BitVec.toNat_ofNat, Nat.mod_eq_of_lt (by omega),
      Nat.mod_eq_of_lt (by omega)]
    grind

theorem charAt_clearRows (n : ℕ) (hn : n ≤ 25) (hi : i < 2 ^ 31) (c : Console) :
    (c.clearRows n).vga = c.vga ∧ (c.clearRows n).charAt i = if i < n * 80 then 0x20#8 else c.charAt i := by
  induction n with
  | zero => exact ⟨rfl, by simp [clearRows]⟩
  | succ n ih =>
    obtain ⟨hvga, hchar⟩ := ih (by omega)
    obtain ⟨hvga', hchar'⟩ := charAt_clearColumns n 80 (by omega) le_rfl hi (c.clearRows n)
    rw [clearRows_succ]
    refine ⟨hvga'.trans hvga, ?_⟩
    rw [hchar', hchar]
    grind

/-- `ClearScreen` stores spaces in the cells of the screen, and in no others. -/
theorem charAt_clearScreen (hi : i < 2 ^ 31) (c : Console) :
    c.clearScreen.vga = c.vga ∧ c.clearScreen.charAt i = if i < 2000 then 0x20#8 else c.charAt i := by
  rw [clearScreen, vga_setCursor, charAt_setCursor]
  exact charAt_clearRows 25 le_rfl hi c

/-- `ScrollDown` moves the cells of the 25 rows below the first, and clears the 50 rows below the screen. -/
theorem charAt_scrollDown (hrow : c.vga.row = 25#16) (hi : i < 6000) :
    c.scrollDown.charAt i = if i < 2000 then c.charAt (i + 80) else 0x20#8 := by
  have hsize : c.vga.row.setWidth 32 * 80#32 * 2#32 = 4000#32 := by rw [hrow]; rfl
  obtain ⟨hmoved, -⟩ := memcpy_apply (show 160 + 4000 ≤ 2 ^ 32 by omega) c.memory c.vga.videoAddress
    (c.vga.videoAddress + BitVec.ofNat 32 (2 * i))
  obtain ⟨hcleared, hkept⟩ := memsetw_apply (show 2 * 4000 ≤ 2 ^ 32 by omega)
    (memcpy c.memory c.vga.videoAddress (c.vga.videoAddress + BitVec.ofNat 32 160) 4000)
    (c.vga.videoAddress + BitVec.ofNat 32 4000) (textEncode 0x20#8 VGAColor.black.toByte)
    (c.vga.videoAddress + BitVec.ofNat 32 (2 * i))
  rw [add_ofNat_mem_span (by omega) (by omega)] at hcleared hkept
  have hstart : c.vga.videoAddress + BitVec.ofNat 32 (2 * i) ∈ Span c.vga.videoAddress 4000 ↔ i < 2000 := by
    rw [mem_span, BitVec.add_comm, BitVec.add_sub_cancel, BitVec.toNat_ofNat]
    omega
  have hpar : (c.vga.videoAddress + BitVec.ofNat 32 (2 * i) - (c.vga.videoAddress + BitVec.ofNat 32 4000)).toNat % 2 = 0 := by
    simp only [BitVec.toNat_sub, BitVec.toNat_add, BitVec.toNat_ofNat]
    omega
  simp only [charAt, scrollDown, hsize]
  split
  · rename_i hlt
    refine (hkept (by omega)).trans ((hmoved (hstart.mpr hlt)).trans ?_)
    rw [BitVec.add_assoc, ← BitVec.ofNat_add, Nat.mul_add]
  · rename_i hge
    refine (hcleared (by omega)).trans ?_
    rw [hpar]
    exact textEncode_char _ _

end

end Console

end EagleOS.Drivers
