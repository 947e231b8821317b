import EagleOS.Drivers.VGACalls

/-!
# What the VGA driver stores

Nothing checks the place that `WriteCharLocation` is given. The row that `WriteCharColor` keeps can be one below the
screen, and is brought back by `ScrollDown` before the next character is stored.

## The model

`Traced` is the console with a record of what happens inside the calls: the cells that `WriteCharLocation` stores, and
the rows that `ScrollDown` finds. The functions are those of the console, written out again with the record.

## What is proved

* `console_step`, `console_run` — without the record they are those of the console.
* `Within.step` — a call stores in cells of the screen only, and scrolls from the row below it.
* `output_stays_on_screen` — so do `Init` and any calls after it.
-/

namespace EagleOS.Drivers

open Foundations

/-- What `WriteCharColor` does when it has stored a character. -/
def Console.advance (c : Console) : Console :=
  let vga := { c.vga with col := c.vga.col + 1#16 }
  let vga := if 80#16 ≤ vga.col then { vga with col := 0#16, row := vga.row + 1#16 } else vga
  { c with vga := vga }.setCursor ((getTextOffset vga.col vga.row).setWidth 16)

/-- The console, with a record. -/
structure Traced where
  /-- The console. -/
  console : Console
  /-- The index of every cell that `WriteCharLocation` has stored. -/
  stored : List ℕ
  /-- `s_Row` whenever `ScrollDown` was entered. -/
  scrolled : List (BitVec 16)

namespace Traced

/-- Something that neither stores a character nor scrolls. -/
def also (t : Traced) (f : Console → Console) : Traced := { t with console := f t.console }

@[simp] theorem stored_also (t : Traced) (f : Console → Console) : (t.also f).stored = t.stored := rfl

@[simp] theorem scrolled_also (t : Traced) (f : Console → Console) : (t.also f).scrolled = t.scrolled := rfl

/-- `WriteCharLocation`. -/
def writeCharLocation (t : Traced) (col row : BitVec 16) (ch : BitVec 8) (color : VGAColor) : Traced :=
  { t with
    console := t.console.writeCharLocation col row ch color
    stored := t.stored ++ [(getTextOffset col row).toNat] }

/-- `ScrollDown`. -/
def scrollDown (t : Traced) : Traced :=
  { t with console := t.console.scrollDown, scrolled := t.scrolled ++ [t.console.vga.row] }

/-- The inner loop of `ClearScreen`, up to the column `n`. -/
def clearColumns (t : Traced) (y n : ℕ) : Traced := (List.range n).foldl
  (fun t x => t.writeCharLocation (BitVec.ofNat 16 x) (BitVec.ofNat 16 y) 0x20#8 t.console.vga.color) t

/-- Its outer loop, up to the row `n`. -/
def clearRows (t : Traced) (n : ℕ) : Traced := (List.range n).foldl (fun t y => t.clearColumns y 80) t

/-- `ClearScreen`. -/
def clearScreen (t : Traced) : Traced := (t.clearRows 25).also fun c => c.setCursor 0#16

/-- What `WriteCharColor` does first. -/
def makeRoom (t : Traced) : Traced := if 25#16 ≤ t.console.vga.row then t.scrollDown else t

/-- What it does with a character that is shown. -/
def print (t : Traced) (ch : BitVec 8) (color : VGAColor) : Traced :=
  (t.writeCharLocation t.console.vga.col t.console.vga.row ch color).also Console.advance

/-- `WriteCharColor`. -/
def writeCharColor (t : Traced) (ch : BitVec 8) (color : VGAColor) : Traced :=
  if ch = 0#8 then t
  else if ch = 0x0A#8 then t.makeRoom.also Console.newline
  else t.makeRoom.print ch color

/-- `WriteChar`. -/
def writeChar (t : Traced) (ch : BitVec 8) : Traced := t.writeCharColor ch t.console.vga.color

/-- `Init`. -/
def init (t : Traced) : Traced := Console.initText.foldl writeChar (t.also Console.setUp)

/-- A call. -/
def step (t : Traced) : VGACall → Traced
  | .clearScreen => t.clearScreen
  | .writeChar ch => t.writeChar ch
  | .writeCharColor ch color => t.writeCharColor ch color
  | .writeStr text => text.foldl writeChar t
  | .setColor color => t.also fun c => c.setColor color

/-- `Init` and calls, from where nothing has been recorded. -/
def run (memory : Memory) (crtc : CRTC) (calls : List VGACall) : Traced :=
  calls.foldl step (init ⟨⟨.static, memory, crtc⟩, [], []⟩)

/-! ### Without the record -/

variable {t : Traced}

theorem console_makeRoom (t : Traced) : t.makeRoom.console = t.console.makeRoom := by
  rw [makeRoom, Console.makeRoom]
  split <;> rfl

theorem console_writeCharColor (t : Traced) (ch : BitVec 8) (color : VGAColor) :
    (t.writeCharColor ch color).console = t.console.writeCharColor ch color := by
  rw [writeCharColor, Console.writeCharColor_eq, ← console_makeRoom]
  split_ifs <;> rfl

theorem console_text (t : Traced) (text : List (BitVec 8)) :
    (text.foldl writeChar t).console = text.foldl Console.writeChar t.console :=
  (List.foldl_hom console fun t ch => (console_writeCharColor t ch _).symm).symm

/-- The last round of the inner loop of `ClearScreen`. -/
theorem clearColumns_succ (t : Traced) (y n : ℕ) : t.clearColumns y (n + 1) =
    (t.clearColumns y n).writeCharLocation (BitVec.ofNat 16 n) (BitVec.ofNat 16 y) 0x20#8
      (t.clearColumns y n).console.vga.color := by
  simp [clearColumns, List.range_succ]

/-- The last round of its outer loop. -/
theorem clearRows_succ (t : Traced) (n : ℕ) : t.clearRows (n + 1) = (t.clearRows n).clearColumns n 80 := by
  simp [clearRows, List.range_succ]

theorem console_clearColumns (t : Traced) (y n : ℕ) : (t.clearColumns y n).console = t.console.clearColumns y n := by
  induction n with
  | zero => rfl
  | succ n ih => rw [clearColumns_succ, Console.clearColumns_succ, writeCharLocation, ih]

theorem console_clearRows (t : Traced) (n : ℕ) : (t.clearRows n).console = t.console.clearRows n := by
  induction n with
  | zero => rfl
  | succ n ih => rw [clearRows_succ, Console.clearRows_succ, console_clearColumns, ih]

/-- A call does to the console what it does without the record. -/
theorem console_step (t : Traced) (call : VGACall) : (t.step call).console = call.step t.console := by
  cases call with
  | clearScreen => exact congrArg (fun c => Console.setCursor c 0#16) (console_clearRows t 25)
  | writeChar ch => exact console_writeCharColor t ch _
  | writeCharColor ch color => exact console_writeCharColor t ch color
  | writeStr text => exact console_text t text
  | setColor color => rfl

/-- So do `Init` and calls. -/
theorem console_run (memory : Memory) (crtc : CRTC) (calls : List VGACall) :
    (run memory crtc calls).console = (Console.started memory crtc).run calls := by
  have hcalls (t : Traced) : (calls.foldl step t).console = t.console.run calls :=
    (List.foldl_hom console fun t call => (console_step t call).symm).symm
  rw [run, hcalls, init, console_text]
  rfl

/-! ### What is recorded -/

/-- The record of calls that do not leave the screen. -/
structure Within (t : Traced) : Prop where
  /-- Where the next character goes to. -/
  place : t.console.place.OnScreen
  /-- Cells of the screen are stored. -/
  stored : ∀ i ∈ t.stored, i < 2000
  /-- The screen scrolls from the row below it. -/
  scrolled : ∀ row ∈ t.scrolled, row = 25#16

theorem getTextOffset_lt {col row : BitVec 16} (hcol : col.toNat < 80) (hrow : row.toNat < 25) :
    (getTextOffset col row).toNat < 2000 := by
  rw [Console.getTextOffset_eq, BitVec.toNat_ofNat, Nat.mod_eq_of_lt (by omega)]
  omega

/-- Room is made by scrolling from the row below the screen. -/
theorem Within.makeRoom (h : t.Within) : t.makeRoom.Within ∧ t.makeRoom.console.place.row ≤ 24 := by
  have hplace := Console.place_makeRoom h.place
  have hrow : t.makeRoom.console.place.row ≤ 24 := by
    rw [console_makeRoom, hplace]
    exact Nat.min_le_right _ _
  have hcol : t.makeRoom.console.place.col < 80 := by
    rw [console_makeRoom, hplace]
    exact h.place.col
  refine ⟨⟨⟨hcol, Nat.le_succ_of_le hrow⟩, ?_, ?_⟩, hrow⟩
  · rw [Traced.makeRoom]
    split <;> exact h.stored
  · rw [Traced.makeRoom]
    split
    · rename_i hle
      have hrow25 : t.console.vga.row.toNat ≤ 25 := h.place.row
      have h25 : t.console.vga.row = 25#16 := row_of_toNat (Nat.le_antisymm hrow25 (BitVec.le_def.mp hle))
      intro row hmem
      rcases List.mem_append.mp hmem with hold | hnew
      · exact h.scrolled row hold
      · rw [List.mem_singleton.mp hnew, h25]
    · exact h.scrolled

/-- A cell of the screen is stored. -/
theorem stored_writeCharLocation (h : ∀ i ∈ t.stored, i < 2000) {col row : BitVec 16} (hcol : col.toNat < 80)
    (hrow : row.toNat < 25) (ch : BitVec 8) (color : VGAColor) :
    ∀ i ∈ (t.writeCharLocation col row ch color).stored, i < 2000 := by
  intro i hmem
  rcases List.mem_append.mp hmem with hold | hnew
  · exact h i hold
  · rw [List.mem_singleton.mp hnew]
    exact getTextOffset_lt hcol hrow

/-- One character. -/
theorem Within.writeCharColor (h : t.Within) (ch : BitVec 8) (color : VGAColor) : (t.writeCharColor ch color).Within := by
  have hplace : (t.writeCharColor ch color).console.place.OnScreen := by
    rw [console_writeCharColor, Console.place_writeCharColor h.place]
    exact h.place.after ch
  obtain ⟨hroom, hrow⟩ := h.makeRoom
  refine ⟨hplace, ?_, ?_⟩
  · rw [Traced.writeCharColor]
    split_ifs
    · exact h.stored
    · exact hroom.stored
    · exact stored_writeCharLocation hroom.stored hroom.place.col (Nat.lt_succ_of_le hrow) ch color
  · rw [Traced.writeCharColor]
    split_ifs
    · exact h.scrolled
    · exact hroom.scrolled
    · exact hroom.scrolled

/-- A text. -/
theorem Within.text (h : t.Within) (text : List (BitVec 8)) : (text.foldl writeChar t).Within :=
  List.foldlRecOn text _ h fun _ hwithin ch _ => hwithin.writeCharColor ch _

/-- `ClearScreen` stores the cells of the screen. -/
theorem stored_clearColumns (h : ∀ i ∈ t.stored, i < 2000) {y n : ℕ} (hy : y < 25) (hn : n ≤ 80) :
    (∀ i ∈ (t.clearColumns y n).stored, i < 2000) ∧ (t.clearColumns y n).scrolled = t.scrolled := by
  induction n with
  | zero => exact ⟨h, rfl⟩
  | succ n ih =>
    obtain ⟨hstored, hscrolled⟩ := ih (by omega)
    have hcol : (BitVec.ofNat 16 n).toNat < 80 := by
      rw [BitVec.toNat_ofNat]
      omega
    have hrow : (BitVec.ofNat 16 y).toNat < 25 := by
      rw [BitVec.toNat_ofNat]
      omega
    rw [clearColumns_succ]
    exact ⟨stored_writeCharLocation hstored hcol hrow _ _, hscrolled⟩

theorem stored_clearRows (h : ∀ i ∈ t.stored, i < 2000) {n : ℕ} (hn : n ≤ 25) :
    (∀ i ∈ (t.clearRows n).stored, i < 2000) ∧ (t.clearRows n).scrolled = t.scrolled := by
  induction n with
  | zero => exact ⟨h, rfl⟩
  | succ n ih =>
    obtain ⟨hstored, hscrolled⟩ := ih (by omega)
    obtain ⟨hstored', hscrolled'⟩ := stored_clearColumns hstored (show n < 25 by omega) le_rfl
    rw [clearRows_succ]
    exact ⟨hstored', hscrolled'.trans hscrolled⟩

/-- A call. -/
theorem Within.step (h : t.Within) (call : VGACall) : (t.step call).Within := by
  cases call with
  | clearScreen =>
    obtain ⟨hstored, hscrolled⟩ := stored_clearRows h.stored (le_refl 25)
    have hplace := Console.place_step h.place .clearScreen
    rw [← console_step] at hplace
    refine ⟨by rw [hplace]; exact h.place, ?_, ?_⟩
    · rw [Traced.step, clearScreen, stored_also]
      exact hstored
    · rw [Traced.step, clearScreen, scrolled_also, hscrolled]
      exact h.scrolled
  | writeChar ch => exact h.writeCharColor ch _
  | writeCharColor ch color => exact h.writeCharColor ch color
  | writeStr text => exact h.text text
  | setColor color => exact ⟨h.place, h.stored, h.scrolled⟩

/-- **Output stays on the screen**: after `Init` and any calls the column is below 80 and the row is at most 25, the
cells that have been stored are among the 2000 of the screen, and `ScrollDown` has only been entered in row 25. -/
theorem output_stays_on_screen (memory : Memory) (crtc : CRTC) (calls : List VGACall) :
    let t := run memory crtc calls
    t.console = (Console.started memory crtc).run calls ∧
      (t.console.vga.col.toNat < 80 ∧ t.console.vga.row.toNat ≤ 25) ∧
      (∀ row ∈ t.scrolled, row = 25#16) ∧ ∀ i ∈ t.stored, i < 2000 := by
  intro t
  have hstart : (init ⟨⟨.static, memory, crtc⟩, [], []⟩).Within := by
    refine Within.text ⟨?_, fun i hi => absurd hi List.not_mem_nil, fun row hrow => absurd hrow List.not_mem_nil⟩ _
    have hplace := Console.place_setUp ⟨.static, memory, crtc⟩
    exact ⟨by rw [also, hplace]; decide, by rw [also, hplace]; decide⟩
  have hwithin : t.Within := List.foldlRecOn calls _ hstart fun _ h call _ => h.step call
  exact ⟨console_run memory crtc calls, ⟨hwithin.place.col, hwithin.place.row⟩, hwithin.scrolled, hwithin.stored⟩

end Traced

end EagleOS.Drivers
