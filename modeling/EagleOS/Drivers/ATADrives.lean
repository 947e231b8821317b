import EagleOS.Drivers.ATA

/-!
# Drives that follow 28-bit PIO

Two buses with a master and a slave each. The drives of a bus share the registers; the drive that bit 4 of the
drive/head register selects executes the command when it is written, on the sector that the registers hold then, and
transfers 256 words.

## The model

A drive is busy for as long as it likes after a command, and asks for data some time after that; `delays` says how
many times its status is read in between. The other bits of its status are `noise`. It reports no error. Words are
transferred only while it asks for them, and a sector is written when all its words are there.

## What is proved

* `Doing.inb_status` — a read of the status reaches the selected drive.
* `run_command28` — what a drive does after the registers and the command have been written.
* `Doing.inw_data`, `Doing.outw_data`, `Doing.outw_last` — the transfer of a word.
-/

namespace EagleOS.Drivers

open Foundations ESTD

/-- The words of a sector. -/
abbrev Sector := Fin 256 → BitVec 16

/-- What a drive is transferring. -/
inductive Transfer where
  /-- Nothing. -/
  | idle
  /-- The words that are left to be read. -/
  | reading (words : List (BitVec 16))
  /-- The words that have been written so far, to a sector. -/
  | writing (sector : BitVec 28) (words : List (BitVec 16))

/-- A drive. -/
structure PIODrive where
  /-- The sectors. -/
  disk : BitVec 28 → Sector
  /-- What it is transferring. -/
  transfer : Transfer
  /-- For how many more reads of the status it is busy. -/
  busy : ℕ
  /-- For how many more after that it does not ask for data. -/
  settling : ℕ
  /-- The same for the commands to come. -/
  delays : ℕ → ℕ × ℕ
  /-- The other bits of the status. -/
  noise : ℕ → BitVec 8

namespace PIODrive

/-- The status is read. -/
def status (drive : PIODrive) : BitVec 8 × PIODrive :=
  let other := drive.noise 0 &&& 0x76#8
  let drive := { drive with noise := fun n => drive.noise (n + 1) }
  match drive.busy, drive.transfer, drive.settling with
  | busy + 1, _, _ => (other ||| 0x80#8, { drive with busy := busy })
  | 0, .idle, _ => (other, drive)
  | 0, _, settling + 1 => (other, { drive with settling := settling })
  | 0, _, 0 => (other ||| 0x08#8, drive)

/-- A command is written, with the sector that the registers hold. -/
def command (drive : PIODrive) (code : BitVec 8) (sector : BitVec 28) : PIODrive :=
  let transfer :=
    if code = 0x20#8 then .reading (List.ofFn (drive.disk sector))
    else if code = 0x30#8 then .writing sector []
    else .idle
  { drive with transfer, busy := (drive.delays 0).1, settling := (drive.delays 0).2, delays := fun n => drive.delays (n + 1) }

/-- The drive asks for data, if it is transferring. -/
def Asking (drive : PIODrive) : Prop := drive.busy = 0 ∧ drive.settling = 0

instance (drive : PIODrive) : Decidable drive.Asking := inferInstanceAs (Decidable (_ ∧ _))

/-- A word is read. -/
def readWord (drive : PIODrive) : BitVec 16 × PIODrive :=
  if drive.Asking then
    match drive.transfer with
    | .reading (w :: words) => (w, { drive with transfer := if words = [] then .idle else .reading words })
    | _ => (0xFFFF#16, drive)
  else (0xFFFF#16, drive)

/-- A word is written. -/
def writeWord (drive : PIODrive) (w : BitVec 16) : PIODrive :=
  if drive.Asking then
    match drive.transfer with
    | .writing sector words =>
      if words.length + 1 = 256 then
        { drive with
          disk := Function.update drive.disk sector fun k => (words ++ [w]).getD k.val 0#16
          transfer := .idle }
      else { drive with transfer := .writing sector (words ++ [w]) }
    | _ => drive
  else drive

end PIODrive

/-- A bus: the registers that its drives share, and the drives. -/
structure PIOBus where
  /-- Features. -/
  features : BitVec 8
  /-- Sector count. -/
  sectorCount : BitVec 8
  /-- LBA low. -/
  lbaLow : BitVec 8
  /-- LBA mid. -/
  lbaMid : BitVec 8
  /-- LBA high. -/
  lbaHigh : BitVec 8
  /-- Drive/head. -/
  driveHead : BitVec 8
  /-- The drives. -/
  drives : ATADrive → PIODrive

namespace PIOBus

/-- The drive that is selected. -/
def selected (bus : PIOBus) : ATADrive := if bus.driveHead.getLsbD 4 then .slave else .master

/-- The sector number that the registers hold. -/
def sector (bus : PIOBus) : BitVec 28 :=
  bus.lbaLow.setWidth 28 ||| bus.lbaMid.setWidth 28 <<< 8 ||| bus.lbaHigh.setWidth 28 <<< 16 |||
    (bus.driveHead &&& 0x0F#8).setWidth 28 <<< 24

/-- A drive becomes another. -/
def setDrive (bus : PIOBus) (d : ATADrive) (drive : PIODrive) : PIOBus :=
  { bus with drives := Function.update bus.drives d drive }

/-- A byte is read from a register. -/
def inb (bus : PIOBus) (register : BitVec 16) : BitVec 8 × PIOBus :=
  if register = 7#16 then
    let r := (bus.drives bus.selected).status
    (r.1, bus.setDrive bus.selected r.2)
  else if register = 2#16 then (bus.sectorCount, bus)
  else if register = 3#16 then (bus.lbaLow, bus)
  else if register = 4#16 then (bus.lbaMid, bus)
  else if register = 5#16 then (bus.lbaHigh, bus)
  else if register = 6#16 then (bus.driveHead, bus)
  -- there is no error
  else (0#8, bus)

/-- A byte is written to a register. -/
def outb (bus : PIOBus) (register : BitVec 16) (data : BitVec 8) : PIOBus :=
  if register = 7#16 then bus.setDrive bus.selected ((bus.drives bus.selected).command data bus.sector)
  else if register = 1#16 then { bus with features := data }
  else if register = 2#16 then { bus with sectorCount := data }
  else if register = 3#16 then { bus with lbaLow := data }
  else if register = 4#16 then { bus with lbaMid := data }
  else if register = 5#16 then { bus with lbaHigh := data }
  else if register = 6#16 then { bus with driveHead := data }
  else bus

/-- A word is read from the data register. -/
def inw (bus : PIOBus) (register : BitVec 16) : BitVec 16 × PIOBus :=
  if register = 0#16 then
    let r := (bus.drives bus.selected).readWord
    (r.1, bus.setDrive bus.selected r.2)
  else (0xFFFF#16, bus)

/-- A word is written to the data register. -/
def outw (bus : PIOBus) (register : BitVec 16) (data : BitVec 16) : PIOBus :=
  if register = 0#16 then bus.setDrive bus.selected ((bus.drives bus.selected).writeWord data) else bus

end PIOBus

/-- The two buses. -/
abbrev PIOBuses := ATABus → PIOBus

namespace PIOBuses

/-- The bus that a port belongs to, and the register. -/
def decode (port : BitVec 16) : Option (ATABus × BitVec 16) :=
  if port - 0x1F0#16 < 8#16 then some (.primary, port - 0x1F0#16)
  else if port - 0x170#16 < 8#16 then some (.secondary, port - 0x170#16)
  else none

/-- How the buses answer. -/
def ports : Ports PIOBuses where
  inb port buses := match decode port with
    | some (b, register) => (((buses b).inb register).1, Function.update buses b ((buses b).inb register).2)
    | none => (0xFF#8, buses)
  outb port data buses := match decode port with
    | some (b, register) => Function.update buses b ((buses b).outb register data)
    | none => buses
  inw port buses := match decode port with
    | some (b, register) => (((buses b).inw register).1, Function.update buses b ((buses b).inw register).2)
    | none => (0xFFFF#16, buses)
  outw port data buses := match decode port with
    | some (b, register) => Function.update buses b ((buses b).outw register data)
    | none => buses

/-- The sectors of the drives. -/
def disks (buses : PIOBuses) (b : ATABus) (d : ATADrive) : BitVec 28 → Sector := ((buses b).drives d).disk

/-- A drive becomes another. -/
def setDrive (buses : PIOBuses) (b : ATABus) (d : ATADrive) (drive : PIODrive) : PIOBuses :=
  Function.update buses b ((buses b).setDrive d drive)

end PIOBuses

/-! ### The status -/

namespace PIODrive

variable {drive : PIODrive} {n : ℕ}

theorem status_keeps (drive : PIODrive) : drive.status.2.disk = drive.disk ∧ drive.status.2.transfer = drive.transfer := by
  unfold status
  dsimp only
  split <;> exact ⟨rfl, rfl⟩

/-- No error is reported. -/
theorem status_error (drive : PIODrive) : drive.status.1 &&& 0x01#8 = 0#8 := by
  have hother : ∀ x : BitVec 8, x &&& 0x76#8 &&& 0x01#8 = 0#8 ∧ (x &&& 0x76#8 ||| 0x80#8) &&& 0x01#8 = 0#8 ∧
      (x &&& 0x76#8 ||| 0x08#8) &&& 0x01#8 = 0#8 := by decide
  obtain ⟨h1, h2, h3⟩ := hother (drive.noise 0)
  unfold status
  dsimp only
  split <;> assumption

theorem status_busy (h : drive.busy = n + 1) :
    drive.status.1 &&& 0x80#8 ≠ 0#8 ∧ drive.status.1 &&& 0x08#8 = 0#8 ∧ drive.status.2.busy = n := by
  have hother : ∀ x : BitVec 8, (x &&& 0x76#8 ||| 0x80#8) &&& 0x80#8 ≠ 0#8 ∧ (x &&& 0x76#8 ||| 0x80#8) &&& 0x08#8 = 0#8 := by
    decide
  obtain ⟨hset, hclear⟩ := hother (drive.noise 0)
  simp only [status, h]
  exact ⟨hset, hclear, trivial⟩

theorem status_done (h : drive.busy = 0) : drive.status.1 &&& 0x80#8 = 0#8 ∧ drive.status.2.busy = 0 := by
  have hother : ∀ x : BitVec 8, x &&& 0x76#8 &&& 0x80#8 = 0#8 ∧ (x &&& 0x76#8 ||| 0x08#8) &&& 0x80#8 = 0#8 := by decide
  obtain ⟨h1, h2⟩ := hother (drive.noise 0)
  simp only [status, h]
  split
  · contradiction
  · exact ⟨h1, rfl⟩
  · exact ⟨h1, rfl⟩
  · exact ⟨h2, rfl⟩

theorem status_settling (h : drive.busy = 0) (ht : drive.transfer ≠ .idle) (hs : drive.settling = n + 1) :
    drive.status.1 &&& 0x08#8 = 0#8 ∧ drive.status.2.settling = n := by
  have hother : ∀ x : BitVec 8, x &&& 0x76#8 &&& 0x08#8 = 0#8 := by decide
  cases hx : drive.transfer with
  | idle => exact absurd hx ht
  | reading words =>
    simp only [status, h, hx, hs]
    exact ⟨hother _, trivial⟩
  | writing sector words =>
    simp only [status, h, hx, hs]
    exact ⟨hother _, trivial⟩

theorem status_asking (h : drive.busy = 0) (ht : drive.transfer ≠ .idle) (hs : drive.settling = 0) :
    drive.status.1 &&& 0x08#8 ≠ 0#8 ∧ drive.status.2.settling = 0 := by
  have hother : ∀ x : BitVec 8, (x &&& 0x76#8 ||| 0x08#8) &&& 0x08#8 ≠ 0#8 := by decide
  cases hx : drive.transfer with
  | idle => exact absurd hx ht
  | reading words =>
    simp only [status, h, hx, hs]
    exact ⟨hother _, trivial⟩
  | writing sector words =>
    simp only [status, h, hx, hs]
    exact ⟨hother _, trivial⟩

end PIODrive

/-! ### The buses -/

/-- The drive `d` of the bus `b` is selected, and these are its state and the sectors of all drives. -/
structure Doing (buses : PIOBuses) (b : ATABus) (d : ATADrive) (drive : PIODrive)
    (disks : ATABus → ATADrive → BitVec 28 → Sector) : Prop where
  /-- It is selected. -/
  selected : (buses b).selected = d
  /-- Its state. -/
  drive : (buses b).drives d = drive
  /-- The sectors. -/
  disks : buses.disks = disks

section

open PIOBuses

variable {buses : PIOBuses} {b : ATABus} {d : ATADrive} {drive : PIODrive} {disks : ATABus → ATADrive → BitVec 28 → Sector}
  {register : BitVec 16}

/-- A port of a bus is a register of it. -/
theorem decode_busPort (hr : register < 8#16) : decode ((ATA.members b d).busPort + register) = some (b, register) := by
  rw [BitVec.lt_def] at hr
  cases b with
  | primary =>
    have hport : (ATA.members .primary d).busPort + register - 0x1F0#16 = register := by
      rw [ATA.members, if_pos rfl, BitVec.add_comm, BitVec.add_sub_cancel]
    rw [decode, hport, if_pos (BitVec.lt_def.mpr hr)]
  | secondary =>
    have hport : (ATA.members .secondary d).busPort + register - 0x170#16 = register := by
      rw [ATA.members, if_neg (by decide), BitVec.add_comm, BitVec.add_sub_cancel]
    have hother : ¬ (ATA.members .secondary d).busPort + register - 0x1F0#16 < 8#16 := by
      rw [ATA.members, if_neg (by decide), BitVec.lt_def, BitVec.toNat_sub, BitVec.toNat_add]
      simp only [BitVec.toNat_ofNat] at hr ⊢
      omega
    rw [decode, if_neg hother, hport, if_pos (BitVec.lt_def.mpr hr)]

/-- The state of the selected drive changes. -/
theorem Doing.setDrive (h : Doing buses b d drive disks) (drive' : PIODrive) : Doing (buses.setDrive b d drive') b d drive'
    (Function.update disks b (Function.update (disks b) d drive'.disk)) := by
  have hb : buses.setDrive b d drive' b = (buses b).setDrive d drive' := Function.update_self _ _ _
  refine ⟨?_, ?_, ?_⟩
  · rw [hb]
    exact h.selected
  · rw [hb]
    exact Function.update_self _ _ _
  · funext b' d'
    rw [← h.disks]
    by_cases hb' : b' = b
    · subst hb'
      by_cases hd' : d' = d
      · subst hd'
        simp [PIOBuses.disks, PIOBuses.setDrive, PIOBus.setDrive]
      · simp [PIOBuses.disks, PIOBuses.setDrive, PIOBus.setDrive, hd']
    · simp [PIOBuses.disks, PIOBuses.setDrive, hb']

/-- The sectors stay what they are where those of the drive do. -/
theorem Doing.setDrive_of_eq (h : Doing buses b d drive disks) {drive' : PIODrive} (hdisk : drive'.disk = drive.disk) :
    Doing (buses.setDrive b d drive') b d drive' disks := by
  have hsame := h.setDrive drive'
  have hd : drive'.disk = disks b d := by rw [hdisk, ← h.disks, PIOBuses.disks, h.drive]
  rwa [hd, Function.update_eq_self, Function.update_eq_self] at hsame

/-- The status of the selected drive is read. -/
theorem Doing.inb_status (h : Doing buses b d drive disks) : ∃ buses', Doing buses' b d drive.status.2 disks ∧
    ports.inb ((ATA.members b d).busPort + 7#16) buses = (drive.status.1, buses') := by
  refine ⟨buses.setDrive b d drive.status.2, h.setDrive_of_eq drive.status_keeps.1, ?_⟩
  simp only [ports, decode_busPort (show 7#16 < 8#16 by decide), PIOBus.inb, if_pos, h.selected, h.drive, PIOBuses.setDrive]

/-! ### Commands -/

/-- What the registers hold when a sector has been asked for. -/
def PIOBus.addressed (bus : PIOBus) (d : ATADrive) (lba : SizeT) : PIOBus where
  features := 0x0#8
  sectorCount := 1#8
  lbaLow := lba.setWidth 8
  lbaMid := (lba >>> 8).setWidth 8
  lbaHigh := (lba >>> 16).setWidth 8
  driveHead := (if d = .master then 0xE0#8 else 0xF0#8) ||| (lba >>> 24 &&& 0x0F#32).setWidth 8
  drives := bus.drives

/-- The low four bits of what is left of a sector number. -/
theorem head_eq (lba : SizeT) : (lba >>> 24 &&& 0x0F#32).setWidth 8 = ((lba >>> 24).setWidth 4).setWidth 8 := by
  ext i hi
  have hmask : (0x0F#32).getLsbD i = decide (i < 4) := by
    have hall : ∀ j < 8, (0x0F#32).getLsbD j = decide (j < 4) := by decide
    exact hall i hi
  simp only [BitVec.getElem_setWidth, BitVec.getLsbD_and, BitVec.getLsbD_setWidth, hmask]
  cases decide (i < 4) <;> simp

/-- A sector number is made of what the registers hold. -/
theorem join_sector (lba : SizeT) : (lba.setWidth 8).setWidth 28 ||| ((lba >>> 8).setWidth 8).setWidth 28 <<< 8 |||
    ((lba >>> 16).setWidth 8).setWidth 28 <<< 16 ||| (((lba >>> 24).setWidth 4).setWidth 8).setWidth 28 <<< 24 =
      lba.setWidth 28 := by
  ext i hi
  simp only [BitVec.getElem_or, BitVec.getElem_setWidth, BitVec.getElem_shiftLeft, BitVec.getLsbD_setWidth,
    BitVec.getLsbD_ushiftRight]
  grind

/-- The registers select the drive and the sector, whatever they held before. -/
theorem selected_addressed (bus : PIOBus) (d : ATADrive) (lba : SizeT) :
    (bus.addressed d lba).selected = d ∧ (bus.addressed d lba).sector = lba.setWidth 28 := by
  have hbit : ∀ n : BitVec 4, (0xE0#8 ||| n.setWidth 8).getLsbD 4 = false ∧ (0xF0#8 ||| n.setWidth 8).getLsbD 4 = true := by
    decide
  have hlow : ∀ n : BitVec 4, (0xE0#8 ||| n.setWidth 8) &&& 0x0F#8 = n.setWidth 8 ∧
      (0xF0#8 ||| n.setWidth 8) &&& 0x0F#8 = n.setWidth 8 := by decide
  obtain ⟨hmaster, hslave⟩ := hbit ((lba >>> 24).setWidth 4)
  obtain ⟨hmaster', hslave'⟩ := hlow ((lba >>> 24).setWidth 4)
  rw [← join_sector lba]
  cases d with
  | master =>
    simp only [PIOBus.selected, PIOBus.sector, PIOBus.addressed, head_eq, if_true, hmaster, hmaster', and_true]
    rfl
  | slave =>
    simp only [PIOBus.selected, PIOBus.sector, PIOBus.addressed, head_eq, reduceCtorEq, if_false, hslave, hslave', if_true,
      and_true]

/-- A register is written. -/
theorem outb_register (hr : register < 8#16) (data : BitVec 8) :
    ports.outb ((ATA.members b d).busPort + register) data buses = Function.update buses b ((buses b).outb register data) := by
  simp only [ports, decode_busPort hr]

/-- The registers and the command are written: the drive executes it on the sector. -/
theorem run_command28 (b : ATABus) (d : ATADrive) (lba : SizeT) (code : BitVec 8) (memory : Memory) (buses : PIOBuses) :
    ∃ buses', Doing buses' b d (((buses b).drives d).command code (lba.setWidth 28)) buses.disks ∧
      ((ATA.members b d).command28 ports lba code).run ⟨memory, buses⟩ = .some ((), ⟨memory, buses'⟩) := by
  obtain ⟨hselected, hsector⟩ := selected_addressed (buses b) d lba
  have hdoing : Doing (Function.update buses b ((buses b).addressed d lba)) b d ((buses b).drives d) buses.disks := by
    refine ⟨?_, ?_, ?_⟩
    · rw [Function.update_self, hselected]
    · rw [Function.update_self]
      rfl
    · funext b' d'
      by_cases hb : b' = b
      · subst hb
        simp [PIOBuses.disks, PIOBus.addressed]
      · simp [PIOBuses.disks, hb]
  -- the registers are written one after the other, and then the command
  have haddressed : ((((((buses b).outb 6#16 ((if d = .master then 0xE0#8 else 0xF0#8) |||
      (lba >>> 24 &&& 0x0F#32).setWidth 8)).outb 1#16 0x0#8).outb 2#16 1#8).outb 3#16 (lba.setWidth 8)).outb 4#16
      ((lba >>> 8).setWidth 8)).outb 5#16 ((lba >>> 16).setWidth 8) = (buses b).addressed d lba := rfl
  have hcommand : ((buses b).addressed d lba).outb 7#16 code = ((buses b).addressed d lba).setDrive d
      (((buses b).drives d).command code (lba.setWidth 28)) := by
    rw [PIOBus.outb, if_pos rfl, hselected, hsector]
    rfl
  have hdrive : (ATA.members b d).drive = d := rfl
  refine ⟨_, hdoing.setDrive_of_eq rfl, ?_⟩
  simp only [ATA.command28, StateT.run_bind, run_outb, Part.bind_eq_bind, Part.bind_some, hdrive,
    outb_register (show 6#16 < 8#16 by decide), outb_register (show 1#16 < 8#16 by decide),
    outb_register (show 2#16 < 8#16 by decide), outb_register (show 3#16 < 8#16 by decide),
    outb_register (show 4#16 < 8#16 by decide), outb_register (show 5#16 < 8#16 by decide),
    outb_register (show 7#16 < 8#16 by decide), Function.update_self, Function.update_idem, haddressed, hcommand,
    PIOBuses.setDrive]

/-- A command alone is written: the drive executes it on whatever sector the registers hold. -/
theorem Doing.outb_command (h : Doing buses b d drive disks) (code : BitVec 8) : ∃ buses' sector,
    Doing buses' b d (drive.command code sector) disks ∧
      ports.outb ((ATA.members b d).busPort + 7#16) code buses = buses' := by
  refine ⟨_, (buses b).sector, h.setDrive_of_eq rfl, ?_⟩
  rw [outb_register (by decide), PIOBus.outb, if_pos rfl, h.selected, h.drive]
  rfl

/-! ### Words -/

/-- A word is read from the selected drive. -/
theorem Doing.inw_data (h : Doing buses b d drive disks) {w : BitVec 16} {words : List (BitVec 16)}
    (ht : drive.transfer = .reading (w :: words)) (ha : drive.Asking) : ∃ buses' drive', Doing buses' b d drive' disks ∧
      drive'.transfer = (if words = [] then .idle else .reading words) ∧ drive'.Asking ∧
      ports.inw ((ATA.members b d).busPort + 0#16) buses = (w, buses') := by
  have hread : drive.readWord = (w, { drive with transfer := if words = [] then .idle else .reading words }) := by
    rw [PIODrive.readWord, if_pos ha, ht]
  refine ⟨_, { drive with transfer := if words = [] then .idle else .reading words }, h.setDrive_of_eq rfl, rfl, ha, ?_⟩
  simp only [ports, decode_busPort (show 0#16 < 8#16 by decide), PIOBus.inw, if_pos, h.selected, h.drive, hread]
  rfl

/-- A word is written to the selected drive, and more are to come. -/
theorem Doing.outw_data (h : Doing buses b d drive disks) {sector : BitVec 28} {words : List (BitVec 16)}
    (ht : drive.transfer = .writing sector words) (ha : drive.Asking) (hlen : words.length + 1 < 256) (w : BitVec 16) :
    ∃ buses' drive', Doing buses' b d drive' disks ∧ drive'.transfer = .writing sector (words ++ [w]) ∧ drive'.Asking ∧
      ports.outw ((ATA.members b d).busPort + 0#16) w buses = buses' := by
  have hwrite : drive.writeWord w = { drive with transfer := .writing sector (words ++ [w]) } := by
    rw [PIODrive.writeWord, if_pos ha, ht]
    exact if_neg (Nat.ne_of_lt hlen)
  refine ⟨_, { drive with transfer := .writing sector (words ++ [w]) }, h.setDrive_of_eq rfl, rfl, ha, ?_⟩
  simp only [ports, decode_busPort (show 0#16 < 8#16 by decide), PIOBus.outw, if_pos, h.selected, h.drive, hwrite]
  rfl

/-- The last word is written: the sector is what has been transferred. -/
theorem Doing.outw_last (h : Doing buses b d drive disks) {sector : BitVec 28} {words : List (BitVec 16)}
    (ht : drive.transfer = .writing sector words) (ha : drive.Asking) (hlen : words.length + 1 = 256) (w : BitVec 16) :
    ∃ buses' drive', Doing buses' b d drive' (Function.update disks b (Function.update (disks b) d
        (Function.update (disks b d) sector fun k => (words ++ [w]).getD k.val 0#16))) ∧
      ports.outw ((ATA.members b d).busPort + 0#16) w buses = buses' := by
  have hdisk : drive.disk = disks b d := by rw [← h.disks, PIOBuses.disks, h.drive]
  have hwrite : drive.writeWord w = { drive with
      disk := Function.update (disks b d) sector fun k => (words ++ [w]).getD k.val 0#16
      transfer := .idle } := by
    rw [PIODrive.writeWord, if_pos ha, ht, ← hdisk]
    exact if_pos hlen
  refine ⟨_, _, h.setDrive { drive with
      disk := Function.update (disks b d) sector fun k => (words ++ [w]).getD k.val 0#16
      transfer := .idle }, ?_⟩
  simp only [ports, decode_busPort (show 0#16 < 8#16 by decide), PIOBus.outw, if_pos, h.selected, h.drive, hwrite]
  rfl

end

end EagleOS.Drivers
