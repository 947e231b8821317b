import EagleOS.ESTD.Bitmap
import EagleOS.Foundations.Ports

/-!
# The ATA driver

The driver transfers sectors of 512 bytes to and from a drive, by programmed input and output: two bytes after the
other through the data port of the drive's bus.

## The model

`ATA` is an object of the class; `members` is what `Init` sets before it asks the drive who it is. The functions are
programs over ports that any devices may be behind. The loops that wait for the drive have no bound: where the drive
is never ready, the program has no result.

## What is proved

* `pollBusy_eq`, `pollRequest_eq`, `flushLoop_eq` — what one read of the status decides.
-/

namespace EagleOS.Drivers

open Foundations ESTD

/-- `ATABus`. -/
inductive ATABus where
  | primary | secondary
  deriving DecidableEq

/-- `ATADrive`. -/
inductive ATADrive where
  | master | slave
  deriving DecidableEq

/-- An object of the class `ATA`. -/
structure ATA where
  /-- `m_SectorSize`. -/
  sectorSize : SizeT
  /-- `m_Bus`. -/
  bus : ATABus
  /-- `m_Drive`. -/
  drive : ATADrive
  /-- `m_BusPort`. -/
  busPort : BitVec 16
  /-- `m_DriveCode`. -/
  driveCode : BitVec 8

namespace ATA

/-- What `Init` sets. -/
def members (bus : ATABus) (drive : ATADrive) : ATA where
  sectorSize := 0x200#32
  bus := bus
  drive := drive
  busPort := if bus = .primary then 0x1F0#16 else 0x170#16
  driveCode := if drive = .master then 0xA0#8 else 0xB0#8

section

variable {σ : Type} (ports : Ports σ) (ata : ATA)

/-- The loop of `Delay400NS`. -/
def delayLoop : ℕ → Program σ Unit
  | 0 => pure ()
  | left + 1 => do
    let _ ← insb ports (ata.busPort + 7#16)
    delayLoop left

/-- `Delay400NS`. -/
def delay400NS : Program σ Unit := ata.delayLoop ports 14

/-- The loop of `Poll` until `BSY` is clear. -/
def pollBusy : Program σ Unit :=
  Program.loop (fun _ => do
    let status ← insb ports (ata.busPort + 7#16)
    if status &&& 0x80#8 ≠ 0#8 then pure (.inr ()) else pure (.inl ())) ()

/-- The loop of `Poll` until `ERR` or `DRQ` is set. -/
def pollRequest : Program σ Bool :=
  Program.loop (fun _ => do
    let status ← insb ports (ata.busPort + 7#16)
    if status &&& 0x01#8 ≠ 0#8 then pure (.inl false)
    else if status &&& 0x08#8 = 0#8 then pure (.inr ())
    else pure (.inl true)) ()

/-- `Poll`. -/
def poll : Program σ Bool := do
  ata.delay400NS ports
  ata.pollBusy ports
  ata.pollRequest ports

/-- The loop of `CacheFlush`: it returns the last status. -/
def flushLoop : BitVec 8 → Program σ (BitVec 8) :=
  Program.loop fun status =>
    if status &&& 0x80#8 ≠ 0#8 ∧ status &&& 0x08#8 = 0#8 then .inr <$> insb ports (ata.busPort + 7#16)
    else pure (.inl status)

/-- `CacheFlush`. -/
def cacheFlush : Program σ Bool := do
  outb ports (ata.busPort + 7#16) 0xE7#8
  let status ← ata.flushLoop ports (← insb ports (ata.busPort + 7#16))
  if status &&& 0x01#8 ≠ 0#8 then pure false else pure true

/-- The registers that say which sector of which drive, and then the command. -/
def command28 (lba : SizeT) (command : BitVec 8) : Program σ Unit := do
  let seldrive := if ata.drive = .master then 0xE0#8 else 0xF0#8
  outb ports (ata.busPort + 6#16) (seldrive ||| (lba >>> 24 &&& 0x0F#32).setWidth 8)
  outb ports (ata.busPort + 1#16) 0x0#8
  outb ports (ata.busPort + 2#16) 1#8
  outb ports (ata.busPort + 3#16) (lba.setWidth 8)
  outb ports (ata.busPort + 4#16) ((lba >>> 8).setWidth 8)
  outb ports (ata.busPort + 5#16) ((lba >>> 16).setWidth 8)
  outb ports (ata.busPort + 7#16) command

/-- The loop of `ReadSector28`. -/
def readWords : ℕ → BitVec 32 → Program σ Unit
  | 0, _ => pure ()
  | left + 1, ptr => do
    store16 ptr (← insw ports (ata.busPort + 0#16))
    readWords left (ptr + 2#32)

/-- `ReadSector28`. -/
def readSector28 (buf : BitVec 32) (lba : SizeT) : Program σ (BitVec 32) := do
  ata.command28 ports lba 0x20#8
  if ¬ (← ata.poll ports) then return -1#32
  ata.readWords ports 256 buf
  ata.delay400NS ports
  return 0#32

/-- The loop of `WriteSector28`. -/
def writeWords : ℕ → BitVec 32 → Program σ Unit
  | 0, _ => pure ()
  | left + 1, ptr => do
    outw ports (ata.busPort + 0#16) (← load16 ptr)
    writeWords left (ptr + 2#32)

/-- `WriteSector28`. -/
def writeSector28 (buf : BitVec 32) (lba : SizeT) : Program σ (BitVec 32) := do
  ata.command28 ports lba 0x30#8
  if ¬ (← ata.poll ports) then return -1#32
  ata.writeWords ports 256 buf
  if ¬ (← ata.cacheFlush ports) then return -1#32
  ata.delay400NS ports
  return 0#32

/-- The loop of `Read28`: whether all sectors were read. -/
def readSectors (lba : SizeT) : ℕ → ℕ → BitVec 32 → Program σ Bool
  | 0, _, _ => pure true
  | left + 1, i, ptr => do
    if (← ata.readSector28 ports ptr (lba + BitVec.ofNat 32 i)) ≠ 0#32 then return false
    readSectors lba left (i + 1) (ptr + ata.sectorSize)

/-- `Read28`. -/
def read28 (buf : BitVec 32) (sectorCount lba : SizeT) : Program σ (BitVec 32) := do
  if ← ata.readSectors ports lba sectorCount.toNat 0 buf then return sectorCount * ata.sectorSize else return -1#32

/-- The loop of `Write28`: whether all sectors were written. -/
def writeSectors (lba : SizeT) : ℕ → ℕ → BitVec 32 → Program σ Bool
  | 0, _, _ => pure true
  | left + 1, i, ptr => do
    if (← ata.writeSector28 ports ptr (lba + BitVec.ofNat 32 i)) ≠ 0#32 then return false
    writeSectors lba left (i + 1) (ptr + ata.sectorSize)

/-- `Write28`. -/
def write28 (buf : BitVec 32) (sectorCount lba : SizeT) : Program σ (BitVec 32) := do
  if ← ata.writeSectors ports lba sectorCount.toNat 0 buf then return sectorCount * ata.sectorSize else return -1#32

/-! ### The loops, one read of the status at a time -/

theorem pollBusy_eq : ata.pollBusy ports = (do
    let status ← insb ports (ata.busPort + 7#16)
    if status &&& 0x80#8 ≠ 0#8 then ata.pollBusy ports else pure ()) := by
  refine (Program.loop_eq _ ()).trans ?_
  rw [bind_assoc]
  refine congrArg _ (funext fun status => ?_)
  split <;> rw [pure_bind] <;> rfl

theorem pollRequest_eq : ata.pollRequest ports = (do
    let status ← insb ports (ata.busPort + 7#16)
    if status &&& 0x01#8 ≠ 0#8 then pure false
    else if status &&& 0x08#8 = 0#8 then ata.pollRequest ports
    else pure true) := by
  refine (Program.loop_eq _ ()).trans ?_
  rw [bind_assoc]
  refine congrArg _ (funext fun status => ?_)
  split
  · rw [pure_bind]
    rfl
  · split <;> rw [pure_bind] <;> rfl

theorem flushLoop_eq (status : BitVec 8) : ata.flushLoop ports status =
    if status &&& 0x80#8 ≠ 0#8 ∧ status &&& 0x08#8 = 0#8 then
      insb ports (ata.busPort + 7#16) >>= ata.flushLoop ports
    else pure status := by
  refine (Program.loop_eq _ status).trans ?_
  split
  · rw [bind_map_left]
    rfl
  · rw [pure_bind]
    rfl

end

end ATA

end EagleOS.Drivers
