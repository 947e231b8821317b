import EagleOS.Drivers.ATADisks

/-!
# Writes past the last sector

`Write28` does not look at its range. The registers take 28 bits of a sector number, and `lba + i` is 32-bit
arithmetic: block `i` of the buffer lands on the sector `lba + i` modulo `2 ^ 28`, and the drive has no reason to
report an error.

## What is proved

* `run_writeSectors_lands` — where the loop of `Write28` puts the blocks, for any range.
* `write28_lands` — so for the function, which never returns -1 here; a range of sectors that exist is kept to.
* `write28_aliases` — a block that is written past the last sector replaces the boot sector.
-/

namespace EagleOS.Drivers

open Foundations ESTD PIOBuses

variable {b : ATABus} {d : ATADrive} {disks : ATABus → ATADrive → BitVec 28 → Sector} {memory : Memory}

/-- The sector that block `i` lands on. -/
def landing (lba : SizeT) (i : ℕ) : BitVec 28 := (lba + BitVec.ofNat 32 i).setWidth 28

theorem toNat_landing (lba : SizeT) (i : ℕ) : (landing lba i).toNat = (lba.toNat + i) % 2 ^ 28 := by
  rw [landing, BitVec.toNat_setWidth, BitVec.toNat_add, BitVec.toNat_ofNat]
  omega

/-- The block of the memory at an address, as a sector. -/
def blockAt (memory : Memory) (a : BitVec 32) : Sector := fun k => (loaded memory a 256).getD k.val 0#16

/-- The sector that is written. -/
theorem written_self (sector : BitVec 28) (a : BitVec 32) :
    written disks b d sector (loaded memory a 256) b d sector = blockAt memory a := by
  simp only [written, Function.update_self]
  rfl

/-- The sectors that are not. -/
theorem written_of_ne {sector other : BitVec 28} {words : List (BitVec 16)} {b' : ATABus} {d' : ATADrive}
    (h : b' = b → d' = d → other ≠ sector) : written disks b d sector words b' d' other = disks b' d' other := by
  by_cases hb : b' = b
  · subst hb
    by_cases hd : d' = d
    · subst hd
      simp only [written, Function.update_self, Function.update_of_ne (h rfl rfl)]
    · simp only [written, Function.update_self, Function.update_of_ne hd]
  · simp only [written, Function.update_of_ne hb]

/-- What the loop of `Write28` does to the sectors, from block `i` on. -/
structure Lands (memory : Memory) (b : ATABus) (d : ATADrive) (lba : SizeT) (i n : ℕ) (ptr : BitVec 32)
    (before after : ATABus → ATADrive → BitVec 28 → Sector) : Prop where
  /-- A sector on which no block lands stays what it is. -/
  others : ∀ b' d' sector, (b' = b → d' = d → ∀ k < n, sector ≠ landing lba (i + k)) → after b' d' sector = before b' d' sector
  /-- A sector holds the last block that lands on it. -/
  last : ∀ k < n, (∀ j < n, k < j → landing lba (i + j) ≠ landing lba (i + k)) →
    after b d (landing lba (i + k)) = blockAt memory (ptr + BitVec.ofNat 32 (512 * k))

/-- One block, and then the rest. -/
theorem Lands.cons {lba : SizeT} {i n : ℕ} {ptr : BitVec 32} {before after : ATABus → ATADrive → BitVec 28 → Sector}
    (h : Lands memory b d lba (i + 1) n (ptr + 512#32)
      (written before b d (landing lba i) (loaded memory ptr 256)) after) :
    Lands memory b d lba i (n + 1) ptr before after := by
  have hnext : ∀ k, landing lba (i + 1 + k) = landing lba (i + (k + 1)) := fun k => by rw [Nat.add_right_comm, Nat.add_assoc]
  constructor
  · intro b' d' sector hother
    rw [h.others b' d' sector fun hb hd k hk => by rw [hnext]; exact hother hb hd (k + 1) (by omega)]
    exact written_of_ne fun hb hd => hother hb hd 0 (Nat.succ_pos n)
  · intro k hk hlast
    cases k with
    | zero =>
      have hrest : ∀ j < n, landing lba i ≠ landing lba (i + 1 + j) := by
        intro j hj
        rw [hnext]
        exact (hlast (j + 1) (by omega) (Nat.succ_pos j)).symm
      rw [Nat.add_zero, h.others b d _ fun _ _ => hrest, written_self, Nat.mul_zero, BitVec.add_zero]
    | succ k =>
      have hblock := h.last k (by omega) fun j hj hkj => by
        rw [hnext, hnext]
        exact hlast (j + 1) (by omega) (by omega)
      rw [hnext] at hblock
      rw [hblock, BitVec.add_assoc, ← BitVec.ofNat_add, Nat.mul_succ, Nat.add_comm 512]

/-- The loop of `Write28`, for any range: it writes all blocks, wherever they land. -/
theorem run_writeSectors_lands (memory : Memory) (b : ATABus) (d : ATADrive) (lba : SizeT) (n : ℕ) :
    ∀ (i : ℕ) (ptr : BitVec 32) (buses : PIOBuses), ∃ buses' : PIOBuses,
      ((ATA.members b d).writeSectors ports lba n i ptr).run ⟨memory, buses⟩ = .some (true, ⟨memory, buses'⟩) ∧
        Lands memory b d lba i n ptr buses.disks buses'.disks := by
  induction n with
  | zero => exact fun i ptr buses => ⟨buses, rfl, fun _ _ _ _ => rfl, fun k hk => absurd hk (Nat.not_lt_zero k)⟩
  | succ n ih =>
    intro i ptr buses
    obtain ⟨buses₁, hdisks, hrun⟩ := run_writeSector28 b d ptr (lba + BitVec.ofNat 32 i) memory buses
    obtain ⟨buses₂, hrest, hlands⟩ := ih (i + 1) (ptr + 512#32) buses₁
    rw [hdisks] at hlands
    refine ⟨buses₂, ?_, hlands.cons⟩
    rw [ATA.writeSectors, Program.run_bind_of hrun, if_neg (not_not.mpr rfl)]
    exact hrest

/-- The number of bytes is not -1, whether or not it wraps around. -/
theorem bytes_ne_neg_one (sectorCount : SizeT) : sectorCount * 0x200#32 ≠ -1#32 := by
  intro h
  have hmod := congrArg (fun x => x.toNat % 512) h
  simp only [BitVec.toNat_mul, BitVec.toNat_ofNat, BitVec.toNat_neg] at hmod
  omega

/-- `Write28` on a drive that follows 28-bit PIO: block `i` lands on the sector `lba + i` modulo `2 ^ 28`, nothing
else changes, and the number of bytes is returned. Where the range is one of sectors that exist, no sector outside of
it changes. -/
theorem write28_lands (b : ATABus) (d : ATADrive) (buf : BitVec 32) (sectorCount lba : SizeT) (m : Machine PIOBuses) :
    ∃ m', ((ATA.members b d).write28 ports buf sectorCount lba).run m = .some (sectorCount * 0x200#32, m') ∧
      sectorCount * 0x200#32 ≠ -1#32 ∧ m'.memory = m.memory ∧
      Lands m.memory b d lba 0 sectorCount.toNat buf m.devices.disks m'.devices.disks ∧
      ((∀ k < sectorCount.toNat, lba.toNat + k < 2 ^ 28) → ∀ b' d' sector,
        ¬ (b' = b ∧ d' = d ∧ lba.toNat ≤ sector.toNat ∧ sector.toNat < lba.toNat + sectorCount.toNat) →
          m'.devices.disks b' d' sector = m.devices.disks b' d' sector) := by
  obtain ⟨buses', hrun, hlands⟩ := run_writeSectors_lands m.memory b d lba sectorCount.toNat 0 buf m.devices
  refine ⟨⟨m.memory, buses'⟩, ?_, bytes_ne_neg_one sectorCount, rfl, hlands, fun hrange b' d' sector hout => ?_⟩
  · rw [ATA.write28, Program.run_bind_of hrun, if_pos rfl]
    rfl
  · refine hlands.others b' d' sector fun hb hd k hk hsector => hout ⟨hb, hd, ?_⟩
    have hnat : sector.toNat = lba.toNat + k := by rw [hsector, toNat_landing, Nat.zero_add, Nat.mod_eq_of_lt (hrange k hk)]
    omega

/-- A block is written to the sector after the last one: it replaces the first. -/
theorem write28_aliases : ∃ m', ((ATA.members .primary .master).write28 ports 0x1000#32 1#32 0x10000000#32).run emptyDisks =
      .some (512#32, m') ∧
    m'.devices.disks .primary .master 0#28 ≠ emptyDisks.devices.disks .primary .master 0#28 := by
  obtain ⟨buses', hrun, hlands⟩ :=
    run_writeSectors_lands emptyDisks.memory .primary .master 0x10000000#32 1 0 0x1000#32 emptyDisks.devices
  refine ⟨⟨emptyDisks.memory, buses'⟩, ?_, ?_⟩
  · exact (Program.run_bind_of hrun).trans rfl
  · have hlast := hlands.last 0 (Nat.succ_pos 0) fun j hj hj' => absurd hj' (by omega)
    have hfirst : landing 0x10000000#32 (0 + 0) = 0#28 := rfl
    rw [hfirst] at hlast
    intro hsame
    have hword := congrFun (hlast.symm.trans hsame) ⟨0, Nat.succ_pos 255⟩
    rw [blockAt, loaded_succ, List.getD_cons_zero] at hword
    exact absurd hword (by decide)

end EagleOS.Drivers
