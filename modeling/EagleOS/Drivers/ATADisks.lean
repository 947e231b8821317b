import EagleOS.Drivers.ATADrives

/-!
# Disks

What the driver is for: sectors that are written and read back. `Storage` is a memory and the bytes of the sectors of
four disks; `read` and `write` move blocks of 512 bytes between them. The driver does that on drives that follow
28-bit PIO, whatever the registers held before.

## What is proved

* `waits_poll`, `waits_cacheFlush` — the drive becomes ready, so the loops end.
* `run_readSector28`, `run_writeSector28` — one sector.
* `run_readSectors`, `run_writeSectors` — the loops over sectors, as `Storage` reads and writes.
* `run_call` — the refinement, for one call.
* `ata_refines_storage` — and for any calls on any of the drives.
-/

namespace EagleOS.Drivers

open Foundations ESTD

variable {b : ATABus} {d : ATADrive} {drive : PIODrive} {disks : ATABus → ATADrive → BitVec 28 → Sector}
  {memory : Memory} {buses : PIOBuses}

/-! ### Waiting -/

open PIOBuses

/-- A program runs with the drive in one state, leaves the memory, and returns `v` with the drive in a state of `R`. -/
def Waits {α : Type} (b : ATABus) (d : ATADrive) (drive : PIODrive) (a : Program PIOBuses α) (v : α) (R : PIODrive → Prop) :
    Prop :=
  ∀ memory buses disks, Doing buses b d drive disks → ∃ buses' drive', Doing buses' b d drive' disks ∧ R drive' ∧
    a.run ⟨memory, buses⟩ = .some (v, ⟨memory, buses'⟩)

variable {α β : Type} {a : Program PIOBuses α} {f : α → Program PIOBuses β} {v : α} {u : β} {R S : PIODrive → Prop}

theorem waits_pure (hR : R drive) : Waits b d drive (pure v) v R := fun _ _ _ h => ⟨_, _, h, hR, rfl⟩

theorem Waits.bind (ha : Waits b d drive a v R) (hf : ∀ drive', R drive' → Waits b d drive' (f v) u S) :
    Waits b d drive (a >>= f) u S := by
  intro memory buses disks h
  obtain ⟨buses', drive', h', hR, hrun⟩ := ha memory buses disks h
  obtain ⟨buses'', drive'', h'', hS, hrun'⟩ := hf drive' hR memory buses' disks h'
  exact ⟨buses'', drive'', h'', hS, (Program.run_bind_of hrun).trans hrun'⟩

/-- The status is read. -/
theorem waits_status (drive : PIODrive) :
    Waits b d drive (insb ports ((ATA.members b d).busPort + 7#16)) drive.status.1 (· = drive.status.2) := by
  intro memory buses disks h
  obtain ⟨buses', h', hinb⟩ := h.inb_status
  exact ⟨buses', _, h', rfl, by rw [run_insb, hinb]⟩

theorem waits_delayLoop (left : ℕ) : ∀ drive : PIODrive,
    Waits b d drive ((ATA.members b d).delayLoop ports left) () fun drive' => drive'.transfer = drive.transfer := by
  induction left with
  | zero => exact fun drive => waits_pure rfl
  | succ left ih =>
    intro drive
    refine (waits_status drive).bind ?_
    rintro _ rfl
    have hrest := ih drive.status.2
    rwa [drive.status_keeps.2] at hrest

/-- The drive does not stay busy. -/
theorem waits_pollBusy (n : ℕ) : ∀ drive : PIODrive, drive.busy = n →
    Waits b d drive ((ATA.members b d).pollBusy ports) () fun drive' => drive'.transfer = drive.transfer ∧ drive'.busy = 0 := by
  induction n with
  | zero =>
    intro drive hbusy
    obtain ⟨hclear, hdone⟩ := PIODrive.status_done hbusy
    rw [ATA.pollBusy_eq]
    refine (waits_status drive).bind ?_
    rintro _ rfl
    rw [if_neg (not_not.mpr hclear)]
    exact waits_pure ⟨drive.status_keeps.2, hdone⟩
  | succ n ih =>
    intro drive hbusy
    obtain ⟨hset, -, hleft⟩ := PIODrive.status_busy hbusy
    rw [ATA.pollBusy_eq]
    refine (waits_status drive).bind ?_
    rintro _ rfl
    rw [if_pos hset]
    have hrest := ih drive.status.2 hleft
    rwa [drive.status_keeps.2] at hrest

/-- It comes to ask for data. -/
theorem waits_pollRequest (n : ℕ) : ∀ drive : PIODrive, drive.settling = n → drive.busy = 0 → drive.transfer ≠ .idle →
    Waits b d drive ((ATA.members b d).pollRequest ports) true fun drive' =>
      drive'.transfer = drive.transfer ∧ drive'.Asking := by
  induction n with
  | zero =>
    intro drive hsettling hbusy ht
    obtain ⟨hset, hsettled⟩ := PIODrive.status_asking hbusy ht hsettling
    rw [ATA.pollRequest_eq]
    refine (waits_status drive).bind ?_
    rintro _ rfl
    rw [if_neg (not_not.mpr drive.status_error), if_neg hset]
    exact waits_pure ⟨drive.status_keeps.2, (PIODrive.status_done hbusy).2, hsettled⟩
  | succ n ih =>
    intro drive hsettling hbusy ht
    obtain ⟨hclear, hleft⟩ := PIODrive.status_settling hbusy ht hsettling
    rw [ATA.pollRequest_eq]
    refine (waits_status drive).bind ?_
    rintro _ rfl
    rw [if_neg (not_not.mpr drive.status_error), if_pos hclear]
    have hkeeps := drive.status_keeps.2
    have hrest := ih drive.status.2 hleft (PIODrive.status_done hbusy).2 (hkeeps ▸ ht)
    rwa [hkeeps] at hrest

/-- `Poll` returns when the drive asks for data. -/
theorem waits_poll (ht : drive.transfer ≠ .idle) : Waits b d drive ((ATA.members b d).poll ports) true fun drive' =>
    drive'.transfer = drive.transfer ∧ drive'.Asking := by
  refine (waits_delayLoop 14 drive).bind fun drive₁ h₁ => ?_
  refine (waits_pollBusy _ drive₁ rfl).bind fun drive₂ h₂ => ?_
  have h₂₁ := h₂.1.trans h₁
  have hrest := waits_pollRequest (b := b) (d := d) _ drive₂ rfl h₂.2 (h₂₁ ▸ ht)
  rwa [h₂₁] at hrest

/-- The loop of `CacheFlush` ends: the drive does not stay busy. -/
theorem waits_flushLoop (n : ℕ) : ∀ drive : PIODrive, drive.busy = n →
    ∃ st, st &&& 0x01#8 = 0#8 ∧ Waits b d drive (do
      let status ← insb ports ((ATA.members b d).busPort + 7#16)
      (ATA.members b d).flushLoop ports status) st fun _ => True := by
  induction n with
  | zero =>
    intro drive hbusy
    refine ⟨drive.status.1, drive.status_error, (waits_status drive).bind ?_⟩
    rintro _ rfl
    have hdone : ¬ (drive.status.1 &&& 0x80#8 ≠ 0#8 ∧ drive.status.1 &&& 0x08#8 = 0#8) :=
      fun h => h.1 (PIODrive.status_done hbusy).1
    rw [ATA.flushLoop_eq, if_neg hdone]
    exact waits_pure trivial
  | succ n ih =>
    intro drive hbusy
    obtain ⟨hset, hclear, hleft⟩ := PIODrive.status_busy hbusy
    obtain ⟨st, herror, hst⟩ := ih drive.status.2 hleft
    refine ⟨st, herror, (waits_status drive).bind ?_⟩
    rintro _ rfl
    rw [ATA.flushLoop_eq, if_pos ⟨hset, hclear⟩]
    exact hst

/-- `CacheFlush` returns. -/
theorem waits_cacheFlush (drive : PIODrive) :
    Waits b d drive ((ATA.members b d).cacheFlush ports) true fun _ => True := by
  intro memory buses disks h
  obtain ⟨buses', sector, h', houtb⟩ := h.outb_command 0xE7#8
  obtain ⟨st, herror, hst⟩ := waits_flushLoop (b := b) (d := d) _ (drive.command 0xE7#8 sector) rfl
  obtain ⟨buses'', drive'', h'', -, hrun⟩ := hst memory buses' disks h'
  refine ⟨buses'', drive'', h'', trivial, ?_⟩
  have hbegin : (outb ports ((ATA.members b d).busPort + 7#16) 0xE7#8).run ⟨memory, buses⟩ = .some ((), ⟨memory, buses'⟩) := by
    rw [run_outb, houtb]
  rw [ATA.cacheFlush, Program.run_bind_of hbegin, ← bind_assoc, Program.run_bind_of hrun, if_neg (not_not.mpr herror)]
  rfl

/-! ### One sector -/

/-- The loop of `ReadSector28` stores the words that the drive has. -/
theorem run_readWords (words : List (BitVec 16)) : ∀ (memory : Memory) {buses drive} (ptr : BitVec 32), Doing buses b d drive disks →
    (words ≠ [] → drive.transfer = .reading words ∧ drive.Asking) → ∃ buses' drive', Doing buses' b d drive' disks ∧
      ((ATA.members b d).readWords ports words.length ptr).run ⟨memory, buses⟩ =
        .some ((), ⟨memory.storeWords ptr words, buses'⟩) := by
  induction words with
  | nil => exact fun _ _ _ _ h _ => ⟨_, _, h, rfl⟩
  | cons w words ih =>
    intro memory buses drive ptr h hready
    obtain ⟨ht, ha⟩ := hready (List.cons_ne_nil w words)
    obtain ⟨buses', drive', h', ht', ha', hinw⟩ := h.inw_data ht ha
    have hnext : words ≠ [] → drive'.transfer = .reading words ∧ drive'.Asking := fun hne => ⟨by rw [ht', if_neg hne], ha'⟩
    obtain ⟨buses'', drive'', h'', hrun⟩ := ih (memory.store16 ptr w) (ptr + 2#32) h' hnext
    refine ⟨buses'', drive'', h'', ?_⟩
    have hword : (insw ports ((ATA.members b d).busPort + 0#16)).run ⟨memory, buses⟩ = .some (w, ⟨memory, buses'⟩) := by
      rw [run_insw, hinw]
    rw [List.length_cons, ATA.readWords, Program.run_bind_of hword, Program.run_bind_of (run_store16 ptr w)]
    exact hrun

/-- The words of the memory from an address on. -/
def loaded (memory : Memory) (ptr : BitVec 32) (n : ℕ) : List (BitVec 16) :=
  (List.range n).map fun i => memory.load16 (ptr + BitVec.ofNat 32 (2 * i))

theorem loaded_succ (memory : Memory) (ptr : BitVec 32) (n : ℕ) :
    loaded memory ptr (n + 1) = memory.load16 ptr :: loaded memory (ptr + 2#32) n := by
  have htwo : ∀ i, ptr + BitVec.ofNat 32 (2 * (i + 1)) = ptr + 2#32 + BitVec.ofNat 32 (2 * i) := by
    intro i
    rw [BitVec.add_assoc, ← BitVec.ofNat_add, Nat.mul_succ, Nat.add_comm]
  simp only [loaded, List.range_succ_eq_map, List.map_cons, List.map_map, Nat.mul_zero, BitVec.add_zero]
  congr 1
  exact List.map_congr_left fun i _ => by rw [Function.comp, Nat.succ_eq_add_one, htwo]

/-- The sectors when one of them has been written. -/
def written (disks : ATABus → ATADrive → BitVec 28 → Sector) (b : ATABus) (d : ATADrive) (sector : BitVec 28)
    (words : List (BitVec 16)) : ATABus → ATADrive → BitVec 28 → Sector :=
  Function.update disks b (Function.update (disks b) d (Function.update (disks b d) sector fun k => words.getD k.val 0#16))

/-- The loop of `WriteSector28` hands the drive the words that it lacks: the sector is written. -/
theorem run_writeWords (memory : Memory) (n : ℕ) : ∀ {buses drive words sector} (ptr : BitVec 32), Doing buses b d drive disks →
    drive.transfer = .writing sector words → drive.Asking → words.length + (n + 1) = 256 →
    ∃ buses' drive', Doing buses' b d drive' (written disks b d sector (words ++ loaded memory ptr (n + 1))) ∧
      ((ATA.members b d).writeWords ports (n + 1) ptr).run ⟨memory, buses⟩ = .some ((), ⟨memory, buses'⟩) := by
  induction n with
  | zero =>
    intro buses drive words sector ptr h ht ha hlen
    obtain ⟨buses', drive', h', houtw⟩ := h.outw_last ht ha hlen (memory.load16 ptr)
    have hloaded : loaded memory ptr 1 = [memory.load16 ptr] := by rw [loaded_succ]; rfl
    refine ⟨buses', drive', by rw [hloaded]; exact h', ?_⟩
    rw [ATA.writeWords, Program.run_bind_of (run_load16 ptr), Program.run_bind_of (run_outw _ _), houtw]
    rfl
  | succ n ih =>
    intro buses drive words sector ptr h ht ha hlen
    obtain ⟨buses', drive', h', ht', ha', houtw⟩ := h.outw_data ht ha (by omega) (memory.load16 ptr)
    obtain ⟨buses'', drive'', h'', hrun⟩ := ih (ptr + 2#32) h' ht' ha' (by rw [List.length_append]; simp; omega)
    refine ⟨buses'', drive'', ?_, ?_⟩
    · rw [loaded_succ, ← List.singleton_append, ← List.append_assoc]
      exact h''
    · rw [ATA.writeWords, Program.run_bind_of (run_load16 ptr), Program.run_bind_of (run_outw _ _), houtw]
      exact hrun

/-- `ReadSector28` stores the words of the sector. -/
theorem run_readSector28 (b : ATABus) (d : ATADrive) (buf : BitVec 32) (lba : SizeT) (memory : Memory) (buses : PIOBuses) :
    ∃ buses' : PIOBuses, buses'.disks = buses.disks ∧ ((ATA.members b d).readSector28 ports buf lba).run ⟨memory, buses⟩ =
      .some (0#32, ⟨memory.storeWords buf (List.ofFn (buses.disks b d (lba.setWidth 28))), buses'⟩) := by
  obtain ⟨buses₁, h₁, hrun₁⟩ := run_command28 b d lba 0x20#8 memory buses
  have ht : (((buses b).drives d).command 0x20#8 (lba.setWidth 28)).transfer =
      .reading (List.ofFn (buses.disks b d (lba.setWidth 28))) := rfl
  have hne : (((buses b).drives d).command 0x20#8 (lba.setWidth 28)).transfer ≠ .idle := by
    rw [ht]
    intro h
    cases h
  obtain ⟨buses₂, drive₂, h₂, ⟨ht₂, ha₂⟩, hrun₂⟩ := waits_poll hne memory buses₁ buses.disks h₁
  rw [ht] at ht₂
  obtain ⟨buses₃, drive₃, h₃, hrun₃⟩ := run_readWords _ memory buf h₂ fun _ => ⟨ht₂, ha₂⟩
  rw [List.length_ofFn] at hrun₃
  obtain ⟨buses₄, drive₄, h₄, -, hrun₄⟩ := waits_delayLoop 14 drive₃
    (memory.storeWords buf (List.ofFn (buses.disks b d (lba.setWidth 28)))) buses₃ buses.disks h₃
  refine ⟨buses₄, h₄.disks, ?_⟩
  rw [ATA.readSector28, Program.run_bind_of hrun₁, Program.run_bind_of hrun₂, if_neg (not_not.mpr rfl),
    Program.run_bind_of hrun₃, ATA.delay400NS, Program.run_bind_of hrun₄]
  rfl

/-- `WriteSector28` writes the sector. -/
theorem run_writeSector28 (b : ATABus) (d : ATADrive) (buf : BitVec 32) (lba : SizeT) (memory : Memory) (buses : PIOBuses) :
    ∃ buses' : PIOBuses, buses'.disks = written buses.disks b d (lba.setWidth 28) (loaded memory buf 256) ∧
      ((ATA.members b d).writeSector28 ports buf lba).run ⟨memory, buses⟩ = .some (0#32, ⟨memory, buses'⟩) := by
  obtain ⟨buses₁, h₁, hrun₁⟩ := run_command28 b d lba 0x30#8 memory buses
  have ht : (((buses b).drives d).command 0x30#8 (lba.setWidth 28)).transfer = .writing (lba.setWidth 28) [] := rfl
  have hne : (((buses b).drives d).command 0x30#8 (lba.setWidth 28)).transfer ≠ .idle := by
    rw [ht]
    intro h
    cases h
  obtain ⟨buses₂, drive₂, h₂, ⟨ht₂, ha₂⟩, hrun₂⟩ := waits_poll hne memory buses₁ buses.disks h₁
  rw [ht] at ht₂
  obtain ⟨buses₃, drive₃, h₃, hrun₃⟩ := run_writeWords memory 255 buf h₂ ht₂ ha₂ rfl
  obtain ⟨buses₄, drive₄, h₄, -, hrun₄⟩ := waits_cacheFlush drive₃ memory buses₃ _ h₃
  obtain ⟨buses₅, drive₅, h₅, -, hrun₅⟩ := waits_delayLoop 14 drive₄ memory buses₄ _ h₄
  refine ⟨buses₅, h₅.disks, ?_⟩
  rw [ATA.writeSector28, Program.run_bind_of hrun₁, Program.run_bind_of hrun₂, if_neg (not_not.mpr rfl),
    Program.run_bind_of hrun₃, Program.run_bind_of hrun₄, if_neg (not_not.mpr rfl), ATA.delay400NS,
    Program.run_bind_of hrun₅]
  rfl

/-! ### Many sectors -/

/-- A memory, and the bytes of the sectors of four disks. -/
structure Storage where
  /-- The memory. -/
  memory : Memory
  /-- The bytes. -/
  disks : ATABus → ATADrive → BitVec 28 → Fin 512 → BitVec 8

namespace Storage

/-- `count` blocks of 512 bytes are read from consecutive sectors. -/
def read (s : Storage) (b : ATABus) (d : ATADrive) (buf : BitVec 32) (count lba : ℕ) : Storage :=
  { s with
    memory := fun x =>
      if (x - buf).toNat < 512 * count then
        s.disks b d (BitVec.ofNat 28 (lba + (x - buf).toNat / 512)) ⟨(x - buf).toNat % 512, Nat.mod_lt _ (by decide)⟩
      else s.memory x }

/-- `count` blocks of 512 bytes are written to consecutive sectors. -/
def write (s : Storage) (b : ATABus) (d : ATADrive) (buf : BitVec 32) (count lba : ℕ) : Storage :=
  { s with
    disks := fun b' d' sector i =>
      if b' = b ∧ d' = d ∧ lba ≤ sector.toNat ∧ sector.toNat < lba + count then
        s.memory (buf + BitVec.ofNat 32 (512 * (sector.toNat - lba) + i.val))
      else s.disks b' d' sector i }

variable (s : Storage) (b : ATABus) (d : ATADrive) (buf : BitVec 32) (n lba : ℕ)

theorem read_zero : s.read b d buf 0 lba = s := by simp [read]

theorem write_zero : s.write b d buf 0 lba = s := by
  have hnone : ∀ sector : BitVec 28, ¬ (lba ≤ sector.toNat ∧ sector.toNat < lba + 0) := fun sector h => by omega
  simp only [write, hnone, and_false, if_false]

/-- Blocks are read one after the other. -/
theorem read_succ (hn : 512 * (n + 1) ≤ 2 ^ 32) :
    s.read b d buf (n + 1) lba = (s.read b d buf 1 lba).read b d (buf + 512#32) n (lba + 1) := by
  have hmemory : ∀ x, (s.read b d buf (n + 1) lba).memory x =
      ((s.read b d buf 1 lba).read b d (buf + 512#32) n (lba + 1)).memory x := by
    intro x
    simp only [read]
    by_cases hrest : (x - (buf + 512#32)).toNat < 512 * n
    · have hoffset : (x - buf).toNat = (x - (buf + 512#32)).toNat + 512 := by
        simp only [BitVec.toNat_sub, BitVec.toNat_add, BitVec.toNat_ofNat] at hrest ⊢
        omega
      have hindex : lba + ((x - (buf + 512#32)).toNat / 512 + 1) = lba + 1 + (x - (buf + 512#32)).toNat / 512 := by omega
      simp only [hoffset, if_pos hrest, Nat.add_div_right _ (show 0 < 512 by decide), Nat.add_mod_right, hindex]
      rw [if_pos (by omega)]
    · rw [if_neg hrest]
      have hsplit : (x - buf).toNat < 512 * (n + 1) ↔ (x - buf).toNat < 512 * 1 := by
        simp only [BitVec.toNat_sub, BitVec.toNat_add, BitVec.toNat_ofNat] at hrest ⊢
        omega
      simp only [hsplit]
  exact congrArg (Storage.mk · s.disks) (funext hmemory)

/-- Blocks are written one after the other. -/
theorem write_succ : s.write b d buf (n + 1) lba = (s.write b d buf 1 lba).write b d (buf + 512#32) n (lba + 1) := by
  have hdisks : (s.write b d buf (n + 1) lba).disks = ((s.write b d buf 1 lba).write b d (buf + 512#32) n (lba + 1)).disks := by
    funext b' d' sector i
    simp only [write]
    by_cases hdrive : b' = b ∧ d' = d
    · by_cases hrest : lba + 1 ≤ sector.toNat ∧ sector.toNat < lba + 1 + n
      · have haddress : buf + BitVec.ofNat 32 (512 * (sector.toNat - lba) + i.val) =
            buf + 512#32 + BitVec.ofNat 32 (512 * (sector.toNat - (lba + 1)) + i.val) := by
          rw [BitVec.add_assoc, ← BitVec.ofNat_add]
          congr 2
          omega
        rw [if_pos ⟨hdrive.1, hdrive.2, by omega, by omega⟩, if_pos ⟨hdrive.1, hdrive.2, hrest.1, hrest.2⟩, haddress]
      · have hfirst : lba ≤ sector.toNat ∧ sector.toNat < lba + (n + 1) ↔ lba ≤ sector.toNat ∧ sector.toNat < lba + 1 := by omega
        simp only [hrest, hfirst, and_false, if_false]
    · rw [if_neg (fun h => hdrive ⟨h.1, h.2.1⟩), if_neg (fun h => hdrive ⟨h.1, h.2.1⟩), if_neg (fun h => hdrive ⟨h.1, h.2.1⟩)]
  exact congrArg (Storage.mk s.memory) hdisks

end Storage

/-- A byte of a sector: the low byte of a word comes first. -/
def Sector.byte (sector : Sector) (i : Fin 512) : BitVec 8 :=
  (sector ⟨i.val / 2, by omega⟩).extractLsb' (8 * (i.val % 2)) 8

/-- What a machine stores. -/
def storage (m : Machine PIOBuses) : Storage := ⟨m.memory, fun b d sector => (m.devices.disks b d sector).byte⟩

/-- A sector that is read, byte by byte. -/
theorem storage_readSector (memory : Memory) (buses buses' : PIOBuses) (b : ATABus) (d : ATADrive) (buf : BitVec 32) (lba : SizeT)
    (hdisks : buses'.disks = buses.disks) :
    storage ⟨memory.storeWords buf (List.ofFn (buses.disks b d (lba.setWidth 28))), buses'⟩ =
      (storage ⟨memory, buses⟩).read b d buf 1 lba.toNat := by
  have hmemory : memory.storeWords buf (List.ofFn (buses.disks b d (lba.setWidth 28))) =
      ((storage ⟨memory, buses⟩).read b d buf 1 lba.toNat).memory := by
    funext x
    obtain ⟨hin, hout⟩ := Memory.storeWords_apply (List.ofFn (buses.disks b d (lba.setWidth 28)))
      (by rw [List.length_ofFn]; decide) memory buf x
    rw [List.length_ofFn, mem_span] at hin hout
    simp only [Storage.read, storage]
    split
    · rename_i hlt
      have hindex : (x - buf).toNat / 2 < 256 := by omega
      have hzero : (x - buf).toNat / 512 = 0 := Nat.div_eq_of_lt hlt
      have hsame : (x - buf).toNat % 512 = (x - buf).toNat := Nat.mod_eq_of_lt hlt
      rw [hin hlt, List.getD_eq_getElem?_getD, List.getElem?_ofFn, dif_pos hindex]
      simp only [Option.getD_some, Sector.byte, hzero, hsame, Nat.add_zero, BitVec.ofNat_toNat]
    · rename_i hge
      exact hout hge
  simp only [storage, hdisks, hmemory]
  rfl

/-- A byte of the words that are loaded. -/
theorem byte_loaded (memory : Memory) (buf : BitVec 32) (i : Fin 512) :
    Sector.byte (fun k => (loaded memory buf 256).getD k.val 0#16) i = memory (buf + BitVec.ofNat 32 i.val) := by
  have hindex : i.val / 2 < 256 := by omega
  have hword : (loaded memory buf 256).getD (i.val / 2) 0#16 = memory.load16 (buf + BitVec.ofNat 32 (2 * (i.val / 2))) := by
    simp [loaded, List.getD_eq_getElem?_getD, hindex]
  rw [Sector.byte, hword, Memory.extractLsb'_load16 _ _ (Nat.mod_lt _ (by decide)), BitVec.add_assoc, ← BitVec.ofNat_add,
    Nat.div_add_mod]

/-- A sector that is written, byte by byte. -/
theorem storage_writeSector (memory : Memory) (buses buses' : PIOBuses) (b : ATABus) (d : ATADrive) (buf : BitVec 32) (lba : SizeT)
    (hlba : lba.toNat < 2 ^ 28)
    (hdisks : buses'.disks = written buses.disks b d (lba.setWidth 28) (loaded memory buf 256)) :
    storage ⟨memory, buses'⟩ = (storage ⟨memory, buses⟩).write b d buf 1 lba.toNat := by
  have hsame : (storage ⟨memory, buses'⟩).disks = ((storage ⟨memory, buses⟩).write b d buf 1 lba.toNat).disks := by
    funext b' d' sector i
    simp only [storage, Storage.write, hdisks, written]
    by_cases hb : b' = b
    · subst hb
      by_cases hd : d' = d
      · subst hd
        by_cases hsector : sector = lba.setWidth 28
        · have hnat : sector.toNat = lba.toNat := by rw [hsector, BitVec.toNat_setWidth, Nat.mod_eq_of_lt hlba]
          rw [if_pos ⟨rfl, rfl, by omega, by omega⟩, hnat, Nat.sub_self, Nat.mul_zero, Nat.zero_add]
          simp only [Function.update_self, hsector]
          exact byte_loaded memory buf i
        · have hnat : ¬ (lba.toNat ≤ sector.toNat ∧ sector.toNat < lba.toNat + 1) := by
            intro h
            refine hsector (BitVec.eq_of_toNat_eq ?_)
            rw [BitVec.toNat_setWidth, Nat.mod_eq_of_lt hlba]
            omega
          rw [if_neg (fun h => hnat h.2.2)]
          simp only [Function.update_self, Function.update_of_ne hsector]
      · rw [if_neg (fun h => hd h.2.1)]
        simp only [Function.update_self, Function.update_of_ne hd]
    · rw [if_neg (fun h => hb h.1)]
      simp only [Function.update_of_ne hb]
  exact congrArg (Storage.mk memory) hsame

theorem toNat_lba_add {lba : SizeT} {i : ℕ} (h : lba.toNat + i < 2 ^ 28) : (lba + BitVec.ofNat 32 i).toNat = lba.toNat + i := by
  rw [BitVec.toNat_add, BitVec.toNat_ofNat]
  omega

/-- The loop of `Read28`. -/
theorem run_readSectors (b : ATABus) (d : ATADrive) (lba : SizeT) (n : ℕ) : ∀ (i : ℕ) (ptr : BitVec 32) (memory : Memory) (buses : PIOBuses),
    lba.toNat + i + n ≤ 2 ^ 28 → 512 * n ≤ 2 ^ 32 → ∃ m, ((ATA.members b d).readSectors ports lba n i ptr).run ⟨memory, buses⟩ =
      .some (true, m) ∧ storage m = (storage ⟨memory, buses⟩).read b d ptr n (lba.toNat + i) := by
  induction n with
  | zero => exact fun i ptr memory buses _ _ => ⟨⟨memory, buses⟩, rfl, (Storage.read_zero ..).symm⟩
  | succ n ih =>
    intro i ptr memory buses hlba hn
    have hi : (lba + BitVec.ofNat 32 i).toNat = lba.toNat + i := toNat_lba_add (by omega)
    obtain ⟨buses', hdisks, hrun⟩ := run_readSector28 b d ptr (lba + BitVec.ofNat 32 i) memory buses
    obtain ⟨m, hrest, hstorage⟩ := ih (i + 1) (ptr + 512#32)
      (memory.storeWords ptr (List.ofFn (buses.disks b d ((lba + BitVec.ofNat 32 i).setWidth 28)))) buses' (by omega) (by omega)
    refine ⟨m, ?_, ?_⟩
    · rw [ATA.readSectors, Program.run_bind_of hrun, if_neg (not_not.mpr rfl)]
      exact hrest
    · rw [hstorage, storage_readSector _ _ _ _ _ _ _ hdisks, hi, Storage.read_succ _ _ _ _ _ _ hn, Nat.add_assoc]

/-- The loop of `Write28`. -/
theorem run_writeSectors (memory : Memory) (b : ATABus) (d : ATADrive) (lba : SizeT) (n : ℕ) : ∀ (i : ℕ) (ptr : BitVec 32) (buses : PIOBuses), lba.toNat + i + n ≤ 2 ^ 28 →
    ∃ m, ((ATA.members b d).writeSectors ports lba n i ptr).run ⟨memory, buses⟩ = .some (true, m) ∧
      storage m = (storage ⟨memory, buses⟩).write b d ptr n (lba.toNat + i) := by
  induction n with
  | zero => exact fun i ptr buses _ => ⟨⟨memory, buses⟩, rfl, (Storage.write_zero ..).symm⟩
  | succ n ih =>
    intro i ptr buses hlba
    have hi : (lba + BitVec.ofNat 32 i).toNat = lba.toNat + i := toNat_lba_add (by omega)
    obtain ⟨buses', hdisks, hrun⟩ := run_writeSector28 b d ptr (lba + BitVec.ofNat 32 i) memory buses
    obtain ⟨m, hrest, hstorage⟩ := ih (i + 1) (ptr + 512#32) buses' (by omega)
    refine ⟨m, ?_, ?_⟩
    · rw [ATA.writeSectors, Program.run_bind_of hrun, if_neg (not_not.mpr rfl)]
      exact hrest
    · rw [hstorage, storage_writeSector _ _ _ _ _ _ _ (by omega) hdisks, hi, Storage.write_succ _ b d ptr n, Nat.add_assoc]

/-! ### Calls -/

/-- A call on the object for a drive. -/
inductive ATACall where
  /-- `Read28`. -/
  | read28 (b : ATABus) (d : ATADrive) (buf : BitVec 32) (sectorCount lba : SizeT)
  /-- `Write28`. -/
  | write28 (b : ATABus) (d : ATADrive) (buf : BitVec 32) (sectorCount lba : SizeT)

namespace ATACall

/-- What the code does. -/
def run : ATACall → Program PIOBuses (BitVec 32)
  | .read28 b d buf sectorCount lba => (ATA.members b d).read28 ports buf sectorCount lba
  | .write28 b d buf sectorCount lba => (ATA.members b d).write28 ports buf sectorCount lba

/-- What it is for. -/
def apply (s : Storage) : ATACall → Storage
  | .read28 b d buf sectorCount lba => s.read b d buf sectorCount.toNat lba.toNat
  | .write28 b d buf sectorCount lba => s.write b d buf sectorCount.toNat lba.toNat

/-- How many sectors it is about, and the first. -/
def range : ATACall → SizeT × SizeT
  | .read28 _ _ _ sectorCount lba => (sectorCount, lba)
  | .write28 _ _ _ sectorCount lba => (sectorCount, lba)

/-- The sectors exist, and the number of bytes can be returned. -/
def InRange (c : ATACall) : Prop :=
  c.range.2.toNat + c.range.1.toNat ≤ 2 ^ 28 ∧ 512 * c.range.1.toNat < 2 ^ 31

instance (c : ATACall) : Decidable c.InRange := inferInstanceAs (Decidable (_ ∧ _))

end ATACall

theorem toInt_bytes {sectorCount : SizeT} (h : 512 * sectorCount.toNat < 2 ^ 31) :
    (sectorCount * 0x200#32).toInt = 512 * sectorCount.toNat := by
  have hmul : (sectorCount * 0x200#32).toNat = 512 * sectorCount.toNat := by
    rw [BitVec.toNat_mul, BitVec.toNat_ofNat]
    omega
  rw [BitVec.toInt_eq_toNat_of_lt (by omega), hmul]
  rfl

/-- A call does what it is for, and returns the number of bytes. -/
theorem run_call (c : ATACall) (h : c.InRange) (m : Machine PIOBuses) : ∃ r m', c.run.run m = .some (r, m') ∧
    r.toInt = 512 * c.range.1.toNat ∧ storage m' = c.apply (storage m) := by
  obtain ⟨hlba, hcount⟩ := h
  cases c with
  | read28 b d buf sectorCount lba =>
    obtain ⟨m', hrun, hstorage⟩ := run_readSectors b d lba sectorCount.toNat 0 buf m.memory m.devices hlba
      (by simp only [ATACall.range] at hcount; omega)
    refine ⟨sectorCount * 0x200#32, m', ?_, toInt_bytes hcount, hstorage⟩
    rw [ATACall.run, ATA.read28, Program.run_bind_of hrun, if_pos rfl]
    rfl
  | write28 b d buf sectorCount lba =>
    obtain ⟨m', hrun, hstorage⟩ := run_writeSectors m.memory b d lba sectorCount.toNat 0 buf
      m.devices hlba
    refine ⟨sectorCount * 0x200#32, m', ?_, toInt_bytes hcount, hstorage⟩
    rw [ATACall.run, ATA.write28, Program.run_bind_of hrun, if_pos rfl]
    rfl

/-- **Refinement**: any calls on the objects of any drives return the numbers of bytes, and leave the memory and the
sectors as reads and writes of disks do. -/
theorem ata_refines_storage (calls : List ATACall) (h : ∀ c ∈ calls, c.InRange) (m : Machine PIOBuses) :
    ∃ results m', (calls.mapM ATACall.run).run m = .some (results, m') ∧
      results.map BitVec.toInt = calls.map (fun c => 512 * (c.range.1.toNat : ℤ)) ∧
      storage m' = calls.foldl ATACall.apply (storage m) := by
  induction calls generalizing m with
  | nil => exact ⟨[], m, rfl, rfl, rfl⟩
  | cons c calls ih =>
    rw [List.forall_mem_cons] at h
    obtain ⟨r, m₁, hrun, hr, hstorage⟩ := run_call c h.1 m
    obtain ⟨results, m₂, hrest, hresults, hstorage'⟩ := ih h.2 m₁
    refine ⟨r :: results, m₂, ?_, by rw [List.map_cons, List.map_cons, hr, hresults], ?_⟩
    · rw [List.mapM_cons, Program.run_bind_of hrun, Program.run_bind_of hrest]
      rfl
    · rw [hstorage', hstorage, List.foldl_cons]

/-- Empty disks, registers that hold what other calls have left, and a memory in which the pages differ. -/
def emptyDisks : Machine PIOBuses where
  memory := fun x => (x >>> 12).setWidth 8
  devices := fun _ =>
    { features := 0xFF#8, sectorCount := 0xFF#8, lbaLow := 0xFF#8, lbaMid := 0xFF#8, lbaHigh := 0xFF#8, driveHead := 0xFF#8
      drives := fun _ => ⟨fun _ _ => 0#16, .idle, 0, 0, fun n => (n, 3), fun _ => 0xFF#8⟩ }

/-- Sectors of one number are written to the master and to the slave, and the one of the master is read. -/
def masterSlaveCalls : List ATACall :=
  [.write28 .primary .master 0x1000#32 1#32 5#32, .write28 .primary .slave 0x2000#32 1#32 5#32,
    .read28 .primary .master 0x3000#32 1#32 5#32]

theorem ata_refines_storage_masterSlaveCalls :
    ∃ results m', (masterSlaveCalls.mapM ATACall.run).run emptyDisks = .some (results, m') ∧
      results.map BitVec.toInt = [512, 512, 512] ∧
      ∀ i < 512, m'.memory (0x3000#32 + BitVec.ofNat 32 i) = emptyDisks.memory (0x1000#32 + BitVec.ofNat 32 i) := by
  obtain ⟨results, m', hrun, hresults, hstorage⟩ := ata_refines_storage masterSlaveCalls (by decide) emptyDisks
  refine ⟨results, m', hrun, hresults, fun i hi => ?_⟩
  have hoffset : (0x3000#32 + BitVec.ofNat 32 i - 0x3000#32).toNat = i := by
    rw [BitVec.add_comm, BitVec.add_sub_cancel, BitVec.toNat_ofNat, Nat.mod_eq_of_lt (by omega)]
  have hlba : (BitVec.ofNat 28 ((5#32).toNat + i / 512)).toNat = 5 := by rw [Nat.div_eq_of_lt hi]; rfl
  have hread : m'.memory (0x3000#32 + BitVec.ofNat 32 i) =
      (masterSlaveCalls.foldl ATACall.apply (storage emptyDisks)).memory (0x3000#32 + BitVec.ofNat 32 i) := by
    rw [← hstorage]
    rfl
  have hfirst : i < 512 * (1#32).toNat := hi
  simp only [masterSlaveCalls, List.foldl_cons, List.foldl_nil, ATACall.apply, Storage.read, Storage.write, hoffset, if_pos hfirst,
    hlba] at hread
  rw [hread, if_neg (by decide), if_pos (by decide), Nat.mod_eq_of_lt hi]
  have hblock : 512 * (5 - (5#32).toNat) + i = i := Nat.zero_add i
  rw [hblock]
  rfl

end EagleOS.Drivers
