import EagleOS.Drivers.ATAStatus

/-!
# What a drive says about itself

`InitBusDrive` asks a drive to identify itself, waits for it in three loops, and stores the 256 words that it delivers in
a new array. The loop that stores them moves `buf` on, and `m_DeviceInfo` becomes what `buf` is then.

## The model

The array is where the parameter `new` says; the allocator may change the memory too. The function returns its result
and what it leaves in `m_DeviceInfo`.

## What is proved

* `mem_initBusDrive` — where it returns `true`, the words are in the array, and `m_DeviceInfo` points past them.
* `deviceInfo_iff` — so what `m_DeviceInfo` points to is what the drive has sent only where that was in the memory before.
* `deviceInfo_past_words` — a drive that is ready at once.
-/

namespace EagleOS.Drivers

open Foundations ESTD

namespace ATA

section

variable {σ : Type} (ports : Ports σ) (ata : ATA)

/-- The loop of `InitBusDrive` until `BSY` is clear: whether the drive is an ATA drive. -/
def identifyBusy : Program σ Bool :=
  Program.loop (fun _ => do
    let status ← insb ports (ata.busPort + 7#16)
    if status &&& 0x80#8 ≠ 0#8 then
      if (← insb ports (ata.busPort + 4#16)) ≠ 0#8 then return .inl false
      if (← insb ports (ata.busPort + 5#16)) ≠ 0#8 then return .inl false
      return .inr ()
    else return .inl true) ()

/-- Its loop over the words: it returns `buf`. -/
def identifyWords : ℕ → BitVec 32 → Program σ (BitVec 32)
  | 0, buf => pure buf
  | left + 1, buf => do
    store16 buf (← insw ports (ata.busPort + 0#16))
    identifyWords left (buf + 2#32)

/-- `InitBusDrive`, with `m_DeviceInfo` before and after. The loop until `ERR` or `DRQ` is set is that of `Poll`. -/
def initBusDrive (new : Memory → BitVec 32 × Memory) (deviceInfo : BitVec 32) : Program σ (Bool × BitVec 32) := do
  outb ports (ata.busPort + 6#16) ata.driveCode
  outb ports (ata.busPort + 2#16) 0#8
  outb ports (ata.busPort + 3#16) 0#8
  outb ports (ata.busPort + 4#16) 0#8
  outb ports (ata.busPort + 5#16) 0#8
  outb ports (ata.busPort + 7#16) 0xEC#8
  ata.delay400NS ports
  let status ← insb ports (ata.busPort + 7#16)
  if status = 0#8 then return (false, deviceInfo)
  if ¬ (← ata.identifyBusy ports) then return (false, deviceInfo)
  if ¬ (← ata.pollRequest ports) then return (false, deviceInfo)
  let buf ← modifyGet fun m => ((new m.memory).1, { m with memory := (new m.memory).2 })
  let buf ← ata.identifyWords ports 256 buf
  return (true, buf)

end

end ATA

section

open ScriptedDrive

variable {ata : ATA} {m m' : Machine ScriptedDrive}

/-! ### Before the words -/

/-- The memory and the words to come are what they were. -/
def SameWords (m m' : Machine ScriptedDrive) : Prop :=
  m'.memory = m.memory ∧ m'.devices.words = m.devices.words ∧ m'.devices.wordsRead = m.devices.wordsRead

theorem SameWords.refl (m : Machine ScriptedDrive) : SameWords m m := ⟨rfl, rfl, rfl⟩

theorem SameWords.trans {m₁ m₂ m₃ : Machine ScriptedDrive} (h : SameWords m₁ m₂) (h' : SameWords m₂ m₃) : SameWords m₁ m₃ :=
  ⟨h'.1.trans h.1, h'.2.1.trans h.2.1, h'.2.2.trans h.2.2⟩

/-- A program that delivers no words and leaves the memory. -/
def Waiting {α : Type} (a : Program ScriptedDrive α) : Prop := ∀ m v m', (v, m') ∈ a.run m → SameWords m m'

theorem waiting_pure {α : Type} (v : α) : Waiting (pure v) := by
  intro m v' m' h
  cases Part.mem_some_iff.mp h
  exact .refl m

theorem Waiting.bind {α β : Type} {a : Program ScriptedDrive α} {f : α → Program ScriptedDrive β} (ha : Waiting a)
    (hf : ∀ v, Waiting (f v)) : Waiting (a >>= f) := by
  intro m v m' h
  obtain ⟨u, m₁, hu, hv⟩ := Program.mem_bind_iff.mp h
  exact (ha m u m₁ hu).trans (hf u m₁ v m' hv)

theorem waiting_ite {α : Type} {c : Prop} [Decidable c] {a a' : Program ScriptedDrive α} (ha : Waiting a) (ha' : Waiting a') :
    Waiting (if c then a else a') := by
  split
  · exact ha
  · exact ha'

theorem waiting_loop {α β : Type} {body : α → Program ScriptedDrive (β ⊕ α)} (hbody : ∀ v, Waiting (body v)) (v : α) :
    Waiting (Program.loop body v) := by
  intro m u m' h
  refine Program.loop_induction (C := fun _ m => SameWords m m') h (fun v m hend => hbody v m _ _ hend) ?_
  exact fun v m v' m₁ hround ih => (hbody v m _ _ hround).trans ih

theorem waiting_insb (port : BitVec 16) : Waiting (insb (ports ata) port) := by
  intro m v m' h
  cases Part.mem_some_iff.mp h
  simp only [ports]
  split <;> exact ⟨rfl, rfl, rfl⟩

theorem waiting_outb (port : BitVec 16) (data : BitVec 8) : Waiting (outb (ports ata) port data) := by
  intro m v m' h
  cases Part.mem_some_iff.mp h
  exact .refl m

theorem waiting_delayLoop (n : ℕ) : Waiting (ata.delayLoop (ports ata) n) := by
  induction n with
  | zero => exact waiting_pure ()
  | succ n ih => exact (waiting_insb _).bind fun _ => ih

theorem waiting_identifyBusy : Waiting (ata.identifyBusy (ports ata)) := by
  refine waiting_loop (fun _ => (waiting_insb _).bind fun status => waiting_ite ?_ (waiting_pure _)) ()
  refine (waiting_insb _).bind fun mid => waiting_ite (waiting_pure _) ?_
  exact (waiting_insb _).bind fun high => waiting_ite (waiting_pure _) (waiting_pure _)

theorem waiting_pollRequest : Waiting (ata.pollRequest (ports ata)) := by
  refine waiting_loop (fun _ => (waiting_insb _).bind fun status => waiting_ite (waiting_pure _) ?_) ()
  exact waiting_ite (waiting_pure _) (waiting_pure _)

/-! ### The words -/

/-- The words that the drive delivers next. -/
def delivered (drive : ScriptedDrive) (n : ℕ) : List (BitVec 16) :=
  (List.range n).map fun k => drive.words (drive.wordsRead + k)

theorem delivered_succ (drive : ScriptedDrive) (n : ℕ) : delivered drive (n + 1) =
    drive.words drive.wordsRead :: delivered { drive with wordsRead := drive.wordsRead + 1 } n := by
  simp only [delivered, List.range_succ_eq_map, List.map_cons, List.map_map, Nat.add_zero, List.cons.injEq, true_and]
  exact List.map_congr_left fun k _ => by rw [Function.comp, Nat.succ_eq_add_one, Nat.add_right_comm, Nat.add_assoc]

/-- The loop over the words stores them one after the other, and returns the address after the last one. -/
theorem run_identifyWords (n : ℕ) : ∀ (memory : Memory) (drive : ScriptedDrive) (buf : BitVec 32), ∃ drive',
    (ata.identifyWords (ports ata) n buf).run ⟨memory, drive⟩ =
      .some (buf + BitVec.ofNat 32 (2 * n), ⟨memory.storeWords buf (delivered drive n), drive'⟩) := by
  induction n with
  | zero => exact fun memory drive buf => ⟨drive, by rw [Nat.mul_zero, BitVec.add_zero]; rfl⟩
  | succ n ih =>
    intro memory drive buf
    obtain ⟨drive', hrest⟩ := ih (memory.store16 buf (drive.words drive.wordsRead))
      { drive with wordsRead := drive.wordsRead + 1 } (buf + 2#32)
    refine ⟨drive', ?_⟩
    have hword : (insw (ports ata) (ata.busPort + 0#16)).run ⟨memory, drive⟩ =
        .some (drive.words drive.wordsRead, ⟨memory, { drive with wordsRead := drive.wordsRead + 1 }⟩) := by
      rw [run_insw]
      simp only [ports, if_pos]
    rw [ATA.identifyWords, Program.run_bind_of hword, Program.run_bind_of (run_store16 _ _), hrest, BitVec.add_assoc,
      ← BitVec.ofNat_add, Nat.add_comm 2, ← Nat.mul_succ, delivered_succ]
    rfl

/-- Where `InitBusDrive` returns `true`, the words are in the new array, and `m_DeviceInfo` points past them. -/
theorem mem_initBusDrive {new : Memory → BitVec 32 × Memory} {before deviceInfo : BitVec 32}
    (h : ((true, deviceInfo), m') ∈ (ata.initBusDrive (ports ata) new before).run m) :
    deviceInfo = (new m.memory).1 + 512#32 ∧
      m'.memory = (new m.memory).2.storeWords (new m.memory).1 (delivered m.devices 256) := by
  obtain ⟨_, m₁, h₁, h⟩ := Program.mem_bind_iff.mp h
  obtain ⟨_, m₂, h₂, h⟩ := Program.mem_bind_iff.mp h
  obtain ⟨_, m₃, h₃, h⟩ := Program.mem_bind_iff.mp h
  obtain ⟨_, m₄, h₄, h⟩ := Program.mem_bind_iff.mp h
  obtain ⟨_, m₅, h₅, h⟩ := Program.mem_bind_iff.mp h
  obtain ⟨_, m₆, h₆, h⟩ := Program.mem_bind_iff.mp h
  obtain ⟨_, m₇, h₇, h⟩ := Program.mem_bind_iff.mp h
  obtain ⟨status, m₈, h₈, h⟩ := Program.mem_bind_iff.mp h
  have hcommand : SameWords m m₈ := by
    refine ((waiting_outb _ _ _ _ _ h₁).trans (waiting_outb _ _ _ _ _ h₂)).trans ?_
    refine ((waiting_outb _ _ _ _ _ h₃).trans (waiting_outb _ _ _ _ _ h₄)).trans ?_
    refine ((waiting_outb _ _ _ _ _ h₅).trans (waiting_outb _ _ _ _ _ h₆)).trans ?_
    exact (waiting_delayLoop 14 _ _ _ h₇).trans (waiting_insb _ _ _ _ h₈)
  split at h
  · cases Part.mem_some_iff.mp h
  obtain ⟨isATA, m₉, h₉, h⟩ := Program.mem_bind_iff.mp h
  split at h
  · cases Part.mem_some_iff.mp h
  obtain ⟨ready, m₁₀, h₁₀, h⟩ := Program.mem_bind_iff.mp h
  split at h
  · cases Part.mem_some_iff.mp h
  obtain ⟨hmemory, hwords, hread⟩ := hcommand.trans ((waiting_identifyBusy _ _ _ h₉).trans (waiting_pollRequest _ _ _ h₁₀))
  have hdelivered : delivered m₁₀.devices 256 = delivered m.devices 256 := by simp only [delivered, hwords, hread]
  obtain ⟨buf, m₁₁, h₁₁, h⟩ := Program.mem_bind_iff.mp h
  cases Part.mem_some_iff.mp h₁₁
  obtain ⟨drive', hrun⟩ := @run_identifyWords ata 256 (new m₁₀.memory).2 m₁₀.devices (new m₁₀.memory).1
  rw [hdelivered, hmemory] at hrun
  have hlast : (new m.memory).1 + BitVec.ofNat 32 (2 * 256) = (new m.memory).1 + 512#32 := rfl
  rw [hlast] at hrun
  rw [hmemory, Program.run_bind_of hrun] at h
  have hend : ((true, deviceInfo), m') = ((true, (new m.memory).1 + 512#32),
    ⟨(new m.memory).2.storeWords (new m.memory).1 (delivered m.devices 256), drive'⟩) := Part.mem_some_iff.mp h
  rw [Prod.mk.injEq, Prod.mk.injEq] at hend
  exact ⟨hend.1.2, by rw [hend.2]⟩

/-! ### What `m_DeviceInfo` points to -/

/-- What is past the words is what was there before. -/
theorem load16_past (memory : Memory) (buf : BitVec 32) (drive : ScriptedDrive) {k : ℕ} (hk : k < 256) :
    (memory.storeWords buf (delivered drive 256)).load16 (buf + 512#32 + BitVec.ofNat 32 (2 * k)) =
      memory.load16 (buf + BitVec.ofNat 32 (512 + 2 * k)) := by
  have hlen : 2 * (delivered drive 256).length = 512 := by rw [delivered, List.length_map, List.length_range]
  have hbyte : ∀ i, 512 ≤ i → i < 1024 →
      memory.storeWords buf (delivered drive 256) (buf + BitVec.ofNat 32 i) = memory (buf + BitVec.ofNat 32 i) := by
    intro i hi hi'
    refine (Memory.storeWords_apply _ (by rw [hlen]; omega) memory buf _).2 ?_
    rw [hlen, mem_span, BitVec.add_comm, BitVec.add_sub_cancel, BitVec.toNat_ofNat]
    omega
  have hnext : buf + BitVec.ofNat 32 (512 + 2 * k) + 1#32 = buf + BitVec.ofNat 32 (512 + 2 * k + 1) := by
    rw [BitVec.add_assoc, ← BitVec.ofNat_add]
  have haddress : buf + 512#32 + BitVec.ofNat 32 (2 * k) = buf + BitVec.ofNat 32 (512 + 2 * k) := by
    rw [BitVec.add_assoc, ← BitVec.ofNat_add]
  rw [haddress, Memory.load16, Memory.load16, hnext, hbyte _ (by omega) (by omega), hbyte _ (by omega) (by omega)]

/-- Where `InitBusDrive` returns `true`, `m_DeviceInfo` points to the words that the drive has delivered exactly if the
512 bytes after the new array held these words before. -/
theorem deviceInfo_iff (ata : ATA) (new : Memory → BitVec 32 × Memory) (before deviceInfo : BitVec 32)
    (m m' : Machine ScriptedDrive) (h : ((true, deviceInfo), m') ∈ (ata.initBusDrive (ports ata) new before).run m) :
    (∀ k < 256, m'.memory.load16 (deviceInfo + BitVec.ofNat 32 (2 * k)) = m.devices.words (m.devices.wordsRead + k)) ↔
      ∀ k < 256, (new m.memory).2.load16 ((new m.memory).1 + BitVec.ofNat 32 (512 + 2 * k)) =
        m.devices.words (m.devices.wordsRead + k) := by
  obtain ⟨rfl, hmemory⟩ := mem_initBusDrive h
  refine forall_congr' fun k => imp_congr_right fun hk => ?_
  rw [hmemory, load16_past _ _ _ hk]

/-- A drive that is ready at once identifies itself. -/
theorem initBusDrive_ready (ata : ATA) (new : Memory → BitVec 32 × Memory) (before : BitVec 32) (m : Machine ScriptedDrive)
    (hready : ∀ i, m.devices.status i = 0x48#8) :
    ∃ m', (ata.initBusDrive (ports ata) new before).run m = .some ((true, (new m.memory).1 + 512#32), m') := by
  have hcommand : ∀ port data, (outb (ports ata) port data).run m = .some ((), m) := fun _ _ => rfl
  have hdelay : (ata.delay400NS (ports ata)).run m = .some ((), statusAt m (m.devices.statusRead + 14)) := run_delayLoop 14 _
  have hbusy : (ata.identifyBusy (ports ata)).run (statusAt m (m.devices.statusRead + 15)) =
      .some (true, statusAt m (m.devices.statusRead + 16)) := by
    rw [ATA.identifyBusy, Program.loop_eq, bind_assoc, Program.run_bind_of (run_status ata m _), hready,
      if_neg (by decide), pure_bind]
    rfl
  have hrequest : (ata.pollRequest (ports ata)).run (statusAt m (m.devices.statusRead + 16)) =
      .some (true, statusAt m (m.devices.statusRead + 17)) := by
    rw [ATA.pollRequest_eq, Program.run_bind_of (run_status ata m _), hready]
    rfl
  obtain ⟨m', hwords⟩ : ∃ m', (ata.identifyWords (ports ata) 256 (new m.memory).1).run
      ⟨(new m.memory).2, (statusAt m (m.devices.statusRead + 17)).devices⟩ = .some ((new m.memory).1 + 512#32, m') := by
    obtain ⟨drive', hwords⟩ := @run_identifyWords ata 256 (new m.memory).2
      (statusAt m (m.devices.statusRead + 17)).devices (new m.memory).1
    exact ⟨_, hwords⟩
  refine ⟨m', ?_⟩
  have hnew : (modifyGet fun m : Machine ScriptedDrive => ((new m.memory).1, { m with memory := (new m.memory).2 }) :
      Program ScriptedDrive (BitVec 32)).run (statusAt m (m.devices.statusRead + 17)) =
      .some ((new m.memory).1, ⟨(new m.memory).2, (statusAt m (m.devices.statusRead + 17)).devices⟩) := rfl
  rw [ATA.initBusDrive, Program.run_bind_of (hcommand _ _), Program.run_bind_of (hcommand _ _),
    Program.run_bind_of (hcommand _ _), Program.run_bind_of (hcommand _ _), Program.run_bind_of (hcommand _ _),
    Program.run_bind_of (hcommand _ _), Program.run_bind_of hdelay, Program.run_bind_of (run_status ata m _), hready,
    if_neg (by decide), Program.run_bind_of hbusy, if_neg (not_not.mpr rfl), Program.run_bind_of hrequest,
    if_neg (not_not.mpr rfl), Program.run_bind_of hnew, Program.run_bind_of hwords]
  exact StateT.run_pure _ _

/-- Such a drive, and a memory of zeros. -/
def readyDrive : Machine ScriptedDrive :=
  ⟨fun _ => 0#8, ⟨fun _ => 0x48#8, 0, fun _ => 0#8, 0, fun _ => 0x1234#16, 0⟩⟩

/-- The first address of the heap. -/
def firstArray (memory : Memory) : BitVec 32 × Memory := (0xC1000000#32, memory)

theorem deviceInfo_iff_readyDrive : ∃ m', ((true, 0xC1000200#32), m') ∈
      ((ATA.members .primary .master).initBusDrive (ports (ATA.members .primary .master)) firstArray 0#32).run readyDrive ∧
    ((∀ k < 256, m'.memory.load16 (0xC1000200#32 + BitVec.ofNat 32 (2 * k)) = 0x1234#16) ↔
      ∀ k < 256, readyDrive.memory.load16 (0xC1000000#32 + BitVec.ofNat 32 (512 + 2 * k)) = 0x1234#16) := by
  obtain ⟨m', hm'⟩ := initBusDrive_ready (ATA.members .primary .master) firstArray 0#32 readyDrive fun _ => rfl
  rw [Part.eq_some_iff] at hm'
  exact ⟨m', hm', deviceInfo_iff _ firstArray 0#32 _ readyDrive m' hm'⟩

/-- `m_DeviceInfo` does not point to what the drive has sent. -/
theorem deviceInfo_past_words : ∃ m', ((true, 0xC1000200#32), m') ∈
      ((ATA.members .primary .master).initBusDrive (ports (ATA.members .primary .master)) firstArray 0#32).run readyDrive ∧
    m'.memory.load16 0xC1000200#32 ≠ readyDrive.devices.words 0 := by
  obtain ⟨m', hm'⟩ := initBusDrive_ready (ATA.members .primary .master) firstArray 0#32 readyDrive fun _ => rfl
  rw [Part.eq_some_iff] at hm'
  refine ⟨m', hm', ?_⟩
  have hpast := load16_past readyDrive.memory 0xC1000000#32 readyDrive.devices (show 0 < 256 by decide)
  have hmemory := (mem_initBusDrive hm').2
  have hword : m'.memory.load16 0xC1000200#32 = 0#16 := by
    rw [hmemory]
    exact hpast.trans rfl
  rw [hword]
  decide

end

end EagleOS.Drivers
