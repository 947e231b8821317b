import EagleOS.Drivers.ATA
import EagleOS.Foundations.Streams

/-!
# What the wait loops of the ATA driver accept

`Poll` waits until `BSY` is clear and then until `ERR` or `DRQ` is set; `CacheFlush` waits while `BSY` is set and `DRQ`
is not. Neither looks at `DF`, which a drive sets without `ERR`, and neither looks at `BSY` once it has seen `DRQ`.

## The model

A `ScriptedDrive` shows any status bytes, one read after the other. The other registers and the data port have scripts
of their own.

## What is proved

* `mem_poll_iff`, `mem_cacheFlush_iff` — when the functions return, and what they have read then.
* `waitsSafely_iff` — the status bytes on which they return `true` for an idle, healthy drive only, and report an error
  as soon as they read it.
* `poll_accepts_fault` — a drive fault is taken for success.
-/

namespace EagleOS.Drivers

open Foundations ESTD

/-- A drive that answers from scripts. -/
structure ScriptedDrive where
  /-- The status bytes. -/
  status : ℕ → BitVec 8
  /-- How many of them have been read. -/
  statusRead : ℕ
  /-- What the other registers answer. -/
  registers : ℕ → BitVec 8
  /-- How many of these answers have been read. -/
  registersRead : ℕ
  /-- The words that are delivered on the data port. -/
  words : ℕ → BitVec 16
  /-- How many of them have been. -/
  wordsRead : ℕ

namespace ScriptedDrive

/-- How the drive answers, behind the ports that an object uses. -/
def ports (ata : ATA) : Ports ScriptedDrive where
  inb port drive :=
    if port = ata.busPort + 7#16 then (drive.status drive.statusRead, { drive with statusRead := drive.statusRead + 1 })
    else (drive.registers drive.registersRead, { drive with registersRead := drive.registersRead + 1 })
  outb _ _ drive := drive
  inw port drive :=
    if port = ata.busPort + 0#16 then (drive.words drive.wordsRead, { drive with wordsRead := drive.wordsRead + 1 })
    else (0xFFFF#16, drive)
  outw _ _ drive := drive

/-- The machine when `k` status bytes have been read. -/
def statusAt (m : Machine ScriptedDrive) (k : ℕ) : Machine ScriptedDrive :=
  { m with devices := { m.devices with statusRead := k } }

/-- The status byte that was read last. -/
def lastStatus (m : Machine ScriptedDrive) : BitVec 8 := m.devices.status (m.devices.statusRead - 1)

end ScriptedDrive

/-! ### The bits of the status -/

/-- `ATA_STATUS_REG_BSY`. -/
def Busy (status : BitVec 8) : Prop := status &&& 0x80#8 ≠ 0#8

/-- `ATA_STATUS_REG_ERR`. -/
def Error (status : BitVec 8) : Prop := status &&& 0x01#8 ≠ 0#8

/-- `ATA_STATUS_REG_DRQ`. -/
def Request (status : BitVec 8) : Prop := status &&& 0x08#8 ≠ 0#8

/-- `ATA_STATUS_REG_DF`. -/
def Fault (status : BitVec 8) : Prop := status &&& 0x20#8 ≠ 0#8

/-- An idle drive without error or fault. -/
def Healthy (status : BitVec 8) : Prop := ¬ Busy status ∧ ¬ Error status ∧ ¬ Fault status

instance : DecidablePred Busy := fun _ => inferInstanceAs (Decidable (_ ≠ _))

instance : DecidablePred Error := fun _ => inferInstanceAs (Decidable (_ ≠ _))

instance : DecidablePred Request := fun _ => inferInstanceAs (Decidable (_ ≠ _))

instance : DecidablePred Fault := fun _ => inferInstanceAs (Decidable (_ ≠ _))

section

open ScriptedDrive

variable {ata : ATA} {m : Machine ScriptedDrive} {i : ℕ}

/-! ### What the functions read -/

theorem run_status (ata : ATA) (m : Machine ScriptedDrive) (i : ℕ) :
    (insb (ports ata) (ata.busPort + 7#16)).run (statusAt m i) = .some (m.devices.status i, statusAt m (i + 1)) := by
  rw [run_insb]
  simp only [ports, if_pos, statusAt]

theorem run_delayLoop (n : ℕ) : ∀ i, (ata.delayLoop (ports ata) n).run (statusAt m i) = .some ((), statusAt m (i + n)) := by
  induction n with
  | zero => exact fun i => rfl
  | succ n ih =>
    intro i
    rw [ATA.delayLoop, Program.run_bind_of (run_status ata m i), ih, Nat.add_assoc, Nat.add_comm 1]

/-- The first loop of `Poll` ends at the first byte without `BSY`. -/
theorem mem_pollBusy_iff {r : Unit × Machine ScriptedDrive} : r ∈ (ata.pollBusy (ports ata)).run (statusAt m i) ↔
    ∃ k, FirstFrom (fun st => ¬ Busy st) m.devices.status i k ∧ r = ((), statusAt m (k + 1)) := by
  have hloop : ata.pollBusy (ports ata) = Program.loop (fun _ => insb (ports ata) (ata.busPort + 7#16) >>= fun st =>
      pure (if ¬ Busy st then .inl () else .inr ())) () := by
    refine congrArg (Program.loop · ()) (funext fun _ => congrArg _ (funext fun st => ?_))
    by_cases h : Busy st
    · rw [if_neg (not_not.mpr h)]
      exact if_pos h
    · rw [if_pos h]
      exact if_neg h
  rw [hloop]
  exact mem_wait_iff (run_status ata m) (fun st => ¬ Busy st) fun _ => ()

/-- The second one ends at the first byte with `ERR` or `DRQ`. -/
theorem mem_pollRequest_iff {r : Bool × Machine ScriptedDrive} : r ∈ (ata.pollRequest (ports ata)).run (statusAt m i) ↔
    ∃ k, FirstFrom (fun st => Error st ∨ Request st) m.devices.status i k ∧
      r = (decide (¬ Error (m.devices.status k)), statusAt m (k + 1)) := by
  have hloop : ata.pollRequest (ports ata) = Program.loop (fun _ => insb (ports ata) (ata.busPort + 7#16) >>= fun st =>
      pure (if Error st ∨ Request st then .inl (decide (¬ Error st)) else .inr ())) () := by
    refine congrArg (Program.loop · ()) (funext fun _ => congrArg _ (funext fun st => ?_))
    by_cases herror : Error st
    · rw [if_pos (Or.inl herror), decide_eq_false (not_not.mpr herror)]
      exact if_pos herror
    · refine (if_neg herror).trans ?_
      by_cases hrequest : Request st
      · rw [if_pos (Or.inr hrequest), decide_eq_true herror]
        exact if_neg hrequest
      · rw [if_neg (not_or.mpr ⟨herror, hrequest⟩)]
        exact if_pos (not_not.mp hrequest)
  rw [hloop]
  exact mem_wait_iff (run_status ata m) (fun st => Error st ∨ Request st) fun st => decide (¬ Error st)

/-- `Poll` returns when both loops have ended: `a` is the byte that shows `BSY` clear, `c` the last one. -/
theorem mem_poll_iff {r : Bool × Machine ScriptedDrive} : r ∈ (ata.poll (ports ata)).run (statusAt m i) ↔
    ∃ a c, FirstFrom (fun st => ¬ Busy st) m.devices.status (i + 14) a ∧
      FirstFrom (fun st => Error st ∨ Request st) m.devices.status (a + 1) c ∧
      r = (decide (¬ Error (m.devices.status c)), statusAt m (c + 1)) := by
  rw [ATA.poll, ATA.delay400NS, Program.run_bind_of (run_delayLoop 14 i), Program.mem_bind_iff]
  constructor
  · rintro ⟨_, m₁, hbusy, hrequest⟩
    obtain ⟨a, ha, heq⟩ := mem_pollBusy_iff.mp hbusy
    cases heq
    obtain ⟨c, hc, hr⟩ := mem_pollRequest_iff.mp hrequest
    exact ⟨a, c, ha, hc, hr⟩
  · rintro ⟨a, c, ha, hc, hr⟩
    exact ⟨(), statusAt m (a + 1), mem_pollBusy_iff.mpr ⟨a, ha, rfl⟩, mem_pollRequest_iff.mpr ⟨c, hc, hr⟩⟩

/-- The loop of `CacheFlush` ends at the first byte without `BSY` or with `DRQ`. -/
theorem mem_flushLoop_iff {r : BitVec 8 × Machine ScriptedDrive} :
    r ∈ (insb (ports ata) (ata.busPort + 7#16) >>= ata.flushLoop (ports ata)).run (statusAt m i) ↔
      ∃ k, FirstFrom (fun st => ¬ Busy st ∨ Request st) m.devices.status i k ∧
        r = (m.devices.status k, statusAt m (k + 1)) := by
  have hgo : (fun st => ¬ (st &&& 0x80#8 ≠ 0#8 ∧ st &&& 0x08#8 = 0#8)) = fun st => ¬ Busy st ∨ Request st :=
    funext fun st => propext not_and_or
  rw [← hgo]
  exact mem_waitNext_iff (run_status ata m) fun st => st &&& 0x80#8 ≠ 0#8 ∧ st &&& 0x08#8 = 0#8

/-- `CacheFlush` returns when its loop has ended. -/
theorem mem_cacheFlush_iff {r : Bool × Machine ScriptedDrive} : r ∈ (ata.cacheFlush (ports ata)).run (statusAt m i) ↔
    ∃ k, FirstFrom (fun st => ¬ Busy st ∨ Request st) m.devices.status i k ∧
      r = (decide (¬ Error (m.devices.status k)), statusAt m (k + 1)) := by
  have hbegin : (outb (ports ata) (ata.busPort + 7#16) 0xE7#8).run (statusAt m i) = .some ((), statusAt m i) := rfl
  have hend : ∀ st m', r ∈ (if st &&& 0x01#8 ≠ 0#8 then pure false else pure true : Program ScriptedDrive Bool).run m' ↔
      r = (decide (¬ Error st), m') := by
    intro st m'
    by_cases herror : Error st
    · rw [if_pos (show st &&& 0x01#8 ≠ 0#8 from herror), decide_eq_false (not_not.mpr herror)]
      exact Part.mem_some_iff
    · rw [if_neg (show ¬ st &&& 0x01#8 ≠ 0#8 from herror), decide_eq_true herror]
      exact Part.mem_some_iff
  rw [ATA.cacheFlush, Program.run_bind_of hbegin, ← bind_assoc, Program.mem_bind_iff]
  constructor
  · rintro ⟨st, m₁, hst, hr⟩
    obtain ⟨k, hk, heq⟩ := mem_flushLoop_iff.mp hst
    cases heq
    exact ⟨k, hk, (hend _ _).mp hr⟩
  · rintro ⟨k, hk, hr⟩
    exact ⟨m.devices.status k, statusAt m (k + 1), mem_flushLoop_iff.mpr ⟨k, hk, rfl⟩, (hend _ _).mpr hr⟩

/-! ### What they accept -/

/-- The wait loops accept only an idle, healthy drive, and report an error as soon as they read it. -/
structure WaitsSafely (ata : ATA) (m : Machine ScriptedDrive) : Prop where
  /-- Where `Poll` returns `true`, the last byte shows an idle, healthy drive that asks for data. -/
  poll : ∀ m', (true, m') ∈ (ata.poll (ports ata)).run m → Healthy (lastStatus m') ∧ Request (lastStatus m')
  /-- Where `CacheFlush` does, it shows an idle, healthy drive. -/
  flush : ∀ m', (true, m') ∈ (ata.cacheFlush (ports ata)).run m → Healthy (lastStatus m')
  /-- From the byte `a` that shows `BSY` clear on, `Poll` returns `false` at the first byte `e` that has `BSY` clear and
  `ERR` or `DF` set, if no byte up to it has `DRQ` set and `Poll` comes to read it. -/
  report : ∀ a e, FirstFrom (fun st => ¬ Busy st) m.devices.status (m.devices.statusRead + 14) a →
    FirstFrom (fun st => ¬ Busy st ∧ (Error st ∨ Fault st)) m.devices.status a e →
    (∀ j, a ≤ j → j ≤ e → ¬ Request (m.devices.status j)) →
    (∀ v m', (v, m') ∈ (ata.poll (ports ata)).run m → e < m'.devices.statusRead) →
    (false, statusAt m (e + 1)) ∈ (ata.poll (ports ata)).run m

/-- The status bytes from position `i` on do not mislead the wait loops. -/
structure Straight (status : ℕ → BitVec 8) (i : ℕ) : Prop where
  /-- The first byte with `ERR` or `DRQ` after `BSY` has cleared has `ERR`, or neither `BSY` nor `DF`. -/
  request : ∀ a c, FirstFrom (fun st => ¬ Busy st) status (i + 14) a →
    FirstFrom (fun st => Error st ∨ Request st) status (a + 1) c →
      Error (status c) ∨ ¬ Busy (status c) ∧ ¬ Fault (status c)
  /-- So has the first byte without `BSY` or with `DRQ`. -/
  flush : ∀ k, FirstFrom (fun st => ¬ Busy st ∨ Request st) status i k →
    Error (status k) ∨ ¬ Busy (status k) ∧ ¬ Fault (status k)
  /-- The byte that shows `BSY` clear has `DRQ`; or it has neither `ERR` nor `DF`, and no byte after it and before the
  first with `ERR` or `DRQ` has `DF` without `BSY`. -/
  fault : ∀ a, FirstFrom (fun st => ¬ Busy st) status (i + 14) a → Request (status a) ∨
    ¬ Error (status a) ∧ ¬ Fault (status a) ∧
      ∀ j, a < j → (∀ l, a < l → l ≤ j → ¬ (Error (status l) ∨ Request (status l))) → Fault (status j) → Busy (status j)

theorem lastStatus_statusAt (m : Machine ScriptedDrive) (k : ℕ) : lastStatus (statusAt m (k + 1)) = m.devices.status k := rfl

/-- On bytes that do not mislead them, the loops are safe. -/
theorem Straight.waitsSafely (h : Straight m.devices.status m.devices.statusRead) : WaitsSafely ata m := by
  refine ⟨fun m' hm' => ?_, fun m' hm' => ?_, fun a e ha he hrequest hread => ?_⟩
  · obtain ⟨a, c, ha, hc, heq⟩ := mem_poll_iff.mp hm'
    obtain ⟨hv, rfl⟩ := Prod.mk.inj heq
    have herror := of_decide_eq_true hv.symm
    obtain ⟨hbusy, hfault⟩ := (h.request a c ha hc).resolve_left herror
    rw [lastStatus_statusAt]
    exact ⟨⟨hbusy, herror, hfault⟩, hc.holds.resolve_left herror⟩
  · obtain ⟨k, hk, heq⟩ := mem_cacheFlush_iff.mp hm'
    obtain ⟨hv, rfl⟩ := Prod.mk.inj heq
    have herror := of_decide_eq_true hv.symm
    obtain ⟨hbusy, hfault⟩ := (h.flush k hk).resolve_left herror
    rw [lastStatus_statusAt]
    exact ⟨hbusy, herror, hfault⟩
  · obtain ⟨herror, hfault, hrest⟩ := (h.fault a ha).resolve_left (hrequest a (Nat.le_refl a) he.le)
    have hae : a < e := by
      refine Nat.lt_of_le_of_ne he.le fun hae => ?_
      subst hae
      exact he.holds.2.elim herror hfault
    by_cases hstop : ∃ l, a < l ∧ l ≤ e ∧ (Error (m.devices.status l) ∨ Request (m.devices.status l))
    · -- the second loop ends at `e` or before it, and it does read `e`
      obtain ⟨l, hal, hle, hl⟩ := hstop
      obtain ⟨c, hc⟩ := exists_firstFrom (p := fun st => Error st ∨ Request st) (show a + 1 ≤ l from hal) hl
      have hce : c ≤ e := Nat.le_trans (hc.le_of_holds hal hl) hle
      have hac := hc.le
      have herror' := hc.holds.resolve_right (hrequest c (by omega) hce)
      have hmem : (false, statusAt m (c + 1)) ∈ (ata.poll (ports ata)).run m :=
        mem_poll_iff.mpr ⟨a, c, ha, hc, by rw [decide_eq_false (not_not.mpr herror')]⟩
      have hec : e ≤ c := Nat.le_of_lt_succ (hread _ _ hmem)
      rwa [Nat.le_antisymm hec hce]
    · have hnone : ∀ l, a < l → l ≤ e → ¬ (Error (m.devices.status l) ∨ Request (m.devices.status l)) :=
        fun l hal hle hl => hstop ⟨l, hal, hle, hl⟩
      have hfault' := he.holds.2.resolve_left fun herror' => hnone e hae (Nat.le_refl e) (.inl herror')
      exact absurd (hrest e hae hnone hfault') he.holds.1

/-- Where the loops are safe, the bytes do not mislead them. -/
theorem WaitsSafely.straight (h : WaitsSafely ata m) : Straight m.devices.status m.devices.statusRead := by
  refine ⟨fun a c ha hc => ?_, fun k hk => ?_, fun a ha => ?_⟩
  · by_cases herror : Error (m.devices.status c)
    · exact .inl herror
    · obtain ⟨⟨hbusy, -, hfault⟩, -⟩ :=
        h.poll (statusAt m (c + 1)) (mem_poll_iff.mpr ⟨a, c, ha, hc, by rw [decide_eq_true herror]⟩)
      exact .inr ⟨hbusy, hfault⟩
  · by_cases herror : Error (m.devices.status k)
    · exact .inl herror
    · obtain ⟨hbusy, -, hfault⟩ :=
        h.flush (statusAt m (k + 1)) (mem_cacheFlush_iff.mpr ⟨k, hk, by rw [decide_eq_true herror]⟩)
      exact .inr ⟨hbusy, hfault⟩
  · -- a byte at which `Poll` has to report an error is one at which it ends
    have hends : ∀ e, FirstFrom (fun st => ¬ Busy st ∧ (Error st ∨ Fault st)) m.devices.status a e →
        (∀ j, a ≤ j → j ≤ e → ¬ Request (m.devices.status j)) →
        (∀ l, a < l → l < e → ¬ Error (m.devices.status l)) → a < e ∧ Error (m.devices.status e) := by
      intro e he hrequest herror
      have hreport := h.report a e ha he hrequest fun v m' hm' => by
        obtain ⟨a', c, ha', hc, heq⟩ := mem_poll_iff.mp hm'
        obtain ⟨-, rfl⟩ := Prod.mk.inj heq
        obtain rfl := ha.unique ha'
        have hac := hc.le
        refine Nat.lt_succ_of_le (Nat.le_of_not_lt fun hce => ?_)
        exact hc.holds.elim (herror c (by omega) hce) (hrequest c (by omega) (by omega))
      obtain ⟨a', c, ha', hc, heq⟩ := mem_poll_iff.mp hreport
      obtain rfl := ha.unique ha'
      obtain rfl : e = c := Nat.succ.inj (congrArg (fun m' => m'.devices.statusRead) (Prod.mk.inj heq).2)
      have hac := hc.le
      exact ⟨by omega, hc.holds.resolve_right (hrequest e (by omega) (Nat.le_refl e))⟩
    by_cases hrequest : Request (m.devices.status a)
    · exact .inl hrequest
    have hclean : ¬ (Error (m.devices.status a) ∨ Fault (m.devices.status a)) := by
      intro hdirty
      have hnow := hends a (.here ⟨ha.holds, hdirty⟩) (fun j haj hja => by rwa [Nat.le_antisymm hja haj])
        fun l hal hla => absurd hal (by omega)
      exact Nat.lt_irrefl a hnow.1
    refine .inr ⟨fun he => hclean (.inl he), fun hf => hclean (.inr hf), fun j haj hnone hfault => ?_⟩
    by_contra hbusy
    obtain ⟨e, he⟩ := exists_firstFrom (p := fun st => ¬ Busy st ∧ (Error st ∨ Fault st)) (Nat.le_of_lt haj)
      ⟨hbusy, .inr hfault⟩
    have hej : e ≤ j := he.le_of_holds (Nat.le_of_lt haj) ⟨hbusy, .inr hfault⟩
    have hnow := hends e he
      (fun l hal hle hl => (Nat.eq_or_lt_of_le hal).elim (fun h => hrequest (h ▸ hl))
        fun hlt => hnone l hlt (by omega) (.inr hl))
      fun l hal hle hl => hnone l hal (by omega) (.inl hl)
    exact hnone e hnow.1 hej (.inl hnow.2)

/-- The wait loops accept only an idle, healthy drive, and report an error as soon as they read it, exactly on the status
bytes that do not mislead them. -/
theorem waitsSafely_iff (ata : ATA) (m : Machine ScriptedDrive) :
    WaitsSafely ata m ↔ Straight m.devices.status m.devices.statusRead :=
  ⟨WaitsSafely.straight, Straight.waitsSafely⟩

/-- A drive that is idle, asks for data, and has a fault. -/
def faultyDrive : Machine ScriptedDrive := ⟨fun _ => 0#8, ⟨fun _ => 0x28#8, 0, fun _ => 0#8, 0, fun _ => 0#16, 0⟩⟩

/-- `Poll` returns `true` for it. -/
theorem poll_accepts_fault : ¬ WaitsSafely (ATA.members .primary .master) faultyDrive := by
  intro h
  have hbusy : FirstFrom (fun st => ¬ Busy st) faultyDrive.devices.status (0 + 14) 14 := .here (show ¬ Busy 0x28#8 by decide)
  have hrequest : FirstFrom (fun st => Error st ∨ Request st) faultyDrive.devices.status (14 + 1) 15 :=
    .here (.inr (show Request 0x28#8 by decide))
  have herror : decide (¬ Error (faultyDrive.devices.status 15)) = true := decide_eq_true (show ¬ Error 0x28#8 by decide)
  have hmem := (@mem_poll_iff (ATA.members .primary .master) faultyDrive 0 _).mpr
    ⟨14, 15, hbusy, hrequest, rfl⟩
  rw [herror] at hmem
  exact (h.poll _ hmem).1.2.2 (show Fault 0x28#8 by decide)

end

end EagleOS.Drivers
