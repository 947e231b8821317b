import EagleOS.Arch.Exceptions
import EagleOS.Foundations.Run
import Mathlib.Data.Finset.Max
import Mathlib.Order.Fin.Basic

/-!
# The interrupt controllers

Sixteen interrupt requests come to the processor through two chips, the second one behind line 2 of the first. A chip that has a
request in service lets only requests of a higher priority through, until it is told that the handler has ended.

## The model

`PIC` is a chip: its registers, and how far it has come in the four bytes that set it up. It is hardware; the driver is
`PIC8259.remap`, `PIC8259.shutdown` and `PIC8259.sendEOI`. In a run of `Interrupts`, requests interrupt the handlers of others, and
a handler that ends calls `sendEOI`. The driver sends no commands but the first byte of the set-up and a non-specific end of
interrupt, so a chip has no others.

## What is proved

* `remap_spec` — the set-up, from any states of the chips.
* `in_service_is_active` — what is in service are the handlers that are active, in every run, and a request is let through if and only
  if it is not masked and has a higher priority than all of them.
-/

namespace EagleOS.Arch

open Foundations

/-! ### The chips -/

/-- What a chip takes the next byte for. -/
inductive PIC.Stage where
  /-- The mask. -/
  | ready
  /-- `ICW2`. -/
  | icw2
  /-- `ICW3`. -/
  | icw3
  /-- `ICW4`. -/
  | icw4
  deriving DecidableEq

/-- An 8259. -/
structure PIC where
  /-- How far the set-up is. -/
  stage : PIC.Stage
  /-- `ICW1`. -/
  icw1 : BitVec 8
  /-- The vector of line 0, from `ICW2`. -/
  offset : BitVec 8
  /-- `ICW3`: the lines with a chip behind them, or the line of the other chip that this one is behind. -/
  cascade : BitVec 8
  /-- `ICW4`. -/
  mode : BitVec 8
  /-- The mask. -/
  mask : BitVec 8
  /-- The lines whose requests are in service; the lowest has the highest priority. -/
  inService : Finset (Fin 8)

namespace PIC

/-- The end of an interrupt: the one with the highest priority is no longer in service. -/
def endOfInterrupt (p : PIC) : PIC :=
  if h : p.inService.Nonempty then { p with inService := p.inService.erase (p.inService.min' h) } else p

/-- A byte to the command port. -/
def command (p : PIC) (data : BitVec 8) : PIC :=
  if data.getLsbD 4 then
    { p with stage := .icw2, icw1 := data, mask := 0#8, mode := if data.getLsbD 0 then p.mode else 0#8 }
  else if data = 0x20#8 then p.endOfInterrupt
  else p

/-- The stage after `ICW3`, or in its place. -/
def afterCascade (p : PIC) : Stage := if p.icw1.getLsbD 0 then .icw4 else .ready

/-- A byte to the data port. -/
def data (p : PIC) (data : BitVec 8) : PIC :=
  match p.stage with
  | .ready => { p with mask := data }
  | .icw2 => { p with offset := data &&& 0xF8#8, stage := if p.icw1.getLsbD 1 then p.afterCascade else .icw3 }
  | .icw3 => { p with cascade := data, stage := p.afterCascade }
  | .icw4 => { p with mode := data, stage := .ready }

/-- A request on line `i` is let through. -/
def Passes (p : PIC) (i : Fin 8) : Prop := p.stage = .ready ∧ p.mask.getLsbD i = false ∧ ∀ j ∈ p.inService, i < j

/-- It is in service. -/
def serve (p : PIC) (i : Fin 8) : PIC := { p with inService := insert i p.inService }

/-- The vector of line `i`. -/
def vector (p : PIC) (i : Fin 8) : ℕ := (p.offset ||| BitVec.ofNat 8 i).toNat

end PIC

/-- The two chips. -/
structure PICs where
  /-- At `0x20` and `0x21`. -/
  master : PIC
  /-- At `0xA0` and `0xA1`. -/
  slave : PIC

namespace PICs

/-- `INSB`, from a data port. -/
def insb (s : PICs) (port : BitVec 16) : BitVec 8 :=
  if port = 0x21#16 then s.master.mask else if port = 0xA1#16 then s.slave.mask else 0xFF#8

/-- `OUTB`. -/
def outb (s : PICs) (port : BitVec 16) (data : BitVec 8) : PICs :=
  if port = 0x20#16 then { s with master := s.master.command data }
  else if port = 0x21#16 then { s with master := s.master.data data }
  else if port = 0xA0#16 then { s with slave := s.slave.command data }
  else if port = 0xA1#16 then { s with slave := s.slave.data data }
  else s

end PICs

/-! ### The driver -/

namespace PIC8259

/-- `PIC8259::Remap`. -/
def remap (s : PICs) : PICs :=
  let a1 := s.insb 0x21#16
  let a2 := s.insb 0xA1#16
  let s := s.outb 0x20#16 (0x10#8 ||| 0x01#8)
  let s := s.outb 0x21#16 0x20#8
  let s := s.outb 0x21#16 4#8
  let s := s.outb 0x21#16 0x01#8
  let s := s.outb 0xA0#16 (0x10#8 ||| 0x01#8)
  let s := s.outb 0xA1#16 0x28#8
  let s := s.outb 0xA1#16 2#8
  let s := s.outb 0xA1#16 0x01#8
  let s := s.outb 0x21#16 a1
  s.outb 0xA1#16 a2

/-- `PIC8259::Init`. -/
def init (s : PICs) : PICs := remap s

/-- `PIC8259::Shutdown`. -/
def shutdown (s : PICs) : PICs := (s.outb 0x21#16 0xFF#8).outb 0xA1#16 0xFF#8

/-- `PIC8259::SendEOI`. -/
def sendEOI (irq : BitVec 32) (s : PICs) : PICs :=
  let s := if 8#32 ≤ irq then s.outb 0xA0#16 0x20#8 else s
  s.outb 0x20#16 0x20#8

end PIC8259

/-- The line of the first chip that a request comes through. -/
def line (irq : Fin 16) : Fin 8 := if h : irq.val < 8 then ⟨irq, h⟩ else 2

/-- The line of the second chip. -/
def slaveLine (irq : Fin 16) : Fin 8 := ⟨irq.val % 8, Nat.mod_lt _ (by omega)⟩

namespace PICs

/-- The chips let a request through. Line 2 of the first chip is the second one's. -/
def Passes (s : PICs) (irq : Fin 16) : Prop :=
  irq ≠ 2 ∧ s.master.Passes (line irq) ∧ (8 ≤ irq.val → s.slave.Passes (slaveLine irq))

/-- It is in service. -/
def serve (s : PICs) (irq : Fin 16) : PICs where
  master := s.master.serve (line irq)
  slave := if 8 ≤ irq.val then s.slave.serve (slaveLine irq) else s.slave

/-- The vector that the processor gets. -/
def vector (s : PICs) (irq : Fin 16) : ℕ := if 8 ≤ irq.val then s.slave.vector (slaveLine irq) else s.master.vector (line irq)

/-- What `Remap` is to make of the chips. -/
structure Remapped (s : PICs) : Prop where
  /-- The set-up is done. -/
  stages : s.master.stage = .ready ∧ s.slave.stage = .ready
  /-- The vectors start at 32 and at 40. -/
  offsets : s.master.offset = 0x20#8 ∧ s.slave.offset = 0x28#8
  /-- The second chip is behind line 2. -/
  cascades : s.master.cascade = 4#8 ∧ s.slave.cascade = 2#8
  modes : s.master.mode = 1#8 ∧ s.slave.mode = 1#8

end PICs

/-- The set-up, from any states of the chips: also in the middle of another set-up. Both masks are what they were. -/
theorem remap_spec (s : PICs) : (PIC8259.remap s).Remapped ∧
    (PIC8259.remap s).master.mask = s.master.mask ∧ (PIC8259.remap s).slave.mask = s.slave.mask ∧
    (PIC8259.remap s).master.inService = s.master.inService ∧ (PIC8259.remap s).slave.inService = s.slave.inService := by
  have hdone : PIC8259.remap s = ⟨⟨.ready, 0x11#8, 0x20#8, 4#8, 1#8, s.master.mask, s.master.inService⟩,
      ⟨.ready, 0x11#8, 0x28#8, 2#8, 1#8, s.slave.mask, s.slave.inService⟩⟩ := by
    simp [PIC8259.remap, PICs.insb, PICs.outb, PIC.command, PIC.data, PIC.afterCascade]
  rw [hdone]
  exact ⟨⟨⟨rfl, rfl⟩, ⟨rfl, rfl⟩, ⟨rfl, rfl⟩, ⟨rfl, rfl⟩⟩, rfl, rfl, rfl, rfl⟩

/-- The vectors that come from the chips are 32 to 47: none is an exception's. -/
theorem vector_of_remapped {s : PICs} (h : s.Remapped) (irq : Fin 16) : s.vector irq = 32 + irq.val := by
  have hall : ∀ irq : Fin 16, (if 8 ≤ irq.val then (0x28#8 ||| BitVec.ofNat 8 (slaveLine irq)).toNat
      else (0x20#8 ||| BitVec.ofNat 8 (line irq)).toNat) = 32 + irq.val := by decide
  rw [← hall irq, PICs.vector, PIC.vector, PIC.vector, h.offsets.1, h.offsets.2]

/-- It does not depend on the masks and on what is in service. -/
theorem PICs.Remapped.congr {s t : PICs} (h : s.Remapped)
    (hmaster : t.master = { s.master with mask := t.master.mask, inService := t.master.inService })
    (hslave : t.slave = { s.slave with mask := t.slave.mask, inService := t.slave.inService }) : t.Remapped where
  stages := ⟨(congrArg PIC.stage hmaster).trans h.stages.1, (congrArg PIC.stage hslave).trans h.stages.2⟩
  offsets := ⟨(congrArg PIC.offset hmaster).trans h.offsets.1, (congrArg PIC.offset hslave).trans h.offsets.2⟩
  cascades := ⟨(congrArg PIC.cascade hmaster).trans h.cascades.1, (congrArg PIC.cascade hslave).trans h.cascades.2⟩
  modes := ⟨(congrArg PIC.mode hmaster).trans h.modes.1, (congrArg PIC.mode hslave).trans h.modes.2⟩

/-! ### Nested interrupts -/

/-- The chips, and the handlers that are active, the last one first. -/
structure Interrupts where
  /-- The chips. -/
  chips : PICs
  /-- The requests whose handlers have started and not ended. -/
  active : List (Fin 16)

/-- What happens. -/
inductive InterruptEvent where
  /-- A request is let through, and its handler starts. -/
  | request (irq : Fin 16)
  /-- The handler that has started last ends. -/
  | finish
  /-- Somebody sets both masks. -/
  | setMasks (master slave : BitVec 8)

/-- It happens. A handler ends with `SendEOI`. -/
def Interrupts.Step (s : Interrupts) : InterruptEvent → Interrupts → Prop
  | .request irq, t => s.chips.Passes irq ∧ t = ⟨s.chips.serve irq, irq :: s.active⟩
  | .finish, t => ∃ irq rest, s.active = irq :: rest ∧ t = ⟨PIC8259.sendEOI (BitVec.ofNat 32 irq) s.chips, rest⟩
  | .setMasks master slave, t => t = { s with chips := (s.chips.outb 0x21#16 master).outb 0xA1#16 slave }

/-- The lines of the first chip that handlers are active for. -/
def lines (active : List (Fin 16)) : Finset (Fin 8) := (active.map line).toFinset

/-- Those of the second. -/
def slaveLines (active : List (Fin 16)) : Finset (Fin 8) := ((active.filter fun irq => 8 ≤ irq.val).map slaveLine).toFinset

/-- What is in service are the active handlers, and each has interrupted handlers of lower priorities only. -/
structure Interrupts.Inv (s : Interrupts) : Prop where
  remapped : s.chips.Remapped
  master : s.chips.master.inService = lines s.active
  slave : s.chips.slave.inService = slaveLines s.active
  nested : s.active.Pairwise fun irq other => line irq < line other

section

variable {p : PIC} {i : Fin 8} {l : Finset (Fin 8)} {s t : Interrupts} {irq : Fin 16} {active : List (Fin 16)}

/-- The end of the interrupt that has the highest priority. -/
theorem PIC.endOfInterrupt_insert (hp : p.inService = insert i l) (hlt : ∀ j ∈ l, i < j) :
    p.endOfInterrupt = { p with inService := l } := by
  have hnonempty : p.inService.Nonempty := ⟨i, hp ▸ Finset.mem_insert_self i l⟩
  have hmin : p.inService.min' hnonempty = i := by
    refine le_antisymm (Finset.min'_le _ _ (hp ▸ Finset.mem_insert_self i l)) (Finset.le_min' _ _ _ fun j hj => ?_)
    rw [hp, Finset.mem_insert] at hj
    exact hj.elim (fun h => h.ge) fun h => (hlt j h).le
  have hnot : i ∉ l := fun h => lt_irrefl i (hlt i h)
  rw [PIC.endOfInterrupt, dif_pos hnonempty, hmin, hp, Finset.erase_insert hnot]

/-- All requests of the second chip come through line 2. -/
theorem line_of_le (h : 8 ≤ irq.val) : line irq = 2 := dif_neg (Nat.not_lt.mpr h)

@[simp] theorem lines_cons (irq : Fin 16) (active : List (Fin 16)) : lines (irq :: active) = insert (line irq) (lines active) := by
  simp [lines]

theorem slaveLines_cons_of_le (h : 8 ≤ irq.val) : slaveLines (irq :: active) = insert (slaveLine irq) (slaveLines active) := by
  simp [slaveLines, h]

theorem slaveLines_cons_of_lt (h : irq.val < 8) : slaveLines (irq :: active) = slaveLines active := by
  simp [slaveLines, Nat.not_le.mpr h]

/-- So a handler for the second chip has not interrupted another one. -/
theorem slaveLines_eq_empty (h : 8 ≤ irq.val) (hlt : ∀ other ∈ active, line irq < line other) : slaveLines active = ∅ := by
  have hnone : active.filter (fun irq => 8 ≤ irq.val) = [] := by
    refine List.filter_eq_nil_iff.mpr fun other hother hle => ?_
    have hlines := hlt other hother
    rw [line_of_le h, line_of_le (of_decide_eq_true hle)] at hlines
    exact lt_irrefl _ hlines
  rw [slaveLines, hnone]
  rfl

theorem lt_lines (hlt : ∀ other ∈ active, i < line other) : ∀ j ∈ lines active, i < j := by
  intro j hj
  obtain ⟨other, hother, rfl⟩ := List.mem_map.mp (List.mem_toFinset.mp hj)
  exact hlt other hother

/-- `SendEOI` on chips that are set up. -/
theorem sendEOI_eq (irq : Fin 16) (chips : PICs) : PIC8259.sendEOI (BitVec.ofNat 32 irq) chips =
    ⟨chips.master.endOfInterrupt, if 8 ≤ irq.val then chips.slave.endOfInterrupt else chips.slave⟩ := by
  have hle : ∀ irq : Fin 16, 8#32 ≤ BitVec.ofNat 32 irq ↔ 8 ≤ irq.val := by decide
  by_cases h : 8 ≤ irq.val
  · rw [PIC8259.sendEOI, if_pos ((hle irq).mpr h), if_pos h]
    rfl
  · rw [PIC8259.sendEOI, if_neg (mt (hle irq).mp h), if_neg h]
    rfl

/-- A request is let through by both chips if it has a higher priority than every active handler. -/
theorem Interrupts.Inv.passes_iff (h : s.Inv) (irq : Fin 16) : s.chips.Passes irq ↔ irq ≠ 2 ∧
    s.chips.master.mask.getLsbD (line irq) = false ∧
    (8 ≤ irq.val → s.chips.slave.mask.getLsbD (slaveLine irq) = false) ∧ ∀ other ∈ s.active, line irq < line other := by
  have hlines : (∀ j ∈ s.chips.master.inService, line irq < j) ↔ ∀ other ∈ s.active, line irq < line other := by
    rw [h.master]
    exact ⟨fun hj other hother => hj _ (List.mem_toFinset.mpr (List.mem_map_of_mem hother)), lt_lines⟩
  rw [PICs.Passes, PIC.Passes, hlines]
  constructor
  · rintro ⟨hirq, ⟨-, hmask, hlt⟩, hslave⟩
    exact ⟨hirq, hmask, fun hle => (hslave hle).2.1, hlt⟩
  · rintro ⟨hirq, hmask, hslave, hlt⟩
    refine ⟨hirq, ⟨h.remapped.stages.1, hmask, hlt⟩, fun hle => ⟨h.remapped.stages.2, hslave hle, ?_⟩⟩
    rw [h.slave, slaveLines_eq_empty hle hlt]
    simp

/-- One step. -/
theorem Interrupts.Inv.step (h : s.Inv) {e : InterruptEvent} (hstep : s.Step e t) : t.Inv := by
  cases e with
  | request irq =>
    obtain ⟨hpasses, rfl⟩ := hstep
    obtain ⟨-, -, -, hlt⟩ := (h.passes_iff irq).mp hpasses
    refine ⟨?_, ?_, ?_, List.pairwise_cons.mpr ⟨hlt, h.nested⟩⟩
    · refine h.remapped.congr rfl ?_
      by_cases hle : 8 ≤ irq.val
      · simp [PICs.serve, hle, PIC.serve]
      · simp [PICs.serve, hle]
    · simp [PICs.serve, PIC.serve, h.master]
    · by_cases hle : 8 ≤ irq.val
      · simp [PICs.serve, PIC.serve, hle, h.slave, slaveLines_cons_of_le hle]
      · simp [PICs.serve, hle, h.slave, slaveLines_cons_of_lt (Nat.lt_of_not_le hle)]
  | finish =>
    obtain ⟨irq, rest, hactive, rfl⟩ := hstep
    have hnested := h.nested
    rw [hactive] at hnested
    obtain ⟨hlt, hrest⟩ := List.pairwise_cons.mp hnested
    have hmaster := h.master
    have hslave := h.slave
    rw [hactive, lines_cons] at hmaster
    rw [hactive] at hslave
    have hend := PIC.endOfInterrupt_insert hmaster (lt_lines hlt)
    rw [sendEOI_eq, hend]
    by_cases hle : 8 ≤ irq.val
    · -- the second chip has nothing else in service
      have hempty := slaveLines_eq_empty hle hlt
      rw [slaveLines_cons_of_le hle, hempty] at hslave
      have hend' := PIC.endOfInterrupt_insert hslave (by simp)
      rw [if_pos hle, hend']
      exact ⟨h.remapped.congr rfl rfl, rfl, hempty.symm, hrest⟩
    · rw [slaveLines_cons_of_lt (Nat.lt_of_not_le hle)] at hslave
      rw [if_neg hle]
      exact ⟨h.remapped.congr rfl rfl, rfl, hslave, hrest⟩
  | setMasks master slave =>
    rw [Interrupts.Step] at hstep
    subst hstep
    have hset : (s.chips.outb 0x21#16 master).outb 0xA1#16 slave =
        ⟨{ s.chips.master with mask := master }, { s.chips.slave with mask := slave }⟩ := by
      simp [PICs.outb, PIC.data, h.remapped.stages]
    rw [hset]
    exact ⟨h.remapped.congr rfl rfl, h.master, h.slave, h.nested⟩

/-- Any number of them. -/
theorem Interrupts.Inv.runs (h : s.Inv) (hrun : Runs Interrupts.Step s t) : t.Inv :=
  RunsWhere.invariant (fun _ _ _ hs _ hstep => hs.step hstep) hrun h

end

/-- **What is in service is what is active**: after `Init`, from any states of the chips with nothing in service, and whatever happens
then, in any order: the requests in service are those of the active handlers, each handler has only interrupted handlers of lower
priorities, and a request is let through if and only if it is not masked and has a higher priority than all of them. Then its
vector is none of the exceptions'. -/
theorem in_service_is_active (chips : PICs) (hnone : chips.master.inService = ∅ ∧ chips.slave.inService = ∅) (t : Interrupts)
    (hrun : Runs Interrupts.Step ⟨PIC8259.init chips, []⟩ t) :
    t.chips.master.inService = lines t.active ∧ t.chips.slave.inService = slaveLines t.active ∧
      (t.active.Pairwise fun irq other => line irq < line other) ∧
      ∀ irq, t.chips.vector irq = 32 + irq.val ∧ ((∃ u, t.Step (.request irq) u) ↔ irq ≠ 2 ∧
        t.chips.master.mask.getLsbD (line irq) = false ∧
        (8 ≤ irq.val → t.chips.slave.mask.getLsbD (slaveLine irq) = false) ∧ ∀ other ∈ t.active, line irq < line other) := by
  obtain ⟨hremapped, -, -, hmaster, hslave⟩ := remap_spec chips
  have hstart : Interrupts.Inv ⟨PIC8259.init chips, []⟩ := ⟨hremapped, hmaster.trans hnone.1, hslave.trans hnone.2, .nil⟩
  have ht := hstart.runs hrun
  refine ⟨ht.master, ht.slave, ht.nested, fun irq => ⟨vector_of_remapped ht.remapped irq, ?_⟩⟩
  rw [← ht.passes_iff irq]
  exact ⟨fun ⟨_, hpasses, _⟩ => hpasses, fun hpasses => ⟨_, hpasses, rfl⟩⟩

/-- A chip as it may be when it is switched on: in the middle of a set-up. -/
def freshPIC : PIC := ⟨.icw3, 0x13#8, 0x08#8, 0#8, 0#8, 0xB8#8, ∅⟩

/-- A request of the second chip, and one of the first that interrupts its handler. -/
theorem in_service_is_active_nested : ∃ t, Runs Interrupts.Step ⟨PIC8259.init ⟨freshPIC, { freshPIC with mask := 0#8 }⟩, []⟩ t ∧
    t.active = [1, 14] ∧ t.chips.master.inService = {1, 2} ∧ t.chips.slave.inService = {6} := by
  have hstart := in_service_is_active ⟨freshPIC, { freshPIC with mask := 0#8 }⟩ ⟨rfl, rfl⟩ _ .refl
  obtain ⟨s, hs⟩ := (hstart.2.2.2 14).2.mpr ⟨by simp, rfl, fun _ => rfl, by simp⟩
  have hrun : Runs Interrupts.Step _ s := RunsWhere.single trivial hs
  have hnext := in_service_is_active ⟨freshPIC, { freshPIC with mask := 0#8 }⟩ ⟨rfl, rfl⟩ s hrun
  obtain ⟨-, rfl⟩ := id hs
  obtain ⟨t, ht⟩ := (hnext.2.2.2 1).2.mpr ⟨by simp, rfl, fun h => absurd h (by simp), by simp [line]⟩
  have hrun' := hrun.tail trivial ht
  obtain ⟨hmaster, hslave, -⟩ := in_service_is_active ⟨freshPIC, { freshPIC with mask := 0#8 }⟩ ⟨rfl, rfl⟩ t hrun'
  obtain ⟨-, rfl⟩ := ht
  exact ⟨_, hrun', rfl, hmaster.trans rfl, hslave.trans rfl⟩

/-- After `Shutdown` no request is let through, until somebody sets a mask. -/
theorem shutdown_silences {s t : Interrupts} (h : s.Inv) (irq : Fin 16) :
    ¬ Interrupts.Step { s with chips := PIC8259.shutdown s.chips } (.request irq) t := by
  have hready := h.remapped.stages.1
  have hmask : (PIC8259.shutdown s.chips).master.mask = 0xFF#8 := by
    simp [PIC8259.shutdown, PICs.outb, PIC.data, hready]
  rintro ⟨⟨-, ⟨-, hpasses, -⟩, -⟩, -⟩
  have hbit : ∀ i : Fin 8, (0xFF#8).getLsbD i = true := by decide
  change (PIC8259.shutdown s.chips).master.mask.getLsbD (line irq) = false at hpasses
  rw [hmask, hbit] at hpasses
  cases hpasses

end EagleOS.Arch
