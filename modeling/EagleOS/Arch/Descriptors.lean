import EagleOS.Foundations.Memory

/-!
# Descriptor tables

The segment descriptors of the GDT and the gates of the IDT are eight bytes each. The processor takes their fields
from where the 80286 had put them and from what was left over for the 80386: the base address of a segment lies in
three pieces, its limit in two, and one byte holds the end of the limit and the flags; the offset of a gate lies in
two pieces, and one byte holds its type, its privilege level and whether it is present.

## The model

`GDT.setGate` and `IDT.setGate` store the fields of `GDTDesc` and `IDTDesc`, which are packed, into memory in the order
of the source; a table may lie anywhere in memory. `SegmentDescriptor` and `GateDescriptor` are what the processor makes
of eight bytes.

## What is proved

* `descriptorAt_setGate`, `gateAt_setGate` — what was given to `SetGate` is what the processor reads.
* `GDT.sameOutside_setGate`, `IDT.sameOutside_setGate` — no other byte of memory changes.
* `descriptors_decoded` — both for the entries of a table.
-/

namespace EagleOS.Arch

open Foundations

/-- `SegmentSelector`. -/
inductive SegmentSelector where
  /-- `KernelCode`. -/
  | kernelCode
  /-- `KernelData`. -/
  | kernelData
  /-- `UserCode`. -/
  | userCode
  /-- `UserData`. -/
  | userData
  deriving DecidableEq

/-- The value of the enumerator, a `uint16_t`. -/
def SegmentSelector.value : SegmentSelector → BitVec 16
  | .kernelCode => 0x08#16
  | .kernelData => 0x10#16
  | .userCode => 0x18#16
  | .userData => 0x20#16

/-- `InterruptGateType`. -/
inductive InterruptGateType where
  /-- `TaskGate`. -/
  | taskGate
  /-- `InterruptGate16`. -/
  | interruptGate16
  /-- `TrapGate16`. -/
  | trapGate16
  /-- `InterruptGate32`. -/
  | interruptGate32
  /-- `TrapGate32`. -/
  | trapGate32
  deriving DecidableEq

/-- The value of the enumerator, a `uint8_t`. -/
def InterruptGateType.value : InterruptGateType → BitVec 8
  | .taskGate => 0x05#8
  | .interruptGate16 => 0x06#8
  | .trapGate16 => 0x07#8
  | .interruptGate32 => 0x0E#8
  | .trapGate32 => 0x0F#8

/-- `CPUPrivilegeLevel`. -/
inductive CPUPrivilegeLevel where
  /-- `Ring0`. -/
  | ring0
  /-- `Ring1`. -/
  | ring1
  /-- `Ring2`. -/
  | ring2
  /-- `Ring3`. -/
  | ring3
  deriving DecidableEq

/-- The value of the enumerator, a `uint8_t`. -/
def CPUPrivilegeLevel.value : CPUPrivilegeLevel → BitVec 8
  | .ring0 => 0x00#8
  | .ring1 => 0x01#8
  | .ring2 => 0x02#8
  | .ring3 => 0x03#8

/-- `x86_GDT_TOTAL_SEGMENTS`. -/
def gdtTotalSegments : ℕ := 5

/-- `x86_IDT_TOTAL_INTERRUPTS`. -/
def idtTotalInterrupts : ℕ := 256

/-- Where entry `i` of a table of eight-byte descriptors starts. -/
def descriptorAddress (table i : BitVec 32) : BitVec 32 := table + 8#32 * i

/-- `GDT::SetGate`. The fields of `GDTDesc` are `LimitLow` at 0, `BaseLow` at 2, `BaseMid` at 4, `Access` at 5,
`Granularity` at 6 and `BaseHigh` at 7. -/
def GDT.setGate (mem : Memory) (s_GDT seg base limit : BitVec 32) (access gran : BitVec 8) : Memory :=
  let desc := descriptorAddress s_GDT seg
  let mem := mem.store16 (desc + 2#32) ((base &&& 0xffff#32).setWidth 16)
  let mem := mem.store8 (desc + 4#32) ((base >>> 16 &&& 0xff#32).setWidth 8)
  let mem := mem.store8 (desc + 7#32) ((base >>> 24 &&& 0xff#32).setWidth 8)
  let mem := mem.store16 (desc + 0#32) ((limit &&& 0x0000ffff#32).setWidth 16)
  let mem := mem.store8 (desc + 6#32) ((limit >>> 16 &&& 0x0F#32).setWidth 8)
  let mem := mem.store8 (desc + 6#32) (mem (desc + 6#32) ||| gran &&& 0xF0#8)
  mem.store8 (desc + 5#32) access

/-- `IDT::SetGate`. The fields of `IDTDesc` are `OffsetLow` at 0, `Selector` at 2, `_Reserved` at 4, `Flags` at 5 and
`OffsetHigh` at 6. -/
def IDT.setGate (mem : Memory) (s_IDT interrupt base : BitVec 32) (selector : SegmentSelector)
    (gate : InterruptGateType) (dpl : CPUPrivilegeLevel) : Memory :=
  let desc := descriptorAddress s_IDT interrupt
  let mem := mem.store16 (desc + 0#32) ((base &&& 0xFFFF#32).setWidth 16)
  let mem := mem.store16 (desc + 2#32) selector.value
  let mem := mem.store8 (desc + 4#32) 0#8
  let mem := mem.store8 (desc + 5#32)
    ((1#32 <<< 7 ||| dpl.value.setWidth 32 <<< 5 ||| gate.value.setWidth 32).setWidth 8)
  mem.store16 (desc + 6#32) ((base >>> 16 &&& 0xFFFF#32).setWidth 16)

/-! ### What the processor reads -/

/-- What a segment descriptor says. -/
structure SegmentDescriptor where
  /-- Where the segment starts: bits 16 to 39 and 56 to 63. -/
  base : BitVec 32
  /-- Its last byte or page: bits 0 to 15 and 48 to 51. -/
  limit : BitVec 20
  /-- Present, privilege level and type: bits 40 to 47. -/
  access : BitVec 8
  /-- Granularity, operand size and the bits left to the system: bits 52 to 55. -/
  flags : BitVec 4
  deriving DecidableEq

/-- The segment descriptor that lies at `a`. -/
def descriptorAt (mem : Memory) (a : BitVec 32) : SegmentDescriptor where
  base := mem (a + 7#32) ++ mem (a + 4#32) ++ mem (a + 3#32) ++ mem (a + 2#32)
  limit := (mem (a + 6#32)).extractLsb' 0 4 ++ mem (a + 1#32) ++ mem (a + 0#32)
  access := mem (a + 5#32)
  flags := (mem (a + 6#32)).extractLsb' 4 4

/-- What a gate says. -/
structure GateDescriptor where
  /-- Where the handler is: bits 0 to 15 and 48 to 63. -/
  offset : BitVec 32
  /-- The segment of the handler: bits 16 to 31. -/
  selector : BitVec 16
  /-- The type of the gate: bits 40 to 43. -/
  type : BitVec 4
  /-- The least privileged level that may call it: bits 45 and 46. -/
  dpl : BitVec 2
  /-- Whether it is in use: bit 47. -/
  present : Bool
  deriving DecidableEq

/-- The gate that lies at `a`. -/
def gateAt (mem : Memory) (a : BitVec 32) : GateDescriptor where
  offset := mem (a + 7#32) ++ mem (a + 6#32) ++ mem (a + 1#32) ++ mem (a + 0#32)
  selector := mem (a + 3#32) ++ mem (a + 2#32)
  type := (mem (a + 5#32)).extractLsb' 0 4
  dpl := (mem (a + 5#32)).extractLsb' 5 2
  present := (mem (a + 5#32)).getLsbD 7

/-! ### Cutting and joining -/

/-- The masks of the source leave all of a byte and all of a half. -/
theorem and_byte (b : BitVec 8) : b &&& 0xff#8 = b := BitVec.and_allOnes

theorem and_half (v : BitVec 16) : v &&& 0xffff#16 = v := BitVec.and_allOnes

/-- A word from the bytes of its upper and of its lower half. -/
theorem append_bytes (v : BitVec 32) :
    (v >>> 24).setWidth 8 ++ (v >>> 16).setWidth 8 ++ (v.setWidth 16).extractLsb' 8 8 ++
      (v.setWidth 16).extractLsb' 0 8 = v := by
  refine BitVec.eq_of_getLsbD_eq fun i hi => ?_
  simp only [BitVec.getLsbD_append, BitVec.getLsbD_setWidth, BitVec.getLsbD_extractLsb', BitVec.getLsbD_ushiftRight]
  grind

/-- The two bytes of a half. -/
theorem append_bytes_half (v : BitVec 16) : v.extractLsb' 8 8 ++ v.extractLsb' 0 8 = v := by
  refine BitVec.eq_of_getLsbD_eq fun i hi => ?_
  simp only [BitVec.getLsbD_append, BitVec.getLsbD_extractLsb']
  grind

/-- A word from its upper half and the bytes of its lower one. -/
theorem append_half_bytes (v : BitVec 32) :
    (v >>> 16).setWidth 16 ++ (v.setWidth 16).extractLsb' 8 8 ++ (v.setWidth 16).extractLsb' 0 8 = v := by
  refine BitVec.eq_of_getLsbD_eq fun i hi => ?_
  simp only [BitVec.getLsbD_append, BitVec.getLsbD_setWidth, BitVec.getLsbD_extractLsb', BitVec.getLsbD_ushiftRight]
  grind

/-- The byte that the end of the limit shares with the flags. -/
theorem granularity_byte (limit : BitVec 32) (gran : BitVec 8) :
    (limit >>> 16).setWidth 8 &&& 0x0F#8 ||| gran &&& 0xF0#8 =
      gran.extractLsb' 4 4 ++ (limit >>> 16).setWidth 4 := by
  have hlow : ∀ i < 8, (0x0F#8).getLsbD i = decide (i < 4) := by decide
  have hhigh : ∀ i < 8, (0xF0#8).getLsbD i = decide (4 ≤ i) := by decide
  refine BitVec.eq_of_getLsbD_eq fun i hi => ?_
  simp only [BitVec.getLsbD_append, BitVec.getLsbD_setWidth, BitVec.getLsbD_extractLsb', BitVec.getLsbD_ushiftRight,
    BitVec.getLsbD_or, BitVec.getLsbD_and, hlow i hi, hhigh i hi]
  grind

/-- The twenty bits of a limit. -/
theorem append_limit (limit : BitVec 32) :
    (limit >>> 16).setWidth 4 ++ (limit.setWidth 16).extractLsb' 8 8 ++ (limit.setWidth 16).extractLsb' 0 8 =
      limit.setWidth 20 := by
  refine BitVec.eq_of_getLsbD_eq fun i hi => ?_
  simp only [BitVec.getLsbD_append, BitVec.getLsbD_setWidth, BitVec.getLsbD_extractLsb', BitVec.getLsbD_ushiftRight]
  grind

/-- The two nibbles of a byte. -/
theorem extractLsb'_append_nibbles (x y : BitVec 4) :
    (x ++ y).extractLsb' 0 4 = y ∧ (x ++ y).extractLsb' 4 4 = x := by
  constructor
  · refine BitVec.eq_of_getLsbD_eq fun i hi => ?_
    simp only [BitVec.getLsbD_append, BitVec.getLsbD_extractLsb']
    grind
  · refine BitVec.eq_of_getLsbD_eq fun i hi => ?_
    simp only [BitVec.getLsbD_append, BitVec.getLsbD_extractLsb']
    grind

/-! ### The eight bytes -/

/-- What was given to `GDT::SetGate` is what the processor reads, but for the limit's upper twelve bits. -/
theorem descriptorAt_setGate (mem : Memory) (s_GDT seg base limit : BitVec 32) (access gran : BitVec 8) :
    descriptorAt (GDT.setGate mem s_GDT seg base limit access gran) (descriptorAddress s_GDT seg) =
      ⟨base, limit.setWidth 20, access, gran.extractLsb' 4 4⟩ := by
  generalize hdesc : descriptorAddress s_GDT seg = desc
  simp [GDT.setGate, hdesc, descriptorAt, Memory.store16, Memory.store8, BitVec.add_assoc, and_byte, and_half,
    append_bytes, granularity_byte, append_limit, extractLsb'_append_nibbles, -BitVec.setWidth_ushiftRight]

/-- The type, the privilege level and the present bit share a byte. -/
theorem flags_byte (gate : InterruptGateType) (dpl : CPUPrivilegeLevel) :
    let flags : BitVec 8 := (1#32 <<< 7 ||| dpl.value.setWidth 32 <<< 5 ||| gate.value.setWidth 32).setWidth 8
    flags.extractLsb' 0 4 = gate.value.setWidth 4 ∧ flags.extractLsb' 5 2 = dpl.value.setWidth 2 ∧
      flags.getLsbD 7 = true := by
  cases gate <;> cases dpl <;> decide

/-- What was given to `IDT::SetGate` is what the processor reads. -/
theorem gateAt_setGate (mem : Memory) (s_IDT interrupt base : BitVec 32) (selector : SegmentSelector)
    (gate : InterruptGateType) (dpl : CPUPrivilegeLevel) :
    gateAt (IDT.setGate mem s_IDT interrupt base selector gate dpl) (descriptorAddress s_IDT interrupt) =
      ⟨base, selector.value, gate.value.setWidth 4, dpl.value.setWidth 2, true⟩ := by
  obtain ⟨htype, hdpl, hpresent⟩ := flags_byte gate dpl
  generalize hdesc : descriptorAddress s_IDT interrupt = desc
  simp only [IDT.setGate, hdesc]
  generalize (1#32 <<< 7 ||| dpl.value.setWidth 32 <<< 5 ||| gate.value.setWidth 32).setWidth 8 = flags at *
  simp [gateAt, Memory.store16, Memory.store8, BitVec.add_assoc, and_half, append_bytes_half, append_half_bytes, htype,
    hdpl, hpresent, -BitVec.setWidth_ushiftRight]

/-! ### The other bytes -/

/-- `GDT::SetGate` stores into the eight bytes of the descriptor only. -/
theorem GDT.sameOutside_setGate (mem : Memory) (s_GDT seg base limit : BitVec 32) (access gran : BitVec 8) :
    Memory.SameOutside (descriptorAddress s_GDT seg) 8 mem (GDT.setGate mem s_GDT seg base limit access gran) := by
  have h8 : 8 ≤ 2 ^ 32 := by omega
  refine Memory.SameOutside.store8 (i := 5) ?_ h8 (by omega) _
  refine Memory.SameOutside.store8 (i := 6) ?_ h8 (by omega) _
  refine Memory.SameOutside.store8 (i := 6) ?_ h8 (by omega) _
  refine Memory.SameOutside.store16 (i := 0) ?_ h8 (by omega) _
  refine Memory.SameOutside.store8 (i := 7) ?_ h8 (by omega) _
  refine Memory.SameOutside.store8 (i := 4) ?_ h8 (by omega) _
  exact (Memory.SameOutside.refl _ _ mem).store16 (i := 2) h8 (by omega) _

/-- So does `IDT::SetGate`. -/
theorem IDT.sameOutside_setGate (mem : Memory) (s_IDT interrupt base : BitVec 32) (selector : SegmentSelector)
    (gate : InterruptGateType) (dpl : CPUPrivilegeLevel) :
    Memory.SameOutside (descriptorAddress s_IDT interrupt) 8 mem
      (IDT.setGate mem s_IDT interrupt base selector gate dpl) := by
  have h8 : 8 ≤ 2 ^ 32 := by omega
  refine Memory.SameOutside.store16 (i := 6) ?_ h8 (by omega) _
  refine Memory.SameOutside.store8 (i := 5) ?_ h8 (by omega) _
  refine Memory.SameOutside.store8 (i := 4) ?_ h8 (by omega) _
  refine Memory.SameOutside.store16 (i := 2) ?_ h8 (by omega) _
  exact (Memory.SameOutside.refl _ _ mem).store16 (i := 0) h8 (by omega) _

/-- The entries of a table that is no larger than the address space do not overlap. -/
theorem disjoint_descriptors (table : BitVec 32) {i j : BitVec 32} {n : ℕ} (hn : 8 * n ≤ 2 ^ 32) (hi : i.toNat < n)
    (hj : j.toNat < n) (hne : j ≠ i) :
    Disjoint (Span (descriptorAddress table j) 8) (Span (descriptorAddress table i) 8) := by
  have hval : j.toNat ≠ i.toNat := fun e => hne (BitVec.eq_of_toNat_eq e)
  refine disjoint_span ?_ ?_ <;>
    simp only [descriptorAddress, BitVec.toNat_sub, BitVec.toNat_add, BitVec.toNat_mul, BitVec.toNat_ofNat] <;> omega

/-- **Descriptors are what `SetGate` was given**: the processor reads the base, the limit, the access byte and the
flags of a segment, and the handler, the selector, the type and the privilege level of a gate that is present. The
other descriptors of the table do not change. -/
theorem descriptors_decoded (mem : Memory) (s_GDT s_IDT : BitVec 32) :
    (∀ (seg base limit : BitVec 32) (access gran : BitVec 8), seg.toNat < gdtTotalSegments → limit.toNat < 2 ^ 20 →
      let mem' := GDT.setGate mem s_GDT seg base limit access gran
      let desc := descriptorAt mem' (descriptorAddress s_GDT seg)
      (desc.base = base ∧ desc.limit.toNat = limit.toNat ∧ desc.access = access ∧
          desc.flags = gran.extractLsb' 4 4) ∧
        ∀ other : BitVec 32, other.toNat < gdtTotalSegments → other ≠ seg →
          ∀ x ∈ Span (descriptorAddress s_GDT other) 8, mem' x = mem x) ∧
    ∀ (interrupt base : BitVec 32) (selector : SegmentSelector) (gate : InterruptGateType) (dpl : CPUPrivilegeLevel),
      interrupt.toNat < idtTotalInterrupts →
      let mem' := IDT.setGate mem s_IDT interrupt base selector gate dpl
      let desc := gateAt mem' (descriptorAddress s_IDT interrupt)
      (desc.offset = base ∧ desc.selector = selector.value ∧ desc.type.setWidth 8 = gate.value ∧
          desc.dpl.setWidth 8 = dpl.value ∧ desc.present = true) ∧
        ∀ other : BitVec 32, other.toNat < idtTotalInterrupts → other ≠ interrupt →
          ∀ x ∈ Span (descriptorAddress s_IDT other) 8, mem' x = mem x := by
  constructor
  · intro seg base limit access gran hseg hlimit mem' desc
    have hdesc : desc = ⟨base, limit.setWidth 20, access, gran.extractLsb' 4 4⟩ := descriptorAt_setGate ..
    refine ⟨⟨congrArg (·.base) hdesc, ?_, congrArg (·.access) hdesc, congrArg (·.flags) hdesc⟩, ?_⟩
    · rw [hdesc, BitVec.toNat_setWidth, Nat.mod_eq_of_lt hlimit]
    · intro other hother hne x hx
      have hdisjoint := disjoint_descriptors s_GDT (by decide : 8 * gdtTotalSegments ≤ 2 ^ 32) hseg hother hne
      exact GDT.sameOutside_setGate mem s_GDT seg base limit access gran x (Set.disjoint_left.mp hdisjoint hx)
  · intro interrupt base selector gate dpl hinterrupt mem' desc
    have hdesc : desc = ⟨base, selector.value, gate.value.setWidth 4, dpl.value.setWidth 2, true⟩ := gateAt_setGate ..
    refine ⟨⟨congrArg (·.offset) hdesc, congrArg (·.selector) hdesc, ?_, ?_, congrArg (·.present) hdesc⟩, ?_⟩
    · rw [hdesc]
      cases gate <;> rfl
    · rw [hdesc]
      cases dpl <;> rfl
    · intro other hother hne x hx
      have hdisjoint :=
        disjoint_descriptors s_IDT (by decide : 8 * idtTotalInterrupts ≤ 2 ^ 32) hinterrupt hother hne
      exact IDT.sameOutside_setGate mem s_IDT interrupt base selector gate dpl x (Set.disjoint_left.mp hdisjoint hx)

/-- A code segment that starts at `0x12345678` and ends before its first megabyte, and the gate of a page fault. -/
theorem descriptors_decoded_page_fault :
    (descriptorAt (GDT.setGate (fun _ => 0#8) 0x1000#32 1#32 0x12345678#32 0xABCDE#32 0x9a#8 0x40#8)
        (descriptorAddress 0x1000#32 1#32)).base = 0x12345678#32 ∧
      (gateAt (IDT.setGate (fun _ => 0#8) 0x2000#32 14#32 0xC0101234#32 .kernelCode .interruptGate32 .ring0)
        (descriptorAddress 0x2000#32 14#32)).offset = 0xC0101234#32 :=
  ⟨((descriptors_decoded _ _ 0x2000#32).1 1#32 _ 0xABCDE#32 _ _ (by decide) (by decide)).1.1,
    ((descriptors_decoded _ 0x1000#32 _).2 14#32 _ _ _ _ (by decide)).1.1⟩

end EagleOS.Arch
