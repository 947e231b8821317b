import EagleOS.Arch.Descriptors
import EagleOS.Arch.ISR

/-!
# From an exception to its message

`GDT::Init` and `IDT::Init` fill the descriptor tables and load their registers. From then on the processor takes the gate of a
vector from the one and the segment of its handler from the other. The handlers are the stubs `ISR0` … `ISR31`, which all end in
`x86ISRFaultHandler`.

## The model

`deliver` is what the processor does with a vector, up to the first instruction of the handler: `none` where the vector has no gate
for a 32-bit handler in a code segment, which is another exception. `x86ISRFaultHandler` is the calls of `KPrintf`, the last one by
`KPanic`, and whether it returns.

## What is proved

* `fill_table` — entries that are stored one after the other into a table are all there in the end.
* `exceptions_delivered` — the first 32 vectors reach their stubs, in the kernel's flat code segment and with interrupts off; no
  other vector reaches anything.
* `exceptions_reported` — each of them is reported under its own name, and the kernel stops.
-/

namespace EagleOS.Arch

open Foundations

/-! ### Tables -/

section

variable {β : Type*} {mem mem' : Memory} {a : BitVec 32}

/-- What the processor reads depends on the eight bytes only. -/
theorem descriptorAt_congr (h : ∀ x ∈ Span a 8, mem' x = mem x) : descriptorAt mem' a = descriptorAt mem a := by
  have hbyte : ∀ i < 8, mem' (a + BitVec.ofNat 32 i) = mem (a + BitVec.ofNat 32 i) := fun i hi =>
    h _ ((mem_span_iff_exists (by omega)).mpr ⟨i, hi, rfl⟩)
  rw [descriptorAt, descriptorAt, hbyte 7 (by omega), hbyte 6 (by omega), hbyte 5 (by omega), hbyte 4 (by omega),
    hbyte 3 (by omega), hbyte 2 (by omega), hbyte 1 (by omega), hbyte 0 (by omega)]

theorem gateAt_congr (h : ∀ x ∈ Span a 8, mem' x = mem x) : gateAt mem' a = gateAt mem a := by
  have hbyte : ∀ i < 8, mem' (a + BitVec.ofNat 32 i) = mem (a + BitVec.ofNat 32 i) := fun i hi =>
    h _ ((mem_span_iff_exists (by omega)).mpr ⟨i, hi, rfl⟩)
  rw [gateAt, gateAt, hbyte 7 (by omega), hbyte 6 (by omega), hbyte 5 (by omega), hbyte 3 (by omega), hbyte 2 (by omega),
    hbyte 1 (by omega), hbyte 0 (by omega)]

/-- The first `n` entries of a table, stored one after the other. -/
def fill (set : Memory → ℕ → Memory) (n : ℕ) (mem : Memory) : Memory := (List.range n).foldl set mem

theorem fill_succ (set : Memory → ℕ → Memory) (n : ℕ) (mem : Memory) : fill set (n + 1) mem = set (fill set n mem) n := by
  rw [fill, List.range_succ, List.foldl_append]
  rfl

/-- Entry `i` of a table, if the table has less than `2 ^ 32` bytes. -/
theorem descriptor_subset (table : BitVec 32) {i n : ℕ} (hi : i < n) (hn : 8 * n ≤ 2 ^ 32) :
    Span (descriptorAddress table (BitVec.ofNat 32 i)) 8 ⊆ Span table (8 * n) := by
  intro x hx
  simp only [mem_span, descriptorAddress, BitVec.toNat_sub, BitVec.toNat_add, BitVec.toNat_mul, BitVec.toNat_ofNat] at hx ⊢
  omega

/-- **A table is filled**: its entries are those that were stored, and nothing else has changed. -/
theorem fill_table {table : BitVec 32} {set : Memory → ℕ → Memory} {read : Memory → BitVec 32 → β} {value : ℕ → β} {n : ℕ}
    (hn : 8 * n ≤ 2 ^ 32)
    (hset : ∀ m, ∀ i < n, Memory.SameOutside (descriptorAddress table (BitVec.ofNat 32 i)) 8 m (set m i))
    (hvalue : ∀ m, ∀ i < n, read (set m i) (descriptorAddress table (BitVec.ofNat 32 i)) = value i)
    (hcongr : ∀ {m m' : Memory} {a}, (∀ x ∈ Span a 8, m' x = m x) → read m' a = read m a) (mem : Memory) :
    (∀ i < n, read (fill set n mem) (descriptorAddress table (BitVec.ofNat 32 i)) = value i) ∧
      ∀ x, (∀ i < n, x ∉ Span (descriptorAddress table (BitVec.ofNat 32 i)) 8) → fill set n mem x = mem x := by
  induction n with
  | zero => exact ⟨fun i hi => absurd hi (Nat.not_lt_zero i), fun x _ => rfl⟩
  | succ n ih =>
    obtain ⟨hentries, hframe⟩ := ih (by omega) (fun m i hi => hset m i (by omega)) fun m i hi => hvalue m i (by omega)
    rw [fill_succ]
    refine ⟨fun i hi => ?_, fun x hx => ?_⟩
    · rcases Nat.lt_succ_iff_lt_or_eq.mp hi with hi | rfl
      · -- the last store leaves the entries before it
        have hlt : ∀ {k : ℕ}, k < n + 1 → (BitVec.ofNat 32 k).toNat = k := fun hk => by
          rw [BitVec.toNat_ofNat]
          omega
        have hne : BitVec.ofNat 32 i ≠ BitVec.ofNat 32 n := fun he => by
          have := congrArg BitVec.toNat he
          rw [hlt (by omega), hlt (by omega)] at this
          omega
        have hapart := disjoint_descriptors table hn (by rw [hlt] <;> omega) (by rw [hlt] <;> omega) hne
        rw [← hentries i hi]
        exact hcongr fun x hx => hset _ n (by omega) x (Set.disjoint_left.mp hapart hx)
      · exact hvalue _ i (by omega)
    · exact (hset _ n (by omega) x (hx n (by omega))).trans (hframe x fun i hi => hx i (by omega))

end

/-! ### `GDT::Init` and `IDT::Init` -/

/-- `GDTRDesc`, and `IDTRDesc`. -/
structure TableRegister where
  /-- `Limit`. -/
  limit : BitVec 16
  /-- `Base`. -/
  base : BitVec 32

/-- `GDT::Init`: memory, and what `GDTLoad` loads. -/
def GDT.init (mem : Memory) (s_GDT : BitVec 32) : Memory × TableRegister :=
  let mem := GDT.setGate mem s_GDT 0#32 0#32 0#32 0#8 0#8
  let mem := GDT.setGate mem s_GDT 1#32 0#32 0xffffffff#32 0x9a#8 0xcf#8
  let mem := GDT.setGate mem s_GDT 2#32 0#32 0xffffffff#32 0x92#8 0xcf#8
  let mem := GDT.setGate mem s_GDT 3#32 0#32 0xffffffff#32 0xf8#8 0xcf#8
  let mem := GDT.setGate mem s_GDT 4#32 0#32 0xffffffff#32 0xf2#8 0xcf#8
  (mem, ⟨BitVec.ofNat 16 (8 * gdtTotalSegments - 1), s_GDT⟩)

/-- `ISRInstall`, which has one call for each vector. -/
def isrInstall (mem : Memory) (s_IDT : BitVec 32) (stubs : ℕ → BitVec 32) : Memory :=
  fill (fun mem i => IDT.setGate mem s_IDT (BitVec.ofNat 32 i) (stubs i) .kernelCode .interruptGate32 .ring0) 32 mem

/-- `IDT::Init`: memory, and what `IDTLoad` loads. -/
def IDT.init (mem : Memory) (s_IDT : BitVec 32) (stubs : ℕ → BitVec 32) : Memory × TableRegister :=
  (isrInstall mem s_IDT stubs, ⟨BitVec.ofNat 16 (8 * idtTotalInterrupts - 1), s_IDT⟩)

/-! ### The processor -/

/-- The last byte of a segment. -/
def SegmentDescriptor.last (d : SegmentDescriptor) : ℕ :=
  if d.flags.getLsbD 3 then d.limit.toNat * 4096 + 4095 else d.limit.toNat

/-- The segment of a selector: it is not the null selector, lies in the table, and is present. -/
def segmentAt (mem : Memory) (gdtr : TableRegister) (selector : BitVec 16) : Option SegmentDescriptor :=
  let offset := selector &&& 0xFFF8#16
  if offset = 0#16 ∨ selector.getLsbD 2 ∨ gdtr.limit.toNat < offset.toNat + 7 then none
  else
    let d := descriptorAt mem (gdtr.base + offset.setWidth 32)
    if d.access.getLsbD 7 then some d else none

/-- Where a handler starts, and how. -/
structure HandlerEntry where
  /-- The linear address of its first instruction. -/
  address : BitVec 32
  /-- `CS`. -/
  cs : BitVec 16
  /-- The privilege level of its segment. -/
  level : BitVec 2
  /-- Whether interrupts stay as they are; if not, they are off. -/
  keepsInterrupts : Bool
  deriving DecidableEq

/-- The processor takes a vector to its handler. -/
def deliver (mem : Memory) (gdtr idtr : TableRegister) (vector : ℕ) : Option HandlerEntry :=
  if idtr.limit.toNat < 8 * vector + 7 then none
  else
    let gate := gateAt mem (descriptorAddress idtr.base (BitVec.ofNat 32 vector))
    if gate.present ∧ (gate.type = 0xE#4 ∨ gate.type = 0xF#4) then
      (segmentAt mem gdtr gate.selector).bind fun code =>
        -- a code segment that the offset lies in
        if code.access.getLsbD 4 ∧ code.access.getLsbD 3 ∧ gate.offset.toNat ≤ code.last then
          some ⟨code.base + gate.offset, gate.selector, code.access.extractLsb' 5 2, gate.type = 0xF#4⟩
        else none
    else none

/-! ### What the tables hold -/

/-- The access byte of each of the four segments. -/
def SegmentSelector.access : SegmentSelector → BitVec 8
  | .kernelCode => 0x9a#8
  | .kernelData => 0x92#8
  | .userCode => 0xf8#8
  | .userData => 0xf2#8

/-- What the kernel asks for: the segments, and the handlers. -/
structure TablesSet (mem : Memory) (gdtr idtr : TableRegister) (stubs : ℕ → BitVec 32) : Prop where
  /-- All four segments are the whole address space. -/
  segments : ∀ selector : SegmentSelector, segmentAt mem gdtr selector.value = some ⟨0#32, 0xFFFFF#20, selector.access, 0xC#4⟩
  /-- The exceptions have handlers, in the kernel's code segment, which interrupts cannot interrupt. -/
  exceptions : ∀ vector < 32, deliver mem gdtr idtr vector = some ⟨stubs vector, SegmentSelector.kernelCode.value, 0#2, false⟩
  /-- No other vector has one. -/
  others : ∀ vector, 32 ≤ vector → deliver mem gdtr idtr vector = none

/-- The entries that `GDT::Init` stores: limit, access and granularity. The base is 0. -/
def segments : ℕ → BitVec 32 × BitVec 8 × BitVec 8
  | 0 => (0#32, 0#8, 0#8)
  | 1 => (0xffffffff#32, 0x9a#8, 0xcf#8)
  | 2 => (0xffffffff#32, 0x92#8, 0xcf#8)
  | 3 => (0xffffffff#32, 0xf8#8, 0xcf#8)
  | _ => (0xffffffff#32, 0xf2#8, 0xcf#8)

/-- Which entry a selector means. -/
def SegmentSelector.index : SegmentSelector → ℕ
  | .kernelCode => 1
  | .kernelData => 2
  | .userCode => 3
  | .userData => 4

section

variable {mem mem' : Memory} {s_GDT s_IDT : BitVec 32} {gdtr idtr : TableRegister} {stubs : ℕ → BitVec 32}

theorem GDT.init_eq_fill (mem : Memory) (s_GDT : BitVec 32) : (GDT.init mem s_GDT).1 =
    fill (fun mem i => GDT.setGate mem s_GDT (BitVec.ofNat 32 i) 0#32 (segments i).1 (segments i).2.1 (segments i).2.2) 5 mem := by
  simp only [fill_succ]
  rfl

/-- The GDT is filled. -/
theorem GDT.init_spec (mem : Memory) (s_GDT : BitVec 32) :
    (∀ i < 5, descriptorAt (GDT.init mem s_GDT).1 (descriptorAddress s_GDT (BitVec.ofNat 32 i)) =
        ⟨0#32, (segments i).1.setWidth 20, (segments i).2.1, (segments i).2.2.extractLsb' 4 4⟩) ∧
      ∀ x ∉ Span s_GDT 40, (GDT.init mem s_GDT).1 x = mem x := by
  have hn : 8 * 5 ≤ 2 ^ 32 := by omega
  rw [GDT.init_eq_fill]
  obtain ⟨hentries, hframe⟩ := fill_table hn
    (fun m i _ => GDT.sameOutside_setGate m s_GDT (BitVec.ofNat 32 i) 0#32 (segments i).1 (segments i).2.1 (segments i).2.2)
    (fun m i _ => descriptorAt_setGate m s_GDT (BitVec.ofNat 32 i) 0#32 (segments i).1 (segments i).2.1 (segments i).2.2)
    descriptorAt_congr mem
  exact ⟨hentries, fun x hx => hframe x fun i hi hin => hx (descriptor_subset s_GDT hi hn hin)⟩

/-- The exceptions' part of the IDT is filled. -/
theorem isrInstall_spec (mem : Memory) (s_IDT : BitVec 32) (stubs : ℕ → BitVec 32) :
    (∀ i < 32, gateAt (isrInstall mem s_IDT stubs) (descriptorAddress s_IDT (BitVec.ofNat 32 i)) =
        ⟨stubs i, SegmentSelector.kernelCode.value, 0xE#4, 0#2, true⟩) ∧
      ∀ x ∉ Span s_IDT 256, isrInstall mem s_IDT stubs x = mem x := by
  have hn : 8 * 32 ≤ 2 ^ 32 := by omega
  obtain ⟨hentries, hframe⟩ := fill_table hn
    (fun m i _ => IDT.sameOutside_setGate m s_IDT (BitVec.ofNat 32 i) (stubs i) .kernelCode .interruptGate32 .ring0)
    (fun m i _ => gateAt_setGate m s_IDT (BitVec.ofNat 32 i) (stubs i) .kernelCode .interruptGate32 .ring0)
    gateAt_congr mem
  exact ⟨hentries, fun x hx => hframe x fun i hi hin => hx (descriptor_subset s_IDT hi hn hin)⟩

/-- The segments, from the entries of the table. -/
theorem segmentAt_selector (h : ∀ i < 5, descriptorAt mem (descriptorAddress s_GDT (BitVec.ofNat 32 i)) =
      ⟨0#32, (segments i).1.setWidth 20, (segments i).2.1, (segments i).2.2.extractLsb' 4 4⟩) (selector : SegmentSelector) :
    segmentAt mem ⟨BitVec.ofNat 16 (8 * gdtTotalSegments - 1), s_GDT⟩ selector.value =
      some ⟨0#32, 0xFFFFF#20, selector.access, 0xC#4⟩ := by
  have haddress : s_GDT + (selector.value &&& 0xFFF8#16).setWidth 32 =
      descriptorAddress s_GDT (BitVec.ofNat 32 selector.index) := by
    cases selector <;> rfl
  have hentry := h selector.index (by cases selector <;> simp [SegmentSelector.index])
  have hvalid : ¬ (selector.value &&& 0xFFF8#16 = 0#16 ∨ selector.value.getLsbD 2 ∨
      (BitVec.ofNat 16 (8 * gdtTotalSegments - 1)).toNat < (selector.value &&& 0xFFF8#16).toNat + 7) := by
    cases selector <;> decide
  simp only [segmentAt, if_neg hvalid, haddress, hentry]
  cases selector <;> rfl

/-- A vector whose gate is the one that `ISRInstall` stores. -/
theorem deliver_of_gate (hsegment : segmentAt mem gdtr SegmentSelector.kernelCode.value =
      some ⟨0#32, 0xFFFFF#20, SegmentSelector.kernelCode.access, 0xC#4⟩) {vector : ℕ} {offset : BitVec 32}
    (hlimit : 8 * vector + 7 ≤ idtr.limit.toNat) (hgate : gateAt mem (descriptorAddress idtr.base (BitVec.ofNat 32 vector)) =
      ⟨offset, SegmentSelector.kernelCode.value, 0xE#4, 0#2, true⟩) :
    deliver mem gdtr idtr vector = some ⟨offset, SegmentSelector.kernelCode.value, 0#2, false⟩ := by
  have hlast : offset.toNat ≤ (⟨0#32, 0xFFFFF#20, SegmentSelector.kernelCode.access, 0xC#4⟩ : SegmentDescriptor).last :=
    Nat.le_of_lt_succ offset.isLt
  simp only [deliver, if_neg (Nat.not_lt.mpr hlimit), hgate, hsegment, Option.bind_some, hlast]
  simp [SegmentSelector.access]

/-- A vector whose gate is zero. -/
theorem deliver_of_zero {vector : ℕ} (h : ∀ x ∈ Span (descriptorAddress idtr.base (BitVec.ofNat 32 vector)) 8, mem x = 0#8) :
    deliver mem gdtr idtr vector = none := by
  have hflags : mem (descriptorAddress idtr.base (BitVec.ofNat 32 vector) + 5#32) = 0#8 :=
    h _ ((mem_span_iff_exists (by omega)).mpr ⟨5, by omega, rfl⟩)
  simp [deliver, gateAt, hflags]

end

/-- **Exceptions reach their stubs**: wherever the two tables lie in memory, apart from each other, and whatever else memory holds,
once `GDT::Init` and `IDT::Init` have run, and as long as nothing is stored into the tables, each of the first 32 vectors is taken
to its stub, in the kernel's code segment and with interrupts off, no other vector is taken to any handler, and the four selectors
are flat segments. -/
theorem exceptions_delivered (mem : Memory) (s_GDT s_IDT : BitVec 32) (stubs : ℕ → BitVec 32)
    (hapart : Disjoint (Span s_GDT 40) (Span s_IDT 2048)) (hzero : ∀ x ∈ Span s_IDT 2048, mem x = 0#8) (mem' : Memory)
    (hkept : ∀ x ∈ Span s_GDT 40 ∪ Span s_IDT 2048, mem' x = (IDT.init (GDT.init mem s_GDT).1 s_IDT stubs).1 x) :
    TablesSet mem' (GDT.init mem s_GDT).2 (IDT.init (GDT.init mem s_GDT).1 s_IDT stubs).2 stubs := by
  obtain ⟨hgdt, hgdtFrame⟩ := GDT.init_spec mem s_GDT
  obtain ⟨hidt, hidtFrame⟩ := isrInstall_spec (GDT.init mem s_GDT).1 s_IDT stubs
  have hsub : Span s_IDT 256 ⊆ Span s_IDT 2048 := Span.mono (by omega)
  have hsegments : ∀ selector : SegmentSelector, segmentAt mem' (GDT.init mem s_GDT).2 selector.value =
      some ⟨0#32, 0xFFFFF#20, selector.access, 0xC#4⟩ := by
    refine segmentAt_selector fun i hi => ?_
    rw [← hgdt i hi]
    refine descriptorAt_congr fun x hx => ?_
    have hin := descriptor_subset s_GDT hi (by omega) hx
    exact (hkept x (.inl hin)).trans (hidtFrame x fun hin' => Set.disjoint_left.mp hapart hin (hsub hin'))
  have hlimit : (IDT.init (GDT.init mem s_GDT).1 s_IDT stubs).2.limit.toNat = 2047 := rfl
  refine ⟨hsegments, fun vector hvector => ?_, fun vector hvector => ?_⟩
  · refine deliver_of_gate (hsegments .kernelCode) (by omega) ?_
    refine (gateAt_congr fun x hx => ?_).trans (hidt vector hvector)
    exact hkept x (.inr (hsub (descriptor_subset s_IDT hvector (by omega) hx)))
  by_cases hlast : vector < 256
  · refine deliver_of_zero fun x hx => ?_
    have hin : x ∈ Span s_IDT 2048 := descriptor_subset s_IDT hlast (by omega) hx
    have hnot : x ∉ Span s_IDT 256 := by
      -- the gates of the exceptions come before it
      change x ∈ Span (descriptorAddress s_IDT (BitVec.ofNat 32 vector)) 8 at hx
      simp only [mem_span, descriptorAddress, BitVec.toNat_sub, BitVec.toNat_add, BitVec.toNat_mul, BitVec.toNat_ofNat] at hx ⊢
      omega
    rw [hkept x (.inr hin), ← hzero x hin, ← hgdtFrame x fun hin' => Set.disjoint_left.mp hapart hin' hin]
    exact hidtFrame x hnot
  · rw [deliver, if_pos (by omega)]

theorem exceptions_delivered_zeros :
    TablesSet (IDT.init (GDT.init (fun _ => 0#8) 0xC0200000#32).1 0xC0201000#32 fun i => 0xC0100000#32 + BitVec.ofNat 32 i).1
      ⟨39#16, 0xC0200000#32⟩ ⟨2047#16, 0xC0201000#32⟩ fun i => 0xC0100000#32 + BitVec.ofNat 32 i :=
  exceptions_delivered (fun _ => 0#8) 0xC0200000#32 0xC0201000#32 _ (disjoint_span_of_le (by simp) (by simp)) (fun _ _ => rfl) _
    fun _ _ => rfl

/-! ### The message -/

/-- `ExceptionMessages`. -/
def exceptionMessages : List String :=
  ["Division By Zero", "Debug", "Non Maskable Interrupt", "Breakpoint", "Into Detected Overflow", "Out of Bounds",
    "Invalid Opcode", "No Coprocessor", "Double Fault", "Coprocessor Segment Overrun", "Bad TSS", "Segment Not Present",
    "Stack Fault", "General Protection Fault", "Page Fault", "Unknown Interrupt", "Coprocessor Fault", "Alignment Check",
    "Machine Check", "Reserved", "Reserved", "Reserved", "Reserved", "Reserved", "Reserved", "Reserved", "Reserved",
    "Reserved", "Reserved", "Reserved", "Reserved", "Reserved"]

/-- A call of `KPrintf`: the format, and the arguments after it. -/
structure Printed where
  /-- The format. -/
  format : String
  /-- The arguments. -/
  arguments : List (BitVec 32)
  deriving DecidableEq

/-- `KPanic`: it prints, and does not return. -/
def kPanic (str : String) : List Printed × Bool := ([⟨str, []⟩], false)

/-- `x86ISRFaultHandler`: what it prints, and whether it returns. -/
def x86ISRFaultHandler (cr2 : BitVec 32) (frame : InterruptFrame) : List Printed × Bool :=
  let printed : List Printed :=
    if frame.interruptNumber = 14#32 then
      [⟨"Page Fault For Address: 0x%x\n", [cr2]⟩,
        ⟨"IsPresent: %d\n", [if frame.errorCode.getLsbD 0 then 1#32 else 0#32]⟩]
    else []
  if frame.interruptNumber < 32#32 then
    let panicked := kPanic (exceptionMessages.getD frame.interruptNumber.toNat "")
    (printed ++ panicked.1, panicked.2)
  else (printed, true)

/-- The number and the error code in the frame, for any vector: the stub's, not the processor's. -/
theorem frame_of_faultEntry {vector : ℕ} (hvector : vector < 32) (f : Fault) (returnAddress : BitVec 32) (s : Cpu) :
    (InterruptFrame.argument (faultEntry vector f returnAddress s)).interruptNumber = BitVec.ofNat 32 vector ∧
      (InterruptFrame.argument (faultEntry vector f returnAddress s)).errorCode = 0#32 := by
  obtain ⟨hstack, hregs, -⟩ := raise_stack vector f s
  by_cases herror : HasErrorCode vector
  · rw [if_pos herror] at hstack
    obtain ⟨d, temp, hentry, -⟩ := faultEntry_stack hvector f returnAddress s hstack (by simp) hregs
    obtain ⟨-, hnumber, hcode, -⟩ := argument_of_stack hentry
    exact ⟨hnumber, hcode⟩
  · rw [if_neg herror] at hstack
    obtain ⟨d, temp, hentry, -⟩ := faultEntry_stack hvector f returnAddress s hstack (by simp) hregs
    obtain ⟨-, hnumber, hcode, -⟩ := argument_of_stack hentry
    exact ⟨hnumber, hcode⟩

/-- **Exceptions are reported under their names**: whatever has been interrupted, and whatever error code the processor has pushed,
if it has pushed one, the handler stops the kernel with the message of the vector. After a page fault it prints the address first,
and that the page was not present, whether it was or not. -/
theorem exceptions_reported (vector : ℕ) (hvector : vector < 32) (f : Fault) (returnAddress cr2 : BitVec 32) (s : Cpu) :
    ∃ message, exceptionMessages[vector]? = some message ∧
      x86ISRFaultHandler cr2 (InterruptFrame.argument (faultEntry vector f returnAddress s)) =
        ((if vector = 14 then [⟨"Page Fault For Address: 0x%x\n", [cr2]⟩, ⟨"IsPresent: %d\n", [0#32]⟩] else []) ++
          [⟨message, []⟩], false) := by
  obtain ⟨hnumber, hcode⟩ := frame_of_faultEntry hvector f returnAddress s
  have htoNat : (BitVec.ofNat 32 vector).toNat = vector := by
    rw [BitVec.toNat_ofNat]
    omega
  have hlength : vector < exceptionMessages.length := hvector
  have h14 : BitVec.ofNat 32 vector = 14#32 ↔ vector = 14 := by
    rw [← BitVec.toNat_inj, htoNat]
    rfl
  have h32 : BitVec.ofNat 32 vector < 32#32 := by
    rw [BitVec.lt_def, htoNat]
    exact hvector
  refine ⟨exceptionMessages[vector], List.getElem?_eq_getElem hlength, ?_⟩
  simp [x86ISRFaultHandler, kPanic, hnumber, hcode, h14, h32, htoNat, hlength]

/-- A page fault on a page that is present. -/
theorem exceptions_reported_page_fault :
    x86ISRFaultHandler 0xC0000000#32
        (InterruptFrame.argument (faultEntry 14 ⟨0xC0101234#32, 0x08#16, 0x202#32, 3#32⟩ 0xC0100000#32 kernelCode)) =
      ([⟨"Page Fault For Address: 0x%x\n", [0xC0000000#32]⟩, ⟨"IsPresent: %d\n", [0#32]⟩, ⟨"Page Fault", []⟩], false) := by
  obtain ⟨message, hmessage, hreported⟩ := exceptions_reported 14 (by simp) ⟨0xC0101234#32, 0x08#16, 0x202#32, 3#32⟩
    0xC0100000#32 0xC0000000#32 kernelCode
  obtain rfl : "Page Fault" = message := Option.some.inj hmessage
  exact hreported

end EagleOS.Arch
