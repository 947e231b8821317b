import EagleOS.Foundations.Stack

/-!
# Exceptions

The CPU pushes `EFLAGS`, `CS` and `EIP` when an exception occurs, and an error code for some of the vectors. The stub
`ISR0` … `ISR31` of the vector pushes two more words, and `_ISRHandler` the registers: the stack is then the
`InterruptFrame` that `x86ISRFaultHandler` gets. When that returns, `_ISRHandler` takes everything off the stack again
and executes `iret`.

## The model

`Cpu` is the registers and the memory. `x86ISRFaultHandler` is any function that returns with the stack pointer where
the ABI wants it, or does not return, and that leaves its frame, which is `const`, alone.

All stubs push an error code of 0, also those whose comments say that the CPU pushes one.

## What is proved

* `argument_of_stack`, `restoreState_of_stack` — what the handler and `_ISRHandler` find on the stack.
* `faultReturn_state` — `iret` is executed with the stack pointer that the CPU had left, whatever that points to.
* `fault_frames_iff` — the frame is what the handler takes it for, and `iret` finds what it needs, exactly for the
  vectors without an error code.
* `page_fault_frame` — what the handler reads after a page fault.
-/

namespace EagleOS.Arch

open Foundations

/-- The general registers, without the stack pointer. -/
structure GeneralRegisters where
  /-- `eax`. -/
  eax : BitVec 32
  /-- `ecx`. -/
  ecx : BitVec 32
  /-- `edx`. -/
  edx : BitVec 32
  /-- `ebx`. -/
  ebx : BitVec 32
  /-- `ebp`. -/
  ebp : BitVec 32
  /-- `esi`. -/
  esi : BitVec 32
  /-- `edi`. -/
  edi : BitVec 32

/-- The registers and the memory. -/
structure Cpu where
  /-- The general registers. -/
  regs : GeneralRegisters
  /-- `esp`. -/
  esp : BitVec 32
  /-- `ds`. -/
  ds : BitVec 16
  /-- `es`. -/
  es : BitVec 16
  /-- `fs`. -/
  fs : BitVec 16
  /-- `gs`. -/
  gs : BitVec 16
  /-- The memory. -/
  mem : Memory

namespace Cpu

/-- `push`. -/
def push (s : Cpu) (v : BitVec 32) : Cpu := { s with esp := s.esp - 4#32, mem := s.mem.store32 (s.esp - 4#32) v }

/-- The word on top of the stack. -/
def top (s : Cpu) : BitVec 32 := s.mem.load32 s.esp

/-- It is taken off. -/
def drop (s : Cpu) : Cpu := { s with esp := s.esp + 4#32 }

/-- `pop eax`. -/
def popEax (s : Cpu) : Cpu := { s.drop with regs := { s.regs with eax := s.top } }

/-- `pushad`. -/
def pushad (s : Cpu) : Cpu :=
  let temp := s.esp
  let s := (((s.push s.regs.eax).push s.regs.ecx).push s.regs.edx).push s.regs.ebx
  (((s.push temp).push s.regs.ebp).push s.regs.esi).push s.regs.edi

/-- `popad`. -/
def popad (s : Cpu) : Cpu :=
  let s := { s.drop with regs := { s.regs with edi := s.top } }
  let s := { s.drop with regs := { s.regs with esi := s.top } }
  let s := { s.drop with regs := { s.regs with ebp := s.top } }
  -- the stack pointer that was pushed is not used
  let s := s.drop
  let s := { s.drop with regs := { s.regs with ebx := s.top } }
  let s := { s.drop with regs := { s.regs with edx := s.top } }
  let s := { s.drop with regs := { s.regs with ecx := s.top } }
  { s.drop with regs := { s.regs with eax := s.top } }

/-- `mov ax, v`. -/
def movAx (s : Cpu) (v : BitVec 16) : Cpu :=
  { s with regs := { s.regs with eax := s.regs.eax &&& 0xFFFF0000#32 ||| v.setWidth 32 } }

/-- `mov ds, ax`, `mov es, ax`, `mov fs, ax` and `mov gs, ax`. -/
def movSegments (s : Cpu) : Cpu :=
  let ax := s.regs.eax.setWidth 16
  { s with ds := ax, es := ax, fs := ax, gs := ax }

end Cpu

/-- What the CPU saves when an exception occurs. -/
structure Fault where
  /-- `EIP` of the interrupted code. -/
  eip : BitVec 32
  /-- `CS`. -/
  cs : BitVec 16
  /-- `EFLAGS`. -/
  eflags : BitVec 32
  /-- The error code, for the vectors that have one. -/
  errorCode : BitVec 32

/-- The vectors with an error code. -/
def HasErrorCode (vector : ℕ) : Prop := vector = 8 ∨ 10 ≤ vector ∧ vector ≤ 14 ∨ vector = 17

instance (vector : ℕ) : Decidable (HasErrorCode vector) := inferInstanceAs (Decidable (_ ∨ _))

/-- The CPU raises an exception. -/
def raise (vector : ℕ) (f : Fault) (s : Cpu) : Cpu :=
  let s := ((s.push f.eflags).push (f.cs.setWidth 32)).push f.eip
  if HasErrorCode vector then s.push f.errorCode else s

/-- What `ISR0` … `ISR31` push: an error code, and a number. -/
def isrs : List (BitVec 8 × BitVec 8) :=
  [(0, 0), (0, 1), (0, 2), (0, 3), (0, 4), (0, 5), (0, 6), (0, 7),
    (0, 8), (0, 9), (0, 10), (0, 11), (0, 12), (0, 13), (0, 14), (0, 15),
    (0, 16), (0, 17), (0, 18), (0, 19), (0, 20), (0, 21), (0, 22), (0, 23),
    (0, 24), (0, 25), (0, 26), (0, 27), (0, 28), (0, 29), (0, 30), (0, 31)]

/-- The stub of a vector. -/
def isr (vector : ℕ) (s : Cpu) : Cpu :=
  let operands := isrs.getD vector (0, 0)
  (s.push (operands.1.signExtend 32)).push (operands.2.signExtend 32)

/-- `_ISRHandler` before the call. -/
def saveState (s : Cpu) : Cpu :=
  let s := s.pushad
  let s := s.movAx s.ds
  let s := s.push s.regs.eax
  let s := s.movAx 0x10#16
  let s := s.movSegments
  s.push s.esp

/-- `_ISRHandler` from the return of the call to `iret`. -/
def restoreState (s : Cpu) : Cpu :=
  let s := s.popEax
  let s := s.popEax
  let s := s.movSegments
  let s := s.popad
  { s with esp := s.esp + 8#32 }

/-- The state in which `x86ISRFaultHandler` is entered. -/
def faultEntry (vector : ℕ) (f : Fault) (returnAddress : BitVec 32) (s : Cpu) : Cpu :=
  (saveState (isr vector (raise vector f s))).push returnAddress

/-- The state in which `iret` is executed, if `x86ISRFaultHandler` returns. -/
def faultReturn (handler : Cpu → Option Cpu) (vector : ℕ) (f : Fault) (returnAddress : BitVec 32) (s : Cpu) : Option Cpu :=
  (handler (faultEntry vector f returnAddress s)).map restoreState

/-- `InterruptFrame`. -/
structure InterruptFrame where
  /-- `DS`. -/
  ds : BitVec 32
  /-- `EDI`. -/
  edi : BitVec 32
  /-- `ESI`. -/
  esi : BitVec 32
  /-- `EBP`. -/
  ebp : BitVec 32
  /-- `IESP`. -/
  iesp : BitVec 32
  /-- `EBX`. -/
  ebx : BitVec 32
  /-- `EDX`. -/
  edx : BitVec 32
  /-- `ECX`. -/
  ecx : BitVec 32
  /-- `EAX`. -/
  eax : BitVec 32
  /-- `InterruptNumber`. -/
  interruptNumber : BitVec 32
  /-- `ErrorCode`. -/
  errorCode : BitVec 32
  /-- `EIP`. -/
  eip : BitVec 32
  /-- `CS`. -/
  cs : BitVec 32
  /-- `EFLAGS`. -/
  eflags : BitVec 32
  /-- `ESP`. -/
  esp : BitVec 32
  /-- `SS`. -/
  ss : BitVec 32

namespace InterruptFrame

/-- The frame that a pointer points to. -/
def read (m : Memory) (p : BitVec 32) : InterruptFrame where
  ds := m.load32 p
  edi := m.load32 (p + 4#32)
  esi := m.load32 (p + 8#32)
  ebp := m.load32 (p + 12#32)
  iesp := m.load32 (p + 16#32)
  ebx := m.load32 (p + 20#32)
  edx := m.load32 (p + 24#32)
  ecx := m.load32 (p + 28#32)
  eax := m.load32 (p + 32#32)
  interruptNumber := m.load32 (p + 36#32)
  errorCode := m.load32 (p + 40#32)
  eip := m.load32 (p + 44#32)
  cs := m.load32 (p + 48#32)
  eflags := m.load32 (p + 52#32)
  esp := m.load32 (p + 56#32)
  ss := m.load32 (p + 60#32)

/-- Its general registers. -/
def regs (frame : InterruptFrame) : GeneralRegisters where
  eax := frame.eax
  ecx := frame.ecx
  edx := frame.edx
  ebx := frame.ebx
  ebp := frame.ebp
  esi := frame.esi
  edi := frame.edi

/-- The frame that a function gets as its argument. -/
def argument (s : Cpu) : InterruptFrame := read s.mem (s.mem.load32 (s.esp + 4#32))

end InterruptFrame

/-! ### The stack -/

section

variable {s s' : Cpu} {v w : BitVec 32} {vs : List (BitVec 32)}

/-- The words on top of the stack. -/
def Cpu.Stack (s : Cpu) (vs : List (BitVec 32)) : Prop := Holds s.mem s.esp vs

theorem Cpu.Stack.push (h : s.Stack vs) (hlen : vs.length < 2 ^ 29) (v : BitVec 32) : (s.push v).Stack (v :: vs) :=
  Holds.push h (by omega) v

theorem Cpu.Stack.top (h : s.Stack (v :: vs)) : s.top = v := Holds.top h

theorem Cpu.Stack.drop (h : s.Stack (v :: vs)) : s.drop.Stack vs := Holds.pop h

@[simp] theorem Cpu.regs_push (s : Cpu) (v : BitVec 32) : (s.push v).regs = s.regs := rfl

/-- `pushad` on a stack. -/
theorem Cpu.Stack.pushad (h : s.Stack vs) (hlen : vs.length < 2 ^ 28) : s.pushad.Stack
    (s.regs.edi :: s.regs.esi :: s.regs.ebp :: s.esp :: s.regs.ebx :: s.regs.edx :: s.regs.ecx :: s.regs.eax :: vs) := by
  have h₁ := h.push (by omega) s.regs.eax
  have h₂ := h₁.push (by simp; omega) s.regs.ecx
  have h₃ := h₂.push (by simp; omega) s.regs.edx
  have h₄ := h₃.push (by simp; omega) s.regs.ebx
  have h₅ := h₄.push (by simp; omega) s.esp
  have h₆ := h₅.push (by simp; omega) s.regs.ebp
  have h₇ := h₆.push (by simp; omega) s.regs.esi
  exact h₇.push (by simp; omega) s.regs.edi

/-- `popad` takes the registers off the stack again. -/
theorem Cpu.Stack.popad {r : GeneralRegisters} {temp : BitVec 32}
    (h : s.Stack (r.edi :: r.esi :: r.ebp :: temp :: r.ebx :: r.edx :: r.ecx :: r.eax :: vs)) :
    s.popad.regs = r ∧ s.popad.esp = s.esp + 32#32 ∧ s.popad.mem = s.mem := by
  have h₁ := h.drop
  have h₂ := h₁.drop
  have h₃ := h₂.drop
  have h₄ := h₃.drop
  have h₅ := h₄.drop
  have h₆ := h₅.drop
  have h₇ := h₆.drop
  have hregs : s.popad.regs = ⟨s.drop.drop.drop.drop.drop.drop.drop.top, s.drop.drop.drop.drop.drop.drop.top,
      s.drop.drop.drop.drop.drop.top, s.drop.drop.drop.drop.top, s.drop.drop.top, s.drop.top, s.top⟩ := rfl
  refine ⟨?_, ?_, rfl⟩
  · rw [hregs, h₇.top, h₆.top, h₅.top, h₄.top, h₂.top, h₁.top, h.top]
  · have hesp : s.popad.esp = s.esp + 4#32 + 4#32 + 4#32 + 4#32 + 4#32 + 4#32 + 4#32 + 4#32 := rfl
    rw [hesp]
    bv_omega

/-! ### The frame -/

variable {r : GeneralRegisters} {ret p d temp n c w₀ w₁ w₂ : BitVec 32}

/-- What a stub pushes. -/
theorem isr_eq {vector : ℕ} (hvector : vector < 32) (s : Cpu) : isr vector s = (s.push 0#32).push (BitVec.ofNat 32 vector) := by
  have hoperands : ∀ v : Fin 32, (isrs.getD v (0, 0)).1.signExtend 32 = 0#32 ∧
      (isrs.getD v (0, 0)).2.signExtend 32 = BitVec.ofNat 32 v := by decide
  obtain ⟨herror, hnumber⟩ := hoperands ⟨vector, hvector⟩
  rw [isr, herror, hnumber]

/-- `_ISRHandler` puts the registers, a segment and a pointer to all that on the stack. -/
theorem saveState_stack (h : s.Stack vs) (hlen : vs.length < 2 ^ 27) : ∃ d, (saveState s).Stack
      (((saveState s).esp + 4#32) :: d :: s.regs.edi :: s.regs.esi :: s.regs.ebp :: s.esp :: s.regs.ebx :: s.regs.edx ::
        s.regs.ecx :: s.regs.eax :: vs) ∧ (saveState s).esp = s.esp - 40#32 := by
  refine ⟨(s.pushad.movAx s.ds).regs.eax, ?_, ?_⟩
  · have hds : (s.pushad.movAx s.ds).Stack _ := h.pushad (by omega)
    have hpushed := hds.push (by simp; omega) (s.pushad.movAx s.ds).regs.eax
    have hpointer := Cpu.Stack.push (s := (((s.pushad.movAx s.ds).push (s.pushad.movAx s.ds).regs.eax).movAx 0x10#16).movSegments)
      hpushed (by simp; omega) ((s.pushad.movAx s.ds).push (s.pushad.movAx s.ds).regs.eax).esp
    have hesp : (saveState s).esp + 4#32 = ((s.pushad.movAx s.ds).push (s.pushad.movAx s.ds).regs.eax).esp :=
      BitVec.sub_add_cancel _ _
    rw [hesp]
    exact hpointer
  · have hesp : (saveState s).esp =
        s.esp - 4#32 - 4#32 - 4#32 - 4#32 - 4#32 - 4#32 - 4#32 - 4#32 - 4#32 - 4#32 := rfl
    rw [hesp]
    bv_omega

/-- The frame that a function gets when the stack is this. -/
theorem argument_of_stack (h : s.Stack (ret :: (s.esp + 8#32) :: d :: r.edi :: r.esi :: r.ebp :: temp :: r.ebx :: r.edx ::
      r.ecx :: r.eax :: n :: c :: w₀ :: w₁ :: w₂ :: vs)) :
    (InterruptFrame.argument s).regs = r ∧ (InterruptFrame.argument s).interruptNumber = n ∧
      (InterruptFrame.argument s).errorCode = c ∧ (InterruptFrame.argument s).eip = w₀ ∧
      (InterruptFrame.argument s).cs = w₁ ∧ (InterruptFrame.argument s).eflags = w₂ := by
  have hpointer : s.mem.load32 (s.esp + 4#32) = s.esp + 8#32 := Holds.top (Holds.pop h)
  have hframe : Holds s.mem (s.esp + 4#32 + 4#32) _ := Holds.pop (Holds.pop h)
  have height : s.esp + 4#32 + 4#32 = s.esp + 8#32 := by rw [BitVec.add_assoc]; rfl
  rw [height] at hframe
  have hread : InterruptFrame.argument s = InterruptFrame.read s.mem (s.esp + 8#32) := by
    rw [InterruptFrame.argument, hpointer]
  have hregs : (InterruptFrame.read s.mem (s.esp + 8#32)).regs = r := by
    rw [InterruptFrame.regs]
    simp only [InterruptFrame.read]
    rw [hframe.load32 (i := 8) rfl, hframe.load32 (i := 7) rfl, hframe.load32 (i := 6) rfl, hframe.load32 (i := 5) rfl,
      hframe.load32 (i := 3) rfl, hframe.load32 (i := 2) rfl, hframe.load32 (i := 1) rfl]
  rw [hread]
  exact ⟨hregs, hframe.load32 (i := 9) rfl, hframe.load32 (i := 10) rfl, hframe.load32 (i := 11) rfl,
    hframe.load32 (i := 12) rfl, hframe.load32 (i := 13) rfl⟩

/-- `_ISRHandler` takes everything off the stack again. -/
theorem restoreState_of_stack (h : s.Stack (p :: d :: r.edi :: r.esi :: r.ebp :: temp :: r.ebx :: r.edx :: r.ecx :: r.eax :: vs)) :
    (restoreState s).regs = r ∧ (restoreState s).esp = s.esp + 48#32 := by
  have hstack : s.popEax.popEax.movSegments.Stack
      (r.edi :: r.esi :: r.ebp :: temp :: r.ebx :: r.edx :: r.ecx :: r.eax :: vs) := Holds.pop (Holds.pop h)
  obtain ⟨hregs, hesp, -⟩ := hstack.popad
  refine ⟨hregs, ?_⟩
  have hlast : (restoreState s).esp = s.popEax.popEax.movSegments.popad.esp + 8#32 := rfl
  have hfirst : s.popEax.popEax.movSegments.esp = s.esp + 4#32 + 4#32 := rfl
  rw [hlast, hesp, hfirst]
  bv_omega

/-! ### Exceptions -/

/-- `x86ISRFaultHandler` keeps to the ABI: if it returns, the return address is off the stack, and the frame, which it
gets as `const`, is what it was. -/
structure KeepsFrame (handler : Cpu → Option Cpu) : Prop where
  /-- The stack pointer. -/
  esp : ∀ s s', handler s = some s' → s'.esp = s.esp + 4#32
  /-- The frame. -/
  frame : ∀ s s', handler s = some s' → ∀ x ∈ Span (s.mem.load32 (s.esp + 4#32)) 64, s'.mem x = s.mem x

/-- The frame is what the handler takes it for; and if the handler returns, `iret` finds the stack pointer at the saved
`EIP`, and the registers are those of the interrupted code. -/
structure Handled (handler : Cpu → Option Cpu) (vector : ℕ) (f : Fault) (returnAddress : BitVec 32) (s : Cpu) : Prop where
  /-- `InterruptNumber`. -/
  interruptNumber : (InterruptFrame.argument (faultEntry vector f returnAddress s)).interruptNumber = BitVec.ofNat 32 vector
  /-- `ErrorCode`. -/
  errorCode : (InterruptFrame.argument (faultEntry vector f returnAddress s)).errorCode =
    if HasErrorCode vector then f.errorCode else 0#32
  /-- `EIP`. -/
  eip : (InterruptFrame.argument (faultEntry vector f returnAddress s)).eip = f.eip
  /-- `CS`. -/
  cs : (InterruptFrame.argument (faultEntry vector f returnAddress s)).cs = f.cs.setWidth 32
  /-- `EFLAGS`. -/
  eflags : (InterruptFrame.argument (faultEntry vector f returnAddress s)).eflags = f.eflags
  /-- The general registers. -/
  regs : (InterruptFrame.argument (faultEntry vector f returnAddress s)).regs = s.regs
  /-- The state in which `iret` is executed: `EFLAGS`, `CS` and `EIP` were pushed in this order. -/
  iret : ∀ s', faultReturn handler vector f returnAddress s = some s' → s'.esp = s.esp - 12#32 ∧ s'.regs = s.regs

/-- The stack when `x86ISRFaultHandler` is entered: it depends on the words that the CPU has pushed. -/
theorem faultEntry_stack {vector : ℕ} (hvector : vector < 32) (f : Fault) (returnAddress : BitVec 32) (s : Cpu)
    (h : (raise vector f s).Stack vs) (hlen : vs.length < 16) (hregs : (raise vector f s).regs = s.regs) : ∃ d temp,
    (faultEntry vector f returnAddress s).Stack (returnAddress :: ((faultEntry vector f returnAddress s).esp + 8#32) :: d ::
      s.regs.edi :: s.regs.esi :: s.regs.ebp :: temp :: s.regs.ebx :: s.regs.edx :: s.regs.ecx :: s.regs.eax ::
        BitVec.ofNat 32 vector :: 0#32 :: vs) ∧
      (faultEntry vector f returnAddress s).esp = (raise vector f s).esp - 52#32 := by
  have hstub : (isr vector (raise vector f s)).Stack (BitVec.ofNat 32 vector :: 0#32 :: vs) := by
    rw [isr_eq hvector]
    exact (h.push (by omega) _).push (by simp; omega) _
  obtain ⟨d, hsaved, hesp⟩ := saveState_stack hstub (by simp; omega)
  have hsame : (isr vector (raise vector f s)).regs = s.regs := by rw [isr_eq hvector, Cpu.regs_push, Cpu.regs_push, hregs]
  have hentry := hsaved.push (by simp; omega) returnAddress
  rw [hsame] at hentry
  have hpointer : (faultEntry vector f returnAddress s).esp + 8#32 =
      (saveState (isr vector (raise vector f s))).esp + 4#32 := by
    have hpushed : (faultEntry vector f returnAddress s).esp = (saveState (isr vector (raise vector f s))).esp - 4#32 := rfl
    rw [hpushed]
    bv_omega
  refine ⟨d, (isr vector (raise vector f s)).esp, ?_, ?_⟩
  · rw [hpointer]
    exact hentry
  · have hstubEsp : (isr vector (raise vector f s)).esp = (raise vector f s).esp - 4#32 - 4#32 := rfl
    have hpushed : (faultEntry vector f returnAddress s).esp = (saveState (isr vector (raise vector f s))).esp - 4#32 := rfl
    rw [hpushed, hesp, hstubEsp]
    bv_omega

/-- What `iret` finds: the stack pointer is where the CPU had left it. -/
theorem faultReturn_state {vector : ℕ} (hvector : vector < 32) (f : Fault) (returnAddress : BitVec 32) (s : Cpu)
    (h : (raise vector f s).Stack vs) (hlen : vs.length < 16) (hregs : (raise vector f s).regs = s.regs)
    {handler : Cpu → Option Cpu} (hhandler : KeepsFrame handler) (hreturn : faultReturn handler vector f returnAddress s = some s') :
    s'.esp = (raise vector f s).esp ∧ s'.regs = s.regs := by
  obtain ⟨d, temp, hentry, hesp⟩ := faultEntry_stack hvector f returnAddress s h hlen hregs
  obtain ⟨s₁, hs₁, rfl⟩ := Option.map_eq_some_iff.mp hreturn
  have hesp₁ := hhandler.esp _ _ hs₁
  have hpointer : (faultEntry vector f returnAddress s).mem.load32 ((faultEntry vector f returnAddress s).esp + 4#32) =
      (faultEntry vector f returnAddress s).esp + 8#32 := Holds.top (Holds.pop hentry)
  have hsame := hhandler.frame _ _ hs₁
  rw [hpointer] at hsame
  have height : s₁.esp + 4#32 = (faultEntry vector f returnAddress s).esp + 8#32 := by
    rw [hesp₁, BitVec.add_assoc]
    rfl
  -- the argument's own word may have changed
  have hrest : Holds (faultEntry vector f returnAddress s).mem ((faultEntry vector f returnAddress s).esp + 4#32 + 4#32)
      ([d, s.regs.edi, s.regs.esi, s.regs.ebp, temp, s.regs.ebx, s.regs.edx, s.regs.ecx, s.regs.eax] ++ _) :=
    Holds.pop (Holds.pop hentry)
  rw [BitVec.add_assoc, show 4#32 + 4#32 = 8#32 from rfl] at hrest
  have hkept := hrest.of_append.congr (Nat.le_of_ble_eq_true rfl) fun x hx => hsame x (Span.mono (Nat.le_of_ble_eq_true rfl) hx)
  rw [← height] at hkept
  have hstack : s₁.Stack (s₁.top :: _) := ⟨rfl, hkept⟩
  obtain ⟨hregs', hesp'⟩ := restoreState_of_stack hstack
  refine ⟨?_, hregs'⟩
  rw [hesp', hesp₁, hesp]
  bv_omega

/-- What is on the stack when an exception has been raised. -/
theorem raise_stack (vector : ℕ) (f : Fault) (s : Cpu) : (raise vector f s).Stack
    (if HasErrorCode vector then [f.errorCode, f.eip, f.cs.setWidth 32, f.eflags] else [f.eip, f.cs.setWidth 32, f.eflags]) ∧
      (raise vector f s).regs = s.regs ∧
      (raise vector f s).esp = if HasErrorCode vector then s.esp - 16#32 else s.esp - 12#32 := by
  have hempty : s.Stack [] := trivial
  have hsaved := ((hempty.push (by simp) f.eflags).push (by simp) (f.cs.setWidth 32)).push (by simp) f.eip
  by_cases herror : HasErrorCode vector
  · rw [if_pos herror, if_pos herror, raise, if_pos herror]
    refine ⟨hsaved.push (by simp) f.errorCode, rfl, ?_⟩
    simp only [Cpu.push]
    bv_omega
  · rw [if_neg herror, if_neg herror, raise, if_neg herror]
    refine ⟨hsaved, rfl, ?_⟩
    simp only [Cpu.push]
    bv_omega

/-- Without an error code of the CPU's, everything is as it should be. -/
theorem handled_of_not_hasErrorCode {vector : ℕ} (hvector : vector < 32) (f : Fault) (returnAddress : BitVec 32) (s : Cpu)
    {handler : Cpu → Option Cpu} (hhandler : KeepsFrame handler) (herror : ¬ HasErrorCode vector) :
    Handled handler vector f returnAddress s := by
  obtain ⟨hstack, hregs, hesp⟩ := raise_stack vector f s
  rw [if_neg herror] at hstack hesp
  obtain ⟨d, temp, hentry, -⟩ := faultEntry_stack hvector f returnAddress s hstack (Nat.le_of_ble_eq_true rfl) hregs
  obtain ⟨hr, hn, hc, hw₀, hw₁, hw₂⟩ := argument_of_stack hentry
  refine ⟨hn, by rw [hc, if_neg herror], hw₀, hw₁, hw₂, hr, fun s' hs' => ?_⟩
  rw [← hesp]
  exact faultReturn_state hvector f returnAddress s hstack (Nat.le_of_ble_eq_true rfl) hregs hhandler hs'

/-- A handler that returns at once. -/
def returnAtOnce (s : Cpu) : Option Cpu := some s.drop

theorem returnAtOnce_keepsFrame : KeepsFrame returnAtOnce := by
  refine ⟨fun s s' h => ?_, fun s s' h x _ => ?_⟩
  · cases h
    rfl
  · cases h
    rfl

/-- Exceptions are handled as they should be, for any handler and whatever the registers and the stack are, exactly for
the vectors without an error code. -/
theorem fault_frames_iff (vector : ℕ) (hvector : vector < 32) (f : Fault) (s : Cpu) :
    (∀ handler returnAddress, KeepsFrame handler → Handled handler vector f returnAddress s) ↔ ¬ HasErrorCode vector := by
  constructor
  · intro h herror
    have hreturn : faultReturn returnAtOnce vector f 0#32 s = some (restoreState (faultEntry vector f 0#32 s).drop) := rfl
    obtain ⟨hstack, hregs, hesp⟩ := raise_stack vector f s
    rw [if_pos herror] at hstack hesp
    have hactual := (faultReturn_state hvector f 0#32 s hstack (Nat.le_of_ble_eq_true rfl) hregs returnAtOnce_keepsFrame hreturn).1
    have hwanted := ((h returnAtOnce 0#32 returnAtOnce_keepsFrame).iret _ hreturn).1
    rw [hwanted, hesp] at hactual
    bv_omega
  · exact fun herror handler returnAddress hhandler => handled_of_not_hasErrorCode hvector f returnAddress s hhandler herror

/-- The kernel when it reads from an address that is not mapped. -/
def kernelCode : Cpu := ⟨⟨1#32, 2#32, 3#32, 4#32, 5#32, 6#32, 7#32⟩, 0xC0400000#32, 0x10#16, 0x10#16, 0x10#16, 0x10#16, fun _ => 0#8⟩

theorem fault_frames_iff_invalidOpcode :
    Handled returnAtOnce 6 ⟨0xC0101234#32, 0x08#16, 0x202#32, 0#32⟩ 0xC0100000#32 kernelCode :=
  (fault_frames_iff 6 (by decide) _ _).mpr (by decide) returnAtOnce _ returnAtOnce_keepsFrame

/-- After a page fault because of a write, the handler reads 0 where it expects the error code, and the error code where
it expects `EIP`. -/
theorem page_fault_frame :
    (InterruptFrame.argument (faultEntry 14 ⟨0xC0101234#32, 0x08#16, 0x202#32, 2#32⟩ 0xC0100000#32 kernelCode)).errorCode = 0#32 ∧
      (InterruptFrame.argument (faultEntry 14 ⟨0xC0101234#32, 0x08#16, 0x202#32, 2#32⟩ 0xC0100000#32 kernelCode)).eip = 2#32 := by
  obtain ⟨hstack, hregs, -⟩ := raise_stack 14 ⟨0xC0101234#32, 0x08#16, 0x202#32, 2#32⟩ kernelCode
  rw [if_pos (by decide)] at hstack
  obtain ⟨d, temp, hentry, -⟩ := faultEntry_stack (by decide) _ 0xC0100000#32 kernelCode hstack (Nat.le_of_ble_eq_true rfl) hregs
  obtain ⟨-, -, hc, hw₀, -⟩ := argument_of_stack hentry
  exact ⟨hc, hw₀⟩

end

end EagleOS.Arch
