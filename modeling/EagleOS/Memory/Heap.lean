import EagleOS.Memory.VirtualMemoryAllocator

/-!
# `Heap`

The kernel's heap: blocks one after the other from `m_StartAddress` to `m_CurrentAddress`, each a
header and a payload. `Allocate` walks over the blocks by their sizes and takes the first free one that
is large enough, whole; when there is none it makes a block at the end. `Free` marks the block, and when
a neighbour in the list of blocks is free too it means to merge the two.

## The model

The heap works on the kernel's address space: `mem` is what the kernel reads and writes at its virtual
addresses. A header is packed: 4 bytes of size, one of state, two pointers of 4 bytes. The walk of
`Allocate` may come back to where it was, when a size wraps around; `allocate` is then `none`.

`Free` adds the size of the node to the neighbour's, without the header's, also when the neighbour is the
next one; `Allocate` does not look at `m_EndAddress`. Both are as in the source.
-/

namespace EagleOS.Memory

open ESTD Boot Foundations Arch

/-- `HeapState`. -/
inductive HeapState where
  /-- `Free`. -/
  | free
  /-- `Reserved`. -/
  | reserved
  deriving DecidableEq

/-- The byte that is stored for a state. -/
def HeapState.byte : HeapState → BitVec 8
  | .free => 0x0#8
  | .reserved => 0x1#8

namespace HeapNode

/-- `sizeof(HeapNode)`. -/
abbrev sizeOf : SizeT := 13#32

/-- What `Size`, `Next` and `Prev` have in common: a word at an offset. -/
def field (offset : BitVec 32) (mem : Foundations.Memory) (node : VirtualAddress) : BitVec 32 :=
  mem.load32 (node + offset)

/-- What the assignments to `Size`, `Next` and `Prev` have in common. -/
def setField (offset : BitVec 32) (mem : Foundations.Memory) (node : VirtualAddress) (value : BitVec 32) :
    Foundations.Memory := mem.store32 (node + offset) value

/-- `node->Size`. -/
def size : Foundations.Memory → VirtualAddress → SizeT := field 0#32

/-- `node->Next`. -/
def next : Foundations.Memory → VirtualAddress → VirtualAddress := field 5#32

/-- `node->Prev`. -/
def prev : Foundations.Memory → VirtualAddress → VirtualAddress := field 9#32

/-- `node->State == state`. -/
def hasState (mem : Foundations.Memory) (node : VirtualAddress) (state : HeapState) : Prop :=
  mem (node + 4#32) = state.byte

instance (mem : Foundations.Memory) (node : VirtualAddress) (state : HeapState) : Decidable (hasState mem node state) :=
  inferInstanceAs (Decidable (_ = _))

/-- Assign to `node->Size`. -/
def setSize : Foundations.Memory → VirtualAddress → SizeT → Foundations.Memory := setField 0#32

/-- Assign to `node->Next`. -/
def setNext : Foundations.Memory → VirtualAddress → VirtualAddress → Foundations.Memory := setField 5#32

/-- Assign to `node->Prev`. -/
def setPrev : Foundations.Memory → VirtualAddress → VirtualAddress → Foundations.Memory := setField 9#32

/-- Assign to `node->State`. -/
def setState (mem : Foundations.Memory) (node : VirtualAddress) (state : HeapState) : Foundations.Memory :=
  mem.store8 (node + 4#32) state.byte

end HeapNode

/-- `Heap`, and the address space that it is in. -/
structure Heap where
  /-- `m_MemorySizeBytes`. -/
  memorySizeBytes : SizeT
  /-- `m_StartAddress`. -/
  startAddress : VirtualAddress
  /-- `m_EndAddress`. -/
  endAddress : VirtualAddress
  /-- `m_CurrentAddress`. -/
  currentAddress : VirtualAddress
  /-- What the kernel's addresses hold. -/
  mem : Foundations.Memory

namespace Heap

open HeapNode

/-- `Init`. -/
def init (util : MemoryUtil) (k : Kernel) (mem : Foundations.Memory) (sizeBytes : SizeT) : Option Heap × Kernel :=
  if sizeBytes = 0#32 then (none, k)
  else
    let memorySizeBytes := alignDown sizeBytes k.vma.pageSize
    match VirtualMemoryAllocator.allocatePages util k (memorySizeBytes / k.vma.pageSize) with
    | (startAddress, k) =>
      if startAddress = 0#32 then (none, k)
      else
        (some
          { memorySizeBytes
            startAddress
            endAddress := startAddress + memorySizeBytes
            currentAddress := startAddress
            mem := memset mem startAddress 0#8 sizeOf.toNat }, k)

/-- Where the walk of `Allocate` ends. -/
inductive Search where
  /-- At a free block that is large enough. -/
  | reuse (node : VirtualAddress)
  /-- Past the last block, with the block before it. -/
  | append (node prev : VirtualAddress)
  deriving DecidableEq

/-- The walk of `Allocate`. -/
def search (mem : Foundations.Memory) (currentAddress : VirtualAddress) (sizeBytes : SizeT) :
    ℕ → VirtualAddress → VirtualAddress → Option Search
  | 0, _, _ => none
  | fuel + 1, node, prev =>
    if node < currentAddress then
      if size mem node ≥ sizeBytes ∧ hasState mem node .free then some (.reuse node)
      else search mem currentAddress sizeBytes fuel (node + (size mem node + sizeOf)) node
    else some (.append node prev)

/-- The header that `Allocate` makes past the last block. -/
def appendNode (mem : Foundations.Memory) (node prev : VirtualAddress) (sizeBytes : SizeT) : Foundations.Memory :=
  let mem := setSize mem node sizeBytes
  let mem := setState mem node .reserved
  let mem := setPrev mem node prev
  let mem := setNext mem node 0#32
  if prev ≠ 0#32 then setNext mem prev node else mem

/-- `Allocate`; `none` where it does not return. There are no more than `2 ^ 32` places to walk over. -/
def allocate (heap : Heap) (sizeBytes : SizeT) : Option (VirtualAddress × Heap) :=
  if sizeBytes = 0#32 then some (0#32, heap)
  else
    match search heap.mem heap.currentAddress sizeBytes (2 ^ 32) heap.startAddress (prev heap.mem heap.startAddress) with
    | none => none
    | some (.reuse node) => some (node + sizeOf, { heap with mem := setState heap.mem node .reserved })
    | some (.append node prev) =>
      let mem := appendNode heap.mem node prev sizeBytes
      some (node + sizeOf, { heap with mem := mem, currentAddress := heap.currentAddress + (size mem node + sizeOf) })

/-- The first half of the merging in `Free`. -/
def mergeNext (mem : Foundations.Memory) (node : VirtualAddress) : Foundations.Memory :=
  let next := HeapNode.next mem node
  if next ≠ 0#32 ∧ hasState mem next .free then
    let prev := HeapNode.prev mem node
    let mem := setSize mem next (size mem next + size mem node)
    let mem := setPrev mem next (HeapNode.prev mem node)
    if prev ≠ 0#32 then setNext mem prev next else mem
  else mem

/-- The second half of the merging in `Free`. -/
def mergePrev (mem : Foundations.Memory) (node : VirtualAddress) : Foundations.Memory :=
  let prev := HeapNode.prev mem node
  if prev ≠ 0#32 ∧ hasState mem prev .free then
    let next := HeapNode.next mem node
    let mem := setSize mem prev (size mem prev + size mem node)
    let mem := setNext mem prev (HeapNode.next mem node)
    if next ≠ 0#32 then setPrev mem next prev else mem
  else mem

/-- `Free`. -/
def free (heap : Heap) (address : VirtualAddress) : Heap :=
  if address = 0#32 then heap
  else
    let node := address - sizeOf
    let mem := if hasState heap.mem node .reserved then setState heap.mem node .free else heap.mem
    { heap with mem := mergePrev (mergeNext mem node) node }

end Heap

end EagleOS.Memory
