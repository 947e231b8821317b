import EagleOS.Arch.Paging

/-!
# `VirtualMemoryManager`

The page tables of the kernel: one directory, one table for the first 4 MB and 256 tables for the
addresses from `0xC0000000` on. `Map` fills in a directory entry when its table is first needed, and
then the table's entry; `Unmap` clears the table's entry.

## The model

The tables are words of physical memory. The kernel reaches its own image through the linear window
that `MemoryUtil` describes: a pointer `x` into the image reads and writes the physical address
`KernelVirtualToPhysicalAddress(x)`, which is where the processor finds the table. `Machine` is the
memory and `cr3`, with a record of what has been done: every store of an entry, every `invlpg`, and every
time pages are about to be given back to the physical allocator. Each assignment to `m_Entry` is a
store of its own.

The object is where its tables lie: `m_PageDirectory`, `m_PageTable0` and `m_PageTables768`.
`SetPresent` and `SetWritable` set their flag whatever `value` is, and `SetAddress` keeps bit 31 of
the old entry, as in the source.
-/

namespace EagleOS.Memory

open ESTD Boot Foundations Arch

/-- `PAGE_SIZE`. -/
abbrev pageSize : SizeT := 4096#32

/-- The static members of `MemoryUtil`. -/
structure MemoryUtil where
  /-- `s_KernelVirtualStartAddress`. -/
  kernelVirtualStartAddress : VirtualAddress
  /-- `s_KernelPhysicalStartAddress`. -/
  kernelPhysicalStartAddress : PhysicalAddress
  deriving DecidableEq

namespace MemoryUtil

/-- `Init`. -/
def init (bootInfo : BootInfo) : MemoryUtil :=
  ⟨bootInfo.kernelVirtualStartAddress, bootInfo.kernelPhysicalStartAddress⟩

/-- `KernelVirtualToPhysicalAddress`. -/
def kernelVirtualToPhysicalAddress (util : MemoryUtil) (virtualAddress : VirtualAddress) : PhysicalAddress :=
  (virtualAddress - util.kernelVirtualStartAddress) + util.kernelPhysicalStartAddress

/-- `KernelPhysicalToVirtualAddress`. -/
def kernelPhysicalToVirtualAddress (util : MemoryUtil) (physicalAddress : PhysicalAddress) : VirtualAddress :=
  (physicalAddress + util.kernelVirtualStartAddress) - util.kernelPhysicalStartAddress

end MemoryUtil

/-! ### Entries -/

/-- What `PageDirectoryEntry` and `PageTableEntry` have in common: the test of a flag. -/
def isFlag (flag : BitVec 32) (entry : Entry) : Bool := bitmaskTestOne entry flag

/-- What they have in common: `BitmaskSet(m_Entry, flag)`, whatever `value` is. -/
def setFlag (flag : BitVec 32) (_value : Bool) (entry : Entry) : Entry := bitmaskSet entry flag

/-- What they have in common: `SetAddress`. -/
def setEntryAddress (address : PhysicalAddress) (entry : Entry) : Entry := (entry &&& ~~~0x7FFFF000#32) ||| address

/-- What they have in common: `GetAddress`. -/
def getEntryAddress (entry : Entry) : PhysicalAddress := entry &&& ~~~0xFFF#32

namespace PageDirectoryEntry

/-- `IsPresent`. -/
def isPresent : Entry → Bool := isFlag 0x1#32

/-- `SetPresent`. -/
def setPresent : Bool → Entry → Entry := setFlag 0x1#32

/-- `SetWritable`. -/
def setWritable : Bool → Entry → Entry := setFlag 0x2#32

/-- `SetAddress`. -/
def setAddress : PhysicalAddress → Entry → Entry := setEntryAddress

/-- `GetAddress`. -/
def getAddress : Entry → PhysicalAddress := getEntryAddress

end PageDirectoryEntry

namespace PageTableEntry

/-- `Clear`. -/
def clear (_entry : Entry) : Entry := 0#32

/-- `IsPresent`. -/
def isPresent : Entry → Bool := isFlag 0x1#32

/-- `SetPresent`. -/
def setPresent : Bool → Entry → Entry := setFlag 0x1#32

/-- `SetWritable`. -/
def setWritable : Bool → Entry → Entry := setFlag 0x2#32

/-- `SetAddress`. -/
def setAddress : PhysicalAddress → Entry → Entry := setEntryAddress

/-- `GetAddress`. -/
def getAddress : Entry → PhysicalAddress := getEntryAddress

end PageTableEntry

/-- `PageDirectory::GetEntry`, of the directory at `directory`. -/
def PageDirectory.getEntry (directory : VirtualAddress) (virtualAddress : VirtualAddress) : VirtualAddress :=
  entryAddress directory (virtualAddress / (1024#32 * 4096#32))

/-- `PageTable::GetEntry`, of the table at `table`. -/
def PageTable.getEntry (table : VirtualAddress) (virtualAddress : VirtualAddress) : VirtualAddress :=
  entryAddress table (virtualAddress % (1024#32 * 4096#32) / 4096#32)

/-! ### The machine -/

/-- What is done to the page tables and to the cache of translations. -/
inductive PagingEvent where
  /-- An entry is stored. -/
  | store (address : PhysicalAddress) (entry : Entry)
  /-- `invlpg`. -/
  | invlpg (virtualAddress : VirtualAddress)
  /-- `pageCount` pages from `physicalAddress` on, which were mapped from `virtualAddress` on, are about
  to be given back to the physical allocator. -/
  | giveBack (virtualAddress : VirtualAddress) (physicalAddress : PhysicalAddress) (pageCount : SizeT)
  deriving DecidableEq

/-- Physical memory, the directory in use, and what has been done. -/
structure Machine where
  /-- The memory. -/
  mem : Foundations.Memory
  /-- The directory that the processor walks. -/
  cr3 : PhysicalAddress
  /-- The events so far, the last one last. -/
  trace : List PagingEvent

namespace Machine

/-- The word that the kernel reads at the pointer `x`. -/
def read (util : MemoryUtil) (m : Machine) (x : VirtualAddress) : BitVec 32 :=
  m.mem.load32 (util.kernelVirtualToPhysicalAddress x)

/-- The kernel stores a word at the pointer `x`. -/
def write (util : MemoryUtil) (m : Machine) (x : VirtualAddress) (entry : Entry) : Machine :=
  { m with
    mem := m.mem.store32 (util.kernelVirtualToPhysicalAddress x) entry
    trace := m.trace ++ [.store (util.kernelVirtualToPhysicalAddress x) entry] }

/-- A member function that assigns to `m_Entry`, called on the entry at the pointer `x`. -/
def update (util : MemoryUtil) (m : Machine) (x : VirtualAddress) (f : Entry → Entry) : Machine :=
  m.write util x (f (m.read util x))

/-- Something else happens. -/
def emit (m : Machine) (event : PagingEvent) : Machine := { m with trace := m.trace ++ [event] }

end Machine

/-! ### The manager -/

/-- `VirtualMemoryManager`. -/
structure VirtualMemoryManager where
  /-- `m_VirtualStartAddress`. -/
  virtualStartAddress : VirtualAddress
  /-- `&m_PageDirectory`. -/
  pageDirectory : VirtualAddress
  /-- `&m_PageTable0`. -/
  pageTable0 : VirtualAddress
  /-- `m_PageTables768`. -/
  pageTables768 : VirtualAddress
  deriving DecidableEq

namespace VirtualMemoryManager

variable (util : MemoryUtil) (vmm : VirtualMemoryManager)

/-- `PageDirectory::GetTable`, of `m_PageDirectory`. -/
def getTable (m : Machine) (virtualAddress : VirtualAddress) : VirtualAddress :=
  util.kernelPhysicalToVirtualAddress
    (PageDirectoryEntry.getAddress (m.read util (PageDirectory.getEntry vmm.pageDirectory virtualAddress)))

/-- `Init`, with the three `Memset`s on the image. The processor does not use these tables yet. -/
def init (bootInfo : BootInfo) (m : Machine) : Bool × VirtualMemoryManager × Machine :=
  let physical := util.kernelVirtualToPhysicalAddress
  let mem := memset m.mem (physical vmm.pageDirectory) 0#8 4096
  let mem := memset mem (physical vmm.pageTable0) 0#8 4096
  let mem := memset mem (physical vmm.pageTables768) 0#8 (256 * 4096)
  (true, { vmm with virtualStartAddress := bootInfo.kernelVirtualStartAddress }, { m with mem := mem })

/-- The directory entry that `Map` makes when there is none; `none` where it gives up. -/
def makeDirectoryEntry (m : Machine) (virtualAddress : VirtualAddress) (writable : Bool) : Option Machine :=
  let pageDirectoryIndex := virtualAddress / (1024#32 * 4096#32)
  let directoryEntry := PageDirectory.getEntry vmm.pageDirectory virtualAddress
  if !PageDirectoryEntry.isPresent (m.read util directoryEntry) then
    let addressed : Option Machine :=
      if pageDirectoryIndex = 0#32 then
        some (m.update util directoryEntry
          (PageDirectoryEntry.setAddress (util.kernelVirtualToPhysicalAddress vmm.pageTable0)))
      else if pageDirectoryIndex ≥ 768#32 ∧ pageDirectoryIndex ≤ 1023#32 then
        let tablesIndex := (virtualAddress - vmm.virtualStartAddress) / 0x400000#32
        some (m.update util directoryEntry
          (PageDirectoryEntry.setAddress
            (util.kernelVirtualToPhysicalAddress (vmm.pageTables768 + 4096#32 * tablesIndex))))
      else none
    match addressed with
    | none => none
    | some m =>
      let m := m.update util directoryEntry (PageDirectoryEntry.setWritable writable)
      some (m.update util directoryEntry (PageDirectoryEntry.setPresent true))
  else some m

/-- `Map`. -/
def map (m : Machine) (virtualAddress : VirtualAddress) (physicalAddress : PhysicalAddress) (writable : Bool) :
    Bool × Machine :=
  if !isAligned physicalAddress pageSize || !isAligned virtualAddress pageSize then (false, m)
  else
    let pageDirectoryIndex := virtualAddress / (1024#32 * 4096#32)
    if pageDirectoryIndex ≠ 0#32 ∧ (pageDirectoryIndex < 768#32 ∨ pageDirectoryIndex > 1023#32) then (false, m)
    else
      match vmm.makeDirectoryEntry util m virtualAddress writable with
      | none => (false, m)
      | some m =>
        let table := vmm.getTable util m virtualAddress
        if table = 0#32 then (false, m)
        else
          let tableEntry := PageTable.getEntry table virtualAddress
          if PageTableEntry.isPresent (m.read util tableEntry) then (false, m)
          else
            let m := m.update util tableEntry (PageTableEntry.setWritable writable)
            let m := m.update util tableEntry (PageTableEntry.setAddress physicalAddress)
            let m := m.update util tableEntry (PageTableEntry.setPresent true)
            (true, m)

/-- The loop of `MapRange`. -/
def mapLoop (writable : Bool) : ℕ → Machine → VirtualAddress → PhysicalAddress → Bool × Machine
  | 0, m, _, _ => (true, m)
  | count + 1, m, virtualAddress, physicalAddress =>
    match vmm.map util m virtualAddress physicalAddress writable with
    | (false, m) => (false, m)
    | (true, m) => mapLoop writable count m (virtualAddress + pageSize) (physicalAddress + pageSize)

/-- `MapRange`. -/
def mapRange (m : Machine) (virtualAddress : VirtualAddress) (physicalAddress : PhysicalAddress)
    (writable : Bool) (count : SizeT) : Bool × Machine :=
  vmm.mapLoop util writable count.toNat m virtualAddress physicalAddress

/-- `Unmap`. -/
def unmap (m : Machine) (virtualAddress : VirtualAddress) : Bool × Machine :=
  if !isAligned virtualAddress pageSize then (false, m)
  else
    let pageDirectoryIndex := virtualAddress / (1024#32 * 4096#32)
    if pageDirectoryIndex ≠ 0#32 ∧ (pageDirectoryIndex < 768#32 ∨ pageDirectoryIndex > 1023#32) then (false, m)
    else if !PageDirectoryEntry.isPresent (m.read util (PageDirectory.getEntry vmm.pageDirectory virtualAddress)) then
      (false, m)
    else
      let table := vmm.getTable util m virtualAddress
      if table = 0#32 then (false, m)
      else
        let tableEntry := PageTable.getEntry table virtualAddress
        if !PageTableEntry.isPresent (m.read util tableEntry) then (false, m)
        else (true, m.update util tableEntry PageTableEntry.clear)

/-- `FlushTLB`. -/
def flushTLB (m : Machine) (virtualAddress : VirtualAddress) : Machine := m.emit (.invlpg virtualAddress)

/-- The loop of `UnmapRange`. -/
def unmapLoop : ℕ → Machine → VirtualAddress → Bool × Machine
  | 0, m, _ => (true, m)
  | count + 1, m, virtualAddress =>
    match vmm.unmap util m virtualAddress with
    | (false, m) => (false, m)
    | (true, m) => unmapLoop count (flushTLB m virtualAddress) (virtualAddress + pageSize)

/-- `UnmapRange`. -/
def unmapRange (m : Machine) (virtualAddress : VirtualAddress) (count : SizeT) : Bool × Machine :=
  vmm.unmapLoop util count.toNat m virtualAddress

/-- `GetPhysicalAddress`. -/
def getPhysicalAddress (m : Machine) (virtualAddress : VirtualAddress) : PhysicalAddress :=
  if !isAligned virtualAddress pageSize then 0#32
  else
    let pageDirectoryIndex := virtualAddress / (1024#32 * 4096#32)
    if pageDirectoryIndex ≠ 0#32 ∧ (pageDirectoryIndex < 768#32 ∨ pageDirectoryIndex > 1023#32) then 0#32
    else if !PageDirectoryEntry.isPresent (m.read util (PageDirectory.getEntry vmm.pageDirectory virtualAddress)) then
      0#32
    else
      let table := vmm.getTable util m virtualAddress
      if table = 0#32 then 0#32
      else
        let tableEntry := PageTable.getEntry table virtualAddress
        if !PageTableEntry.isPresent (m.read util tableEntry) then 0#32
        else PageTableEntry.getAddress (m.read util tableEntry)

/-- Where `m_PageDirectory` is in physical memory. -/
def directoryAddress : PhysicalAddress := util.kernelVirtualToPhysicalAddress vmm.pageDirectory

/-- `ReloadPageDirectory`. -/
def reloadPageDirectory (m : Machine) : Machine := { m with cr3 := vmm.directoryAddress util }

end VirtualMemoryManager

end EagleOS.Memory
