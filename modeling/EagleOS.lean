import EagleOS.Foundations.Memory
import EagleOS.Foundations.Run
import EagleOS.Foundations.Fields
import EagleOS.Foundations.Ledger
import EagleOS.Foundations.TranslationCache
import EagleOS.Foundations.Tiling
import EagleOS.Foundations.Linked
import EagleOS.Foundations.Segments
import EagleOS.ESTD.Bitmap
import EagleOS.ESTD.BitmapSet
import EagleOS.ESTD.Basic
import EagleOS.Foundations.Buffers
import EagleOS.Foundations.Ownership
import EagleOS.Foundations.Comparison
import EagleOS.ESTD.CString
import EagleOS.ESTD.CStringCompare
import EagleOS.ESTD.Strtok
import EagleOS.ESTD.CStringSearch
import EagleOS.ESTD.TypeConverter
import EagleOS.ESTD.String
import EagleOS.ESTD.StringOwnership
import EagleOS.ESTD.StringContents
import EagleOS.ESTD.StringOperators
import EagleOS.ESTD.StringPrograms
import EagleOS.ESTD.StringUtil
import EagleOS.Boot.BootInfo
import EagleOS.Arch.Paging
import EagleOS.Memory.PhysicalMemoryManager
import EagleOS.Memory.PhysicalMemoryClients
import EagleOS.Memory.PhysicalMemoryInit
import EagleOS.Memory.PhysicalMemoryRegions
import EagleOS.Memory.VirtualMemoryManager
import EagleOS.Memory.PageTables
import EagleOS.Memory.MapCalls
import EagleOS.Memory.PageMap
import EagleOS.Memory.MapRanges
import EagleOS.Memory.PagePermissions
import EagleOS.Memory.RangeCalls
import EagleOS.Memory.EntryAddress
import EagleOS.Memory.TableSlots
import EagleOS.Memory.KernelTables
import EagleOS.Arch.BootAsm
import EagleOS.Arch.BootEntry
import EagleOS.Foundations.Records
import EagleOS.Boot.Multiboot
import EagleOS.Arch.ISR
import EagleOS.Arch.Descriptors
import EagleOS.Arch.Exceptions
import EagleOS.Arch.PIC8259
import EagleOS.Memory.VirtualMemoryAllocator
import EagleOS.Memory.VirtualMemoryClients
import EagleOS.Memory.KernelCalls
import EagleOS.Memory.AllocateFree
import EagleOS.Memory.VirtualMemoryWindow
import EagleOS.Memory.VirtualMemoryFailures
import EagleOS.Memory.VirtualMemoryFrames
import EagleOS.Foundations.Cells
import EagleOS.Memory.TableStores
import EagleOS.Memory.VirtualMemoryContents
import EagleOS.Memory.TLB
import EagleOS.Memory.Heap
import EagleOS.Memory.HeapBlocks
import EagleOS.Memory.HeapClients
import EagleOS.Memory.HeapTermination
import EagleOS.Memory.HeapFirstFit
import EagleOS.Memory.HeapCoalescing
import EagleOS.Memory.KMalloc
import EagleOS.Memory.HeapBuffers
import EagleOS.Memory.HeapStrings
import EagleOS.Memory.HeapPages
import EagleOS.Memory.InitMemoryManager
import EagleOS.Foundations.Terminal
import EagleOS.Drivers.VGA
import EagleOS.Drivers.VGATerminal
import EagleOS.Drivers.VGAStrings
import EagleOS.Drivers.VGACalls
import EagleOS.Drivers.VGATrace
import EagleOS.Drivers.VGACursor
import EagleOS.Foundations.Ports
import EagleOS.Drivers.ATA
import EagleOS.Drivers.ATADrives
import EagleOS.Drivers.ATADisks
import EagleOS.Drivers.ATAIdentify
import EagleOS.Drivers.ATADevice
import EagleOS.Drivers.ATAOutOfRange
import EagleOS.Kern.KPrintf
