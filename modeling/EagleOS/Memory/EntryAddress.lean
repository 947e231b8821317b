import EagleOS.Foundations.Fields
import EagleOS.Memory.VirtualMemoryManager

/-!
# `SetAddress` of an entry that has an address

`GetAddress` reads bits 12 to 31 of an entry. `SetAddress` clears bits 12 to 30 before it puts the new address in, so
that bit 31 is never cleared. `Map` sets the address of an entry only when the entry has none, where this makes no
difference.

## What is proved

* `getEntryAddress_setEntryAddress_iff`, `getLsbD_setAddresses` — one call, and what any number of them leaves in bit 31.
* `flags_setAddresses` — the flags stay as they were.
* `last_setAddress_wins_iff` — when the last address is the one of the entry.
-/

namespace EagleOS.Memory

open ESTD Foundations Arch

/-- `SetAddress` is called with each of the addresses. -/
def setAddresses (setAddress : PhysicalAddress → Entry → Entry) (addresses : List PhysicalAddress) (entry : Entry) : Entry :=
  addresses.foldl (fun entry address => setAddress address entry) entry

/-- After `SetAddress` of the addresses and then of `address`, `GetAddress` returns `address`, and the flags are those
that the entry had at first. -/
def LastAddressWins (getAddress : Entry → PhysicalAddress) (setAddress : PhysicalAddress → Entry → Entry) (entry : Entry)
    (addresses : List PhysicalAddress) (address : PhysicalAddress) : Prop :=
  getAddress (setAddress address (setAddresses setAddress addresses entry)) = address ∧
    setAddress address (setAddresses setAddress addresses entry) &&& 0xFFF#32 = entry &&& 0xFFF#32

/-- Bit 31 is set in the last address, or neither in the entry nor in the addresses before. -/
def HighBitFits (entry : Entry) (addresses : List PhysicalAddress) (address : PhysicalAddress) : Prop :=
  address.getLsbD 31 = true ∨ entry.getLsbD 31 = false ∧ ∀ a ∈ addresses, a.getLsbD 31 = false

variable {entry : Entry} {address : PhysicalAddress} {addresses : List PhysicalAddress}

/-- `SetAddress` puts the address into a field, without clearing all of it. -/
theorem setAddresses_eq (addresses : List PhysicalAddress) (entry : Entry) :
    setAddresses setEntryAddress addresses entry = putFields 0x7FFFF000#32 addresses entry := rfl

/-- After one call the address is read back, unless bit 31 was set and is not in the address. -/
theorem getEntryAddress_setEntryAddress_iff (haddress : address.toNat % 4096 = 0) :
    getEntryAddress (setEntryAddress address entry) = address ↔ (entry.getLsbD 31 = true → address.getLsbD 31 = true) := by
  have hread : readField (~~~0xFFF#32) address = address := and_frameMask haddress
  have hkept : ∀ i < 32, (~~~0xFFF#32).getLsbD i = true → (0x7FFFF000#32).getLsbD i = false → i = 31 := by decide
  refine (readField_putField_eq_iff hread).trans ⟨fun h => h 31 (by decide) rfl rfl, fun h i hi hmask hcleared => ?_⟩
  rw [hkept i hi hmask hcleared]
  exact h

/-- Bit 31 stays set once it has been. -/
theorem getLsbD_setAddresses : (setAddresses setEntryAddress addresses entry).getLsbD 31 = true ↔
    entry.getLsbD 31 = true ∨ ∃ a ∈ addresses, a.getLsbD 31 = true := by
  rw [setAddresses_eq]
  exact getLsbD_putFields (by decide) rfl

/-- The flags stay as they were. -/
theorem flags_setAddresses (haddresses : ∀ a ∈ addresses, a.toNat % 4096 = 0) :
    setAddresses setEntryAddress addresses entry &&& 0xFFF#32 = entry &&& 0xFFF#32 := by
  rw [setAddresses_eq]
  exact readField_putFields_of_disjoint (by decide) fun a ha => and_of_aligned (haddresses a ha) rfl

/-- The two kinds of entries have one `SetAddress` and one `GetAddress`. -/
theorem lastAddressWins_iff (haddress : address.toNat % 4096 = 0) (haddresses : ∀ a ∈ addresses, a.toNat % 4096 = 0) :
    LastAddressWins getEntryAddress setEntryAddress entry addresses address ↔ HighBitFits entry addresses address := by
  have hflags : setEntryAddress address (setAddresses setEntryAddress addresses entry) &&& 0xFFF#32 = entry &&& 0xFFF#32 :=
    (readField_putField_of_disjoint (by decide) (and_of_aligned haddress rfl)).trans (flags_setAddresses haddresses)
  rw [LastAddressWins, getEntryAddress_setEntryAddress_iff haddress, and_iff_left hflags, getLsbD_setAddresses, HighBitFits,
    imp_iff_or_not, not_or, Bool.not_eq_true]
  simp only [not_exists, not_and, Bool.not_eq_true]

/-- **`SetAddress`**: for both kinds of entries, whatever the entry is and however often its address has been set, the
last address of a page is the one that is read back, beside the first flags, exactly when bit 31 is set in it, or is set
neither in the entry nor in an address before. -/
theorem last_setAddress_wins_iff (entry : Entry) (addresses : List PhysicalAddress) (address : PhysicalAddress)
    (haddress : address.toNat % 4096 = 0) (haddresses : ∀ a ∈ addresses, a.toNat % 4096 = 0) :
    (LastAddressWins PageTableEntry.getAddress PageTableEntry.setAddress entry addresses address ↔
        HighBitFits entry addresses address) ∧
      (LastAddressWins PageDirectoryEntry.getAddress PageDirectoryEntry.setAddress entry addresses address ↔
        HighBitFits entry addresses address) :=
  ⟨lastAddressWins_iff haddress haddresses, lastAddressWins_iff haddress haddresses⟩

/-- From one frame above 2 GB to another. -/
theorem last_setAddress_wins_iff_high :
    LastAddressWins PageTableEntry.getAddress PageTableEntry.setAddress 0x80001003#32 [0x1000#32] 0x80002000#32 ∧
      ¬ LastAddressWins PageDirectoryEntry.getAddress PageDirectoryEntry.setAddress 0x3#32 [0x80001000#32] 0x2000#32 :=
  ⟨(last_setAddress_wins_iff 0x80001003#32 [0x1000#32] 0x80002000#32 (by decide) (by simp)).1.mpr (.inl rfl),
    mt (last_setAddress_wins_iff 0x3#32 [0x80001000#32] 0x2000#32 (by decide) (by simp)).2.mp (by simp [HighBitFits])⟩

/-- An entry for the frame at `0x80000000` cannot be given the one at `0x1000`. -/
theorem setAddress_keeps_high_bit :
    PageTableEntry.getAddress (PageTableEntry.setAddress 0x1000#32 0x80000003#32) = 0x80001000#32 ∧
      PageDirectoryEntry.getAddress (PageDirectoryEntry.setAddress 0x1000#32 0x80000003#32) = 0x80001000#32 ∧
      ¬ LastAddressWins PageTableEntry.getAddress PageTableEntry.setAddress 0x80000003#32 [] 0x1000#32 ∧
      ¬ LastAddressWins PageDirectoryEntry.getAddress PageDirectoryEntry.setAddress 0x80000003#32 [] 0x1000#32 :=
  ⟨rfl, rfl, fun h => absurd h.1 (by decide), fun h => absurd h.1 (by decide)⟩

end EagleOS.Memory
