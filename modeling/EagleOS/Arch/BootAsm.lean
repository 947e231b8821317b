import EagleOS.Memory.KernelTables

/-!
# The tables that `Boot.asm` builds

Before the kernel's C++ runs, the boot code builds a directory and two tables of its own, in two loops
over 1024 entries, loads the directory and turns paging on. Later `InitVirtualMemoryManager` replaces
them. This module shows that the two agree.

## The model

`BootState` is the registers that the code uses and physical memory. The loops run while `jl` jumps;
the argument of `identityMap` and `mapPages` bounds the number of iterations, and they answer `none`
when it is used up. The directory and the tables lie one after the other in `.boot.data`, which is
loaded with zeros.

## What is proved

* `mapEntries_spec` — a loop fills its table from where it starts, in 1024 iterations at most.
* `kernelstart_walk` — the walk through the boot tables finds `startTranslation`.
* `start_tables_agree` — so it finds the same as the walk through the kernel's tables.
-/

namespace EagleOS.Arch

open ESTD Boot Foundations EagleOS.Memory

/-- The registers of the boot code, and physical memory. -/
structure BootState where
  /-- `eax`. -/
  eax : BitVec 32
  /-- `ebx`. -/
  ebx : BitVec 32
  /-- `ecx`. -/
  ecx : BitVec 32
  /-- `edx`. -/
  edx : BitVec 32
  /-- `cr0`. -/
  cr0 : BitVec 32
  /-- `cr3`. -/
  cr3 : PhysicalAddress
  /-- The memory. -/
  mem : Foundations.Memory

/-- The body of the loops `_identity_map` and `_map_pages`, which differ in the table they fill. -/
def mapEntry (table : PhysicalAddress) (s : BootState) : BootState :=
  let s := { s with eax := s.edx }
  let s := { s with eax := s.eax ||| 0x003#32 }
  let s := { s with mem := s.mem.store32 (table + s.ecx * 4#32) s.eax }
  let s := { s with ebx := s.ebx + 0x1000#32 }
  let s := { s with edx := s.edx + 0x1000#32 }
  { s with ecx := s.ecx + 1#32 }

/-- The loop: `cmp ecx, 1024` and `jl`. -/
def mapEntries (table : PhysicalAddress) : ℕ → BootState → Option BootState
  | 0, _ => none
  | fuel + 1, s =>
    let s := mapEntry table s
    if s.ecx.slt 1024#32 then mapEntries table fuel s else some s

/-- `_identity_map`, which fills `_boot_page_table0`. -/
def identityMap (bootPageDirectory : PhysicalAddress) : ℕ → BootState → Option BootState :=
  mapEntries (bootPageDirectory + 4096#32)

/-- `_map_pages`, which fills `_boot_page_table768`. -/
def mapPages (bootPageDirectory : PhysicalAddress) : ℕ → BootState → Option BootState :=
  mapEntries (bootPageDirectory + 8192#32)

/-- `_kernelstart`, from the first loop to where paging is on, with `_boot_page_directory` at
`bootPageDirectory` and the two tables after it. -/
def kernelstart (bootPageDirectory : PhysicalAddress) (fuel : ℕ) (s : BootState) : Option BootState :=
  let s := { s with ecx := 0#32, ebx := 0x0#32, edx := 0x0#32 }
  match identityMap bootPageDirectory fuel s with
  | none => none
  | some s =>
    let s := { s with ecx := 0#32, ebx := 0xC0000000#32, edx := 0x200000#32 }
    match mapPages bootPageDirectory fuel s with
    | none => none
    | some s =>
      let s := { s with eax := bootPageDirectory + 4096#32 }
      let s := { s with eax := s.eax ||| 0x003#32 }
      let s := { s with mem := s.mem.store32 bootPageDirectory s.eax }
      let s := { s with eax := bootPageDirectory + 8192#32 }
      let s := { s with eax := s.eax ||| 0x003#32 }
      let s := { s with mem := s.mem.store32 (bootPageDirectory + 768#32 * 4#32) s.eax }
      let s := { s with eax := bootPageDirectory }
      let s := { s with cr3 := s.eax }
      let s := { s with eax := s.cr0 }
      let s := { s with eax := s.eax ||| 0x80000000#32 }
      some { s with cr0 := s.eax }

/-! ### The loops -/

section

variable {table : PhysicalAddress} {s : BootState}

/-- The loop's body fills the entry that `ecx` names. -/
theorem load32_mapEntry (ht : Aligned table) (hs : s.ecx.toNat < 1024) {base i : BitVec 32} (hb : Aligned base)
    (hi : i.toNat < 1024) :
    (mapEntry table s).mem.load32 (entryAddress base i) =
      if base = table ∧ i.toNat = s.ecx.toNat then entryFor s.edx else s.mem.load32 (entryAddress base i) := by
  have haddr : table + s.ecx * 4#32 = entryAddress table s.ecx := by rw [entryAddress, BitVec.mul_comm]
  change (s.mem.store32 (table + s.ecx * 4#32) (entryFor s.edx)).load32 _ = _
  rw [haddr]
  split
  · rename_i h
    rw [h.1, BitVec.eq_of_toNat_eq h.2, Memory.load32_store32]
  · rename_i h
    rw [BitVec.toNat_inj] at h
    exact Memory.load32_store32_of_disjoint (disjoint_entries hb ht hi hs (not_and_or.mp h))

/-- A small number is below 1024 for `jl` when it is below 1024. -/
theorem slt_1024 {k : ℕ} (hk : k ≤ 1024) : (BitVec.ofNat 32 k).slt 1024#32 = decide (k < 1024) := by
  have hn : (BitVec.ofNat 32 k).toNat = k := by rw [BitVec.toNat_ofNat, Nat.mod_eq_of_lt (by omega)]
  have hi : (BitVec.ofNat 32 k).toInt = k := by rw [BitVec.toInt_eq_toNat_of_lt (by omega), hn]
  rw [BitVec.slt, hi, show (1024#32).toInt = ((1024 : ℕ) : ℤ) from rfl]
  exact decide_eq_decide.mpr Int.ofNat_lt

/-- The loop's body moves on to the next entry and the next page. -/
theorem mapEntry_next (table : PhysicalAddress) {k : ℕ} {p : PhysicalAddress} (hecx : s.ecx = BitVec.ofNat 32 k)
    (hedx : s.edx = pageAt p k) :
    (mapEntry table s).ecx = BitVec.ofNat 32 (k + 1) ∧ (mapEntry table s).edx = pageAt p (k + 1) := by
  refine ⟨?_, ?_⟩
  · change s.ecx + 1#32 = _
    rw [hecx, BitVec.ofNat_add]
  · change s.edx + 0x1000#32 = _
    rw [hedx, ← BitVec.toNat_inj, BitVec.toNat_add, pageAt_toNat, pageAt_toNat, show (0x1000#32).toNat = 4096 from rfl]
    omega

/-- **The loops**: from entry `k` on, a loop fills the table in at most 1024 iterations, with the pages
that start at `p`, and touches no other table. -/
theorem mapEntries_spec (ht : Aligned table) (p : PhysicalAddress) (n : ℕ) :
    ∀ {f k : ℕ} {s : BootState}, k + n + 1 = 1024 → n < f → s.ecx = BitVec.ofNat 32 k → s.edx = pageAt p k →
      ∃ s', mapEntries table f s = some s' ∧
        ∀ {base i : BitVec 32}, Aligned base → i.toNat < 1024 → s'.mem.load32 (entryAddress base i) =
          if base = table ∧ k ≤ i.toNat then entryFor (pageAt p i.toNat) else s.mem.load32 (entryAddress base i) := by
  induction n with
  | zero =>
    intro fuel k s hk hfuel hecx hedx
    obtain ⟨fuel, rfl⟩ := Nat.exists_eq_succ_of_ne_zero (Nat.ne_of_gt hfuel)
    have hkn : s.ecx.toNat = k := by rw [hecx, BitVec.toNat_ofNat]; omega
    refine ⟨mapEntry table s, ?_, fun {base i} hb hi => ?_⟩
    · rw [mapEntries, (mapEntry_next table hecx hedx).1, slt_1024 (by omega), decide_eq_false (by omega)]
      rfl
    · -- the last entry
      rw [load32_mapEntry ht (by omega) hb hi, hkn, hedx]
      by_cases h : base = table ∧ k ≤ i.toNat
      · have hik : i.toNat = k := by omega
        rw [if_pos ⟨h.1, hik⟩, if_pos h, hik]
      · rw [if_neg fun h' => h ⟨h'.1, h'.2.ge⟩, if_neg h]
  | succ n ih =>
    intro fuel k s hk hfuel hecx hedx
    obtain ⟨fuel, rfl⟩ := Nat.exists_eq_succ_of_ne_zero (by omega : fuel ≠ 0)
    have hkn : s.ecx.toNat = k := by rw [hecx, BitVec.toNat_ofNat]; omega
    obtain ⟨hecx', hedx'⟩ := mapEntry_next table hecx hedx
    obtain ⟨s', hs', hmem⟩ := ih (k := k + 1) (f := fuel) (by omega) (by omega) hecx' hedx'
    refine ⟨s', ?_, fun {base i} hb hi => ?_⟩
    · rw [mapEntries, hecx', slt_1024 (by omega), decide_eq_true (by omega)]
      exact hs'
    · rw [hmem hb hi, load32_mapEntry ht (by omega) hb hi, hedx, hkn]
      by_cases hbase : base = table
      · simp only [hbase, true_and]
        by_cases hki : k + 1 ≤ i.toNat
        · rw [if_pos hki, if_pos (by omega)]
        · rw [if_neg hki]
          by_cases he : i.toNat = k
          · rw [if_pos he, if_pos (by omega), he]
          · rw [if_neg he, if_neg (by omega)]
      · simp only [hbase, false_and, if_false]

end

/-! ### The boot tables -/

section

variable {dir : PhysicalAddress}

/-- The words of the boot directory and of its two tables. -/
structure BootTables (dir : PhysicalAddress) (mem : Foundations.Memory) : Prop where
  directory : ∀ i : BitVec 32, i.toNat < 1024 → mem.load32 (entryAddress dir i) =
    if i = 768#32 then entryFor (dir + 8192#32) else if i = 0#32 then entryFor (dir + 4096#32) else 0#32
  table0 : ∀ i : BitVec 32, i.toNat < 1024 →
    mem.load32 (entryAddress (dir + 4096#32) i) = entryFor (pageAt 0#32 i.toNat)
  table768 : ∀ i : BitVec 32, i.toNat < 1024 →
    mem.load32 (entryAddress (dir + 8192#32) i) = entryFor (pageAt 0x200000#32 i.toNat)

/-- The directory and the tables lie one after the other. -/
theorem toNat_tables (hend : dir.toNat + 3 * 4096 ≤ 2 ^ 32) :
    (dir + 4096#32).toNat = dir.toNat + 4096 ∧ (dir + 8192#32).toNat = dir.toNat + 8192 := by
  simp only [BitVec.toNat_add, BitVec.toNat_ofNat]
  omega

/-- `_kernelstart` gets past its loops, fills the directory and the tables, and loads the directory. -/
theorem kernelstart_tables (hdir : Aligned dir) (hend : dir.toNat + 3 * 4096 ≤ 2 ^ 32) {fuel : ℕ} (hfuel : 1024 ≤ fuel)
    {s : BootState} (hzero : ∀ i : BitVec 32, i.toNat < 1024 → s.mem.load32 (entryAddress dir i) = 0#32) :
    ∃ s', kernelstart dir fuel s = some s' ∧ s'.cr3 = dir ∧ BootTables dir s'.mem := by
  obtain ⟨ht0, ht768⟩ := toNat_tables hend
  have hal0 : Aligned (dir + 4096#32) := by rw [Aligned] at hdir ⊢; omega
  have hal768 : Aligned (dir + 8192#32) := by rw [Aligned] at hdir ⊢; omega
  obtain ⟨s₁, h₁, hm₁⟩ := mapEntries_spec hal0 0#32 1023 (f := fuel) (k := 0)
    (s := { s with ecx := 0#32, ebx := 0x0#32, edx := 0x0#32 }) rfl (by omega) rfl (pageAt_zero _).symm
  obtain ⟨s₂, h₂, hm₂⟩ := mapEntries_spec hal768 0x200000#32 1023 (f := fuel) (k := 0)
    (s := { s₁ with ecx := 0#32, ebx := 0xC0000000#32, edx := 0x200000#32 }) rfl (by omega) rfl (pageAt_zero _).symm
  obtain ⟨s', hs', hcr3, hmem⟩ : ∃ s', kernelstart dir fuel s = some s' ∧ s'.cr3 = dir ∧
      s'.mem = (s₂.mem.store32 (entryAddress dir 0#32) (entryFor (dir + 4096#32))).store32 (entryAddress dir 768#32)
        (entryFor (dir + 8192#32)) := by
    simp only [kernelstart, identityMap, mapPages, h₁, h₂, Option.some.injEq, exists_eq_left', true_and]
    rw [show entryAddress dir 0#32 = dir by rw [entryAddress, BitVec.mul_zero, BitVec.add_zero]]
    rfl
  have hne0 : dir ≠ dir + 4096#32 := fun h => by rw [← h] at ht0; omega
  have hne768 : dir ≠ dir + 8192#32 := fun h => by rw [← h] at ht768; omega
  have hne : dir + 4096#32 ≠ dir + 8192#32 := fun h => by rw [h] at ht0; omega
  have htable : ∀ {base i : BitVec 32}, Aligned base → base ≠ dir → i.toNat < 1024 →
      s'.mem.load32 (entryAddress base i) = s₂.mem.load32 (entryAddress base i) := by
    intro base i hb hbase hi
    rw [hmem, Memory.load32_store32_of_disjoint (disjoint_entries hb hdir hi (by decide) (.inl hbase)),
      Memory.load32_store32_of_disjoint (disjoint_entries hb hdir hi (by decide) (.inl hbase))]
  refine ⟨s', hs', hcr3, fun i hi => ?_, fun i hi => ?_, fun i hi => ?_⟩
  · -- the two words that are stored last, and the others
    rw [hmem]
    split
    · rename_i h; rw [h, Memory.load32_store32]
    · rename_i h
      rw [Memory.load32_store32_of_disjoint (disjoint_entries hdir hdir hi (by decide) (.inr h))]
      split
      · rename_i h0; rw [h0, Memory.load32_store32]
      · rename_i h0
        rw [Memory.load32_store32_of_disjoint (disjoint_entries hdir hdir hi (by decide) (.inr h0)), hm₂ hdir hi,
          if_neg fun h => hne768 h.1]
        change s₁.mem.load32 _ = _
        rw [hm₁ hdir hi, if_neg fun h => hne0 h.1]
        exact hzero i hi
  · rw [htable hal0 hne0.symm hi, hm₂ hal0 hi, if_neg fun h => hne h.1]
    change s₁.mem.load32 _ = _
    rw [hm₁ hal0 hi, if_pos ⟨rfl, Nat.zero_le _⟩]
  · rw [htable hal768 hne768.symm hi, hm₂ hal768 hi, if_pos ⟨rfl, Nat.zero_le _⟩]

/-- The walk through these words. -/
theorem BootTables.walk {mem : Foundations.Memory} (h : BootTables dir mem) (hdir : Aligned dir)
    (hend : dir.toNat + 3 * 4096 ≤ 2 ^ 32) {v : VirtualAddress} (hv : Aligned v) :
    Arch.walk mem dir v = startTranslation v := by
  obtain ⟨ht0, ht768⟩ := toNat_tables hend
  have hal0 : Aligned (dir + 4096#32) := by rw [Aligned] at hdir ⊢; omega
  have hal768 : Aligned (dir + 8192#32) := by rw [Aligned] at hdir ⊢; omega
  rw [Arch.walk, h.directory _ (directoryIndex_lt v), startTranslation]
  have hidx := directoryIndex_toNat v
  have htab := tableIndex_toNat v
  have halign : v.toNat % 4096 = 0 := hv
  by_cases h768 : directoryIndex v = 768#32
  · have hrange : v.toNat / 0x400000 = 768 := by rw [← hidx, h768]; rfl
    have hframe : pageAt 0x200000#32 (tableIndex v).toNat = v - 0xC0000000#32 + 0x200000#32 := by
      rw [← BitVec.toNat_inj, pageAt_toNat, BitVec.toNat_add, BitVec.toNat_sub, htab,
        show (0x200000#32).toNat = 0x200000 from rfl, show (0xC0000000#32).toNat = 0xC0000000 from rfl]
      omega
    simp only [if_pos h768, present_entryFor, writable_entryFor, if_true, frame_entryFor hal768,
      h.table768 _ (tableIndex_lt v)]
    rw [decode_entryFor (aligned_pageAt (by decide) _), hframe, if_neg (by omega), if_pos (by omega)]
  by_cases h0 : directoryIndex v = 0#32
  · have hrange : v.toNat / 0x400000 = 0 := by rw [← hidx, h0]; rfl
    have hframe : pageAt 0#32 (tableIndex v).toNat = v := by
      rw [← BitVec.toNat_inj, pageAt_toNat, htab, show (0#32).toNat = 0 from rfl]
      omega
    simp only [if_neg h768, if_pos h0, present_entryFor, writable_entryFor, if_true, frame_entryFor hal0,
      h.table0 _ (tableIndex_lt v)]
    rw [decode_entryFor (aligned_pageAt (by decide) _), hframe, if_pos (by omega)]
  · have hr768 : v.toNat / 0x400000 ≠ 768 := fun h => h768 (BitVec.eq_of_toNat_eq (hidx.trans h))
    have hr0 : v.toNat / 0x400000 ≠ 0 := fun h => h0 (BitVec.eq_of_toNat_eq (hidx.trans h))
    have hnp : Entry.present 0#32 = false := rfl
    simp only [if_neg h768, if_neg h0, hnp, Bool.false_eq_true, if_false]
    rw [if_neg (by omega), if_neg (by omega)]

/-- **The boot tables**: `_kernelstart` gets past its loops, and the walk through the tables it loads
finds the first 4 MB, the first 4 MB of the kernel, and nothing else. -/
theorem kernelstart_walk (hdir : Aligned dir) (hend : dir.toNat + 3 * 4096 ≤ 2 ^ 32) {fuel : ℕ} (hfuel : 1024 ≤ fuel)
    {s : BootState} (hzero : ∀ i : BitVec 32, i.toNat < 1024 → s.mem.load32 (entryAddress dir i) = 0#32) :
    ∃ s', kernelstart dir fuel s = some s' ∧ ∀ v, Aligned v → walk s'.mem s'.cr3 v = startTranslation v := by
  obtain ⟨s', hs', hcr3, htables⟩ := kernelstart_tables hdir hend hfuel hzero
  exact ⟨s', hs', fun v hv => by rw [hcr3, htables.walk hdir hend hv]⟩

/-- **The kernel's tables and the boot tables agree**: for every image of at most 4 MB where the linker
script puts it, `InitVirtualMemoryManager` succeeds, and the directory it loads translates every page as
the directory that `Boot.asm` loads does: the first 4 MB to themselves and the first 4 MB from
`0xC0000000` on to those from `0x200000` on, both writable, and no other page. -/
theorem start_tables_agree (bootInfo : BootInfo) (vmm : VirtualMemoryManager) (dir : PhysicalAddress)
    (h : InImage (MemoryUtil.init bootInfo) vmm bootInfo.kernelSize.toNat)
    (hps : bootInfo.kernelPhysicalStartAddress = 0x200000#32)
    (hpe : bootInfo.kernelPhysicalEndAddress = 0x200000#32 + bootInfo.kernelSize)
    (hsize : bootInfo.kernelSize.toNat ≤ 0x400000) (m : Machine)
    (hdir : Aligned dir) (hend : dir.toNat + 3 * 4096 ≤ 2 ^ 32) (s : BootState)
    (hzero : ∀ i : BitVec 32, i.toNat < 1024 → s.mem.load32 (entryAddress dir i) = 0#32) :
    ∃ vmm' m' s', initVirtualMemoryManager (MemoryUtil.init bootInfo) vmm bootInfo m = (true, vmm', m') ∧
      kernelstart dir 1024 s = some s' ∧
      ∀ v, Aligned v → walk m'.mem m'.cr3 v = walk s'.mem s'.cr3 v ∧ walk m'.mem m'.cr3 v = startTranslation v := by
  obtain ⟨vmm', m', hinit, hwalk⟩ := initVirtualMemoryManager_walk h hps hpe hsize m
  obtain ⟨s', hs', hboot⟩ := kernelstart_walk hdir hend le_rfl hzero
  exact ⟨vmm', m', s', hinit, hs', fun v hv => ⟨(hwalk v hv).trans (hboot v hv).symm, hwalk v hv⟩⟩

/-- On the machine with 512 MB, with the boot tables at the second page of `.boot.data`. -/
theorem start_tables_agree_vmm512 :
    ∃ vmm' m' s', initVirtualMemoryManager (MemoryUtil.init bootInfo512) vmm512 bootInfo512
        ⟨fun _ => 0#8, 0#32, []⟩ = (true, vmm', m') ∧
      kernelstart 0x101000#32 1024 ⟨0#32, 0#32, 0#32, 0#32, 0#32, 0#32, fun _ => 0#8⟩ = some s' ∧
      walk m'.mem m'.cr3 0xC0001000#32 = some ⟨0x201000#32, true⟩ := by
  have hzero : ∀ a, Memory.load32 (fun _ => 0#8) a = 0#32 := fun a => by simp [Memory.load32]
  obtain ⟨vmm', m', s', hinit, hs', hwalk⟩ := start_tables_agree bootInfo512 vmm512 0x101000#32 inImage_vmm512
    (by decide) (by decide) (by decide) ⟨fun _ => 0#8, 0#32, []⟩ (by decide) (by decide)
    ⟨0#32, 0#32, 0#32, 0#32, 0#32, 0#32, fun _ => 0#8⟩ (fun i _ => hzero _)
  exact ⟨vmm', m', s', hinit, hs', (hwalk _ (by decide)).2.trans (by decide)⟩

end

end EagleOS.Arch
