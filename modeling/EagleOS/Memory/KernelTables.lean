import EagleOS.Memory.MapRanges

/-!
# `InitVirtualMemoryManager`

What the kernel maps at its start (`Kernel.cpp`): the first 4 MB to themselves, its image at its virtual
address, and what is left of the image's first 4 MB.

## What is proved

* `mapRange_entry` — the words of the tables after a `MapRange` that succeeded and does not wrap.
* `initVirtualMemoryManager_maps` — whenever it succeeds, for any boot record, the first 4 MB and the
  first 4 MB from `0xC0000000` on are mapped.
* `initVirtualMemoryManager_walk` — for an image of at most 4 MB where the linker script puts it, it
  succeeds, and the walk finds these pages and no others.
-/

namespace EagleOS.Memory

open ESTD Boot Foundations Arch VirtualMemoryManager

/-- The three `MapRange`s of `InitVirtualMemoryManager`, and `ReloadPageDirectory`. -/
def mapKernel (util : MemoryUtil) (vmm : VirtualMemoryManager) (bootInfo : BootInfo) (m : Machine) : Bool × Machine :=
  let bootloaderPageCount := 0x400000#32 / pageSize
  match vmm.mapRange util m 0#32 0#32 true bootloaderPageCount with
  | (false, m) => (false, m)
  | (true, m) =>
    let kernelPhysicalStartAddressPageNumber := bootInfo.kernelPhysicalStartAddress / pageSize
    let kernelPhysicalEndAddressPageNumber := bootInfo.kernelPhysicalEndAddress / pageSize
    let kernelPageCount := kernelPhysicalEndAddressPageNumber - kernelPhysicalStartAddressPageNumber
    match vmm.mapRange util m bootInfo.kernelVirtualStartAddress bootInfo.kernelPhysicalStartAddress true
        kernelPageCount with
    | (false, m) => (false, m)
    | (true, m) =>
      let pageTablePageCount := 0x400000#32 / pageSize
      if kernelPageCount < pageTablePageCount then
        match vmm.mapRange util m (bootInfo.kernelVirtualStartAddress + kernelPageCount * pageSize)
            (bootInfo.kernelPhysicalStartAddress + kernelPageCount * pageSize) true
            (pageTablePageCount - kernelPageCount) with
        | (false, m) => (false, m)
        | (true, m) => (true, vmm.reloadPageDirectory util m)
      else (true, vmm.reloadPageDirectory util m)

/-- `InitVirtualMemoryManager`. -/
def initVirtualMemoryManager (util : MemoryUtil) (vmm : VirtualMemoryManager) (bootInfo : BootInfo) (m : Machine) :
    Bool × VirtualMemoryManager × Machine :=
  match vmm.init util bootInfo m with
  | (false, vmm, m) => (false, vmm, m)
  | (true, vmm, m) => ((mapKernel util vmm bootInfo m).1, vmm, (mapKernel util vmm bootInfo m).2)

section

variable {util : MemoryUtil} {vmm : VirtualMemoryManager} {m : Machine} {v : VirtualAddress} {p : PhysicalAddress}

/-- The pages of a range that does not wrap are the addresses between its ends. -/
theorem inPages_iff (hv : Aligned v) {n : ℕ} (hend : v.toNat + 4096 * n ≤ 2 ^ 32) {x : VirtualAddress} :
    InPages v n x ↔ v.toNat ≤ x.toNat ∧ x.toNat < v.toNat + 4096 * n := by
  rw [Aligned] at hv
  have hpage : ∀ i < n, SamePage (pageAt v i) x ↔ x.toNat / 4096 = v.toNat / 4096 + i := by
    intro i hi
    rw [SamePage, pageAt_toNat]
    omega
  constructor
  · rintro ⟨i, hi, hs⟩
    have := (hpage i hi).mp hs
    omega
  · rintro ⟨hlow, hhigh⟩
    exact ⟨x.toNat / 4096 - v.toNat / 4096, by omega, (hpage _ (by omega)).mpr (by omega)⟩

/-- The words of the tables after a `MapRange` that succeeded and does not wrap. -/
theorem mapRange_entry {n : ℕ} {r : Bool × Machine} (h : MapRangeSpec util vmm m v p n r) (hr : r.1 = true)
    (hv : Aligned v) (hend : v.toNat + 4096 * n ≤ 2 ^ 32) {x : VirtualAddress} (hx : Aligned x) :
    vmm.entryAt util r.2.mem x =
      if v.toNat ≤ x.toNat ∧ x.toNat < v.toNat + 4096 * n then entryFor (p + (x - v))
      else vmm.entryAt util m.mem x := by
  split
  · rename_i hin
    obtain ⟨i, hi, hs⟩ := (inPages_iff hv hend).mpr hin
    obtain rfl := (samePage_iff_eq (aligned_pageAt hv i) hx).mp hs
    rw [(h.mapped hr i hi).2.2.2.2]
    congr 1
    rw [pageAt, pageAt, BitVec.add_comm v, BitVec.add_sub_cancel]
  · rename_i hout
    exact h.frame x (mt (inPages_iff hv hend).mp hout)

end

/-- What the kernel starts with: the first 4 MB are mapped to themselves, the first 4 MB from
`0xC0000000` on to those from `0x200000` on, and nothing else. -/
def startTranslation (v : VirtualAddress) : Option Translation :=
  if v.toNat < 0x400000 then some ⟨v, true⟩
  else if 0xC0000000 ≤ v.toNat ∧ v.toNat < 0xC0400000 then some ⟨v - 0xC0000000#32 + 0x200000#32, true⟩
  else none

/-! ### The three ranges -/

section

variable {util : MemoryUtil} {vmm : VirtualMemoryManager} {bootInfo : BootInfo} {m : Machine}

/-- Page `j` after the first `k`. -/
theorem pageAt_add (v k : BitVec 32) (j : ℕ) : pageAt (v + k * pageSize) j = pageAt v (k.toNat + j) := by
  rw [← BitVec.toNat_inj, pageAt_toNat, pageAt_toNat, BitVec.toNat_add, BitVec.toNat_mul,
    show pageSize.toNat = 4096 from rfl]
  omega

/-- The number of whole pages of the image. -/
def kernelPageCount (bootInfo : BootInfo) : SizeT :=
  bootInfo.kernelPhysicalEndAddress / pageSize - bootInfo.kernelPhysicalStartAddress / pageSize

/-- How many pages are left of the 1024 that start with `k`. -/
def restPageCount (k : SizeT) : SizeT := if k < 1024#32 then 1024#32 - k else 0#32

theorem restPageCount_toNat (k : SizeT) : (restPageCount k).toNat = 1024 - k.toNat := by
  rw [restPageCount]
  split
  · rename_i hlt
    rw [BitVec.toNat_sub_of_le (BitVec.le_of_lt hlt)]
    rfl
  · rename_i hle
    rw [BitVec.not_lt, BitVec.le_def] at hle
    exact (Nat.sub_eq_zero_of_le hle).symm

/-- When `mapKernel` succeeds: when all three ranges can be mapped, the last of which may be empty. -/
theorem mapKernel_iff {m' : Machine} : mapKernel util vmm bootInfo m = (true, m') ↔
    ∃ m₁ m₂ m₃, vmm.mapRange util m 0#32 0#32 true 1024#32 = (true, m₁) ∧
      vmm.mapRange util m₁ bootInfo.kernelVirtualStartAddress bootInfo.kernelPhysicalStartAddress true
        (kernelPageCount bootInfo) = (true, m₂) ∧
      vmm.mapRange util m₂ (bootInfo.kernelVirtualStartAddress + kernelPageCount bootInfo * pageSize)
        (bootInfo.kernelPhysicalStartAddress + kernelPageCount bootInfo * pageSize) true
        (restPageCount (kernelPageCount bootInfo)) = (true, m₃) ∧
      m' = vmm.reloadPageDirectory util m₃ := by
  have hcount : 0x400000#32 / pageSize = 1024#32 := by decide
  have hnone : ∀ m v p, vmm.mapRange util m v p true 0#32 = (true, m) := fun _ _ _ => rfl
  have hpages : bootInfo.kernelPhysicalEndAddress / pageSize - bootInfo.kernelPhysicalStartAddress / pageSize =
      kernelPageCount bootInfo := rfl
  simp only [mapKernel, hcount, hpages]
  rcases vmm.mapRange util m 0#32 0#32 true 1024#32 with ⟨_ | _, m₁⟩
  · simp
  simp only [Prod.mk.injEq, true_and, exists_and_left, exists_eq_left']
  rcases vmm.mapRange util m₁ bootInfo.kernelVirtualStartAddress bootInfo.kernelPhysicalStartAddress true
    (kernelPageCount bootInfo) with ⟨_ | _, m₂⟩
  · simp
  simp only [Prod.mk.injEq, true_and, exists_eq_left', restPageCount]
  by_cases hk : kernelPageCount bootInfo < 1024#32
  · simp only [if_pos hk]
    rcases vmm.mapRange util m₂ (bootInfo.kernelVirtualStartAddress + kernelPageCount bootInfo * pageSize)
      (bootInfo.kernelPhysicalStartAddress + kernelPageCount bootInfo * pageSize) true
      (1024#32 - kernelPageCount bootInfo) with ⟨_ | _, m₃⟩
    · simp
    · simp only [Prod.mk.injEq, true_and, exists_eq_left']
      exact eq_comm
  · simp only [if_neg hk, hnone, Prod.mk.injEq, true_and, exists_eq_left']
    exact eq_comm

/-- Whenever `mapKernel` succeeds, the first 4 MB and those from `0xC0000000` on are mapped. -/
theorem mapKernel_maps {m' : Machine} (hL : Layout util vmm) (hT : Tables util vmm m.mem)
    (hvs : bootInfo.kernelVirtualStartAddress = 0xC0000000#32)
    (hok : mapKernel util vmm bootInfo m = (true, m')) :
    Tables util vmm m'.mem ∧ m'.cr3 = vmm.directoryAddress util ∧
      ∀ i < 1024, vmm.entryAt util m'.mem (pageAt 0#32 i) ≠ 0#32 ∧
        vmm.entryAt util m'.mem (pageAt 0xC0000000#32 i) ≠ 0#32 := by
  obtain ⟨m₁, m₂, m₃, h₁, h₂, h₃, rfl⟩ := mapKernel_iff.mp hok
  have hs₁ := mapRange_spec hL hT 0#32 0#32 true 1024#32
  rw [h₁] at hs₁
  have hs₂ := mapRange_spec hL hs₁.tables bootInfo.kernelVirtualStartAddress bootInfo.kernelPhysicalStartAddress true
    (kernelPageCount bootInfo)
  rw [h₂] at hs₂
  have hs₃ := mapRange_spec hL hs₂.tables (bootInfo.kernelVirtualStartAddress + kernelPageCount bootInfo * pageSize)
    (bootInfo.kernelPhysicalStartAddress + kernelPageCount bootInfo * pageSize) true
    (restPageCount (kernelPageCount bootInfo))
  rw [h₃] at hs₃
  refine ⟨hs₃.tables, rfl, fun i hi => ?_⟩
  -- what one range has mapped, the later ones keep
  have hkeep₂ : ∀ x, vmm.entryAt util m₂.mem x ≠ 0#32 → vmm.entryAt util m₃.mem x ≠ 0#32 :=
    fun x hx => by rw [hs₃.kept x hx]; exact hx
  have hkeep₁ : ∀ x, vmm.entryAt util m₁.mem x ≠ 0#32 → vmm.entryAt util m₃.mem x ≠ 0#32 :=
    fun x hx => hkeep₂ x (by rw [hs₂.kept x hx]; exact hx)
  refine ⟨hkeep₁ _ ?_, ?_⟩
  · rw [(hs₁.mapped rfl i hi).2.2.2.2]
    exact entryFor_ne_zero _
  · rw [hvs] at hs₂ hs₃
    by_cases hik : i < (kernelPageCount bootInfo).toNat
    · refine hkeep₂ _ ?_
      rw [(hs₂.mapped rfl i hik).2.2.2.2]
      exact entryFor_ne_zero _
    · have hrest := restPageCount_toNat (kernelPageCount bootInfo)
      have hmapped := (hs₃.mapped rfl (i - (kernelPageCount bootInfo).toNat) (by omega)).2.2.2.2
      rw [pageAt_add, show (kernelPageCount bootInfo).toNat + (i - (kernelPageCount bootInfo).toNat) = i by omega]
        at hmapped
      change vmm.entryAt util m₃.mem _ ≠ _
      rw [hmapped]
      exact entryFor_ne_zero _

theorem kernelPageCount_toNat (hps : bootInfo.kernelPhysicalStartAddress = 0x200000#32)
    (hpe : bootInfo.kernelPhysicalEndAddress = 0x200000#32 + bootInfo.kernelSize)
    (hsize : bootInfo.kernelSize.toNat ≤ 0x400000) :
    (kernelPageCount bootInfo).toNat = bootInfo.kernelSize.toNat / 4096 := by
  rw [kernelPageCount, hps, hpe, BitVec.toNat_sub, BitVec.toNat_udiv, BitVec.toNat_udiv, BitVec.toNat_add,
    show pageSize.toNat = 4096 from rfl, show (0x200000#32).toNat = 0x200000 from rfl]
  omega

/-- From empty tables, with an image of at most 4 MB at `0x200000`, all three ranges are mapped, and
the words of the tables are those of the start. -/
theorem mapKernel_start (hL : Layout util vmm) (hT : Tables util vmm m.mem)
    (hzero : ∀ v, vmm.entryAt util m.mem v = 0#32)
    (hvs : bootInfo.kernelVirtualStartAddress = 0xC0000000#32)
    (hps : bootInfo.kernelPhysicalStartAddress = 0x200000#32)
    (hpe : bootInfo.kernelPhysicalEndAddress = 0x200000#32 + bootInfo.kernelSize)
    (hsize : bootInfo.kernelSize.toNat ≤ 0x400000) :
    (mapKernel util vmm bootInfo m).1 = true ∧ ∀ v, Aligned v →
      decode true (vmm.entryAt util (mapKernel util vmm bootInfo m).2.mem v) = startTranslation v := by
  have hcount := kernelPageCount_toNat hps hpe hsize
  generalize hk : kernelPageCount bootInfo = k at hcount
  have h1024 : (1024#32).toNat = 1024 := rfl
  have hlow : (0#32).toNat = 0 := rfl
  have hhigh : (0xC0000000#32).toNat = 0xC0000000 := rfl
  -- the first 4 MB
  have hok₁ : (vmm.mapRange util m 0#32 0#32 true 1024#32).1 = true := by
    refine mapRange_succeeds hL hT (by decide) (by decide) (by decide) fun i hi => ⟨.inl ?_, hzero _⟩
    rw [pageAt_toNat]
    omega
  have hs₁ := mapRange_spec hL hT 0#32 0#32 true 1024#32
  have he₁ := fun {x} => mapRange_entry (x := x) hs₁ hok₁ (by decide) (by decide)
  obtain ⟨m₁, h₁⟩ : ∃ m₁, vmm.mapRange util m 0#32 0#32 true 1024#32 = (true, m₁) := ⟨_, Prod.ext hok₁ rfl⟩
  rw [h₁] at hs₁ he₁
  simp only [hzero] at he₁
  -- the whole pages of the image
  have hfree₁ : ∀ i < 1024, Covered (pageAt 0xC0000000#32 i) ∧ vmm.entryAt util m₁.mem (pageAt 0xC0000000#32 i) = 0#32 := by
    intro i hi
    have hx := pageAt_toNat 0xC0000000#32 i
    refine ⟨.inr (by omega), ?_⟩
    rw [he₁ (aligned_pageAt (by decide) i), if_neg (by omega)]
  have hend₂ : (0xC0000000#32).toNat + 4096 * k.toNat ≤ 2 ^ 32 := by omega
  have hok₂ : (vmm.mapRange util m₁ 0xC0000000#32 0x200000#32 true k).1 = true :=
    mapRange_succeeds hL hs₁.tables (by decide) (by decide) hend₂ fun i hi => hfree₁ i (by omega)
  have hs₂ := mapRange_spec hL hs₁.tables 0xC0000000#32 0x200000#32 true k
  have he₂ := fun {x} => mapRange_entry (x := x) hs₂ hok₂ (by decide) hend₂
  obtain ⟨m₂, h₂⟩ : ∃ m₂, vmm.mapRange util m₁ 0xC0000000#32 0x200000#32 true k = (true, m₂) := ⟨_, Prod.ext hok₂ rfl⟩
  rw [h₂] at hs₂ he₂
  -- the rest of its first 4 MB
  have hrest := restPageCount_toNat k
  have hv₃ : (0xC0000000#32 + k * pageSize).toNat = 0xC0000000 + 4096 * k.toNat := by
    rw [BitVec.toNat_add, BitVec.toNat_mul, show pageSize.toNat = 4096 from rfl]
    omega
  have hal₃ : Aligned (0xC0000000#32 + k * pageSize) := by rw [Aligned, hv₃]; omega
  have hp₃ : Aligned (0x200000#32 + k * pageSize) := by
    rw [Aligned, BitVec.toNat_add, BitVec.toNat_mul, show pageSize.toNat = 4096 from rfl,
      show (0x200000#32).toNat = 0x200000 from rfl]
    omega
  have hend₃ : (0xC0000000#32 + k * pageSize).toNat + 4096 * (restPageCount k).toNat ≤ 2 ^ 32 := by omega
  have hok₃ : (vmm.mapRange util m₂ (0xC0000000#32 + k * pageSize) (0x200000#32 + k * pageSize) true
      (restPageCount k)).1 = true := by
    refine mapRange_succeeds hL hs₂.tables hal₃ hp₃ hend₃ fun i hi => ?_
    have hx := pageAt_toNat 0xC0000000#32 (k.toNat + i)
    rw [pageAt_add]
    refine ⟨(hfree₁ _ (by omega)).1, ?_⟩
    rw [he₂ (aligned_pageAt (by decide) _), if_neg (by omega)]
    exact (hfree₁ _ (by omega)).2
  have hs₃ := mapRange_spec hL hs₂.tables (0xC0000000#32 + k * pageSize) (0x200000#32 + k * pageSize) true
    (restPageCount k)
  have he₃ := fun {x} => mapRange_entry (x := x) hs₃ hok₃ hal₃ hend₃
  obtain ⟨m₃, h₃⟩ : ∃ m₃, vmm.mapRange util m₂ (0xC0000000#32 + k * pageSize) (0x200000#32 + k * pageSize) true
      (restPageCount k) = (true, m₃) := ⟨_, Prod.ext hok₃ rfl⟩
  rw [h₃] at he₃
  have hall : mapKernel util vmm bootInfo m = (true, vmm.reloadPageDirectory util m₃) := by
    rw [mapKernel_iff, hvs, hps, hk]
    exact ⟨m₁, m₂, m₃, h₁, h₂, h₃, rfl⟩
  refine ⟨congrArg Prod.fst hall, fun v hv => ?_⟩
  rw [hall]
  change decode true (vmm.entryAt util m₃.mem v) = _
  rw [he₃ hv, he₂ hv, he₁ hv, startTranslation]
  by_cases hin₁ : v.toNat < 0x400000
  · rw [if_neg (by omega), if_neg (by omega), if_pos (by omega), if_pos hin₁, BitVec.sub_zero, BitVec.zero_add,
      decode_entryFor hv]
  by_cases hin₂ : 0xC0000000 ≤ v.toNat ∧ v.toNat < 0xC0400000
  · have hframe : Aligned (v - 0xC0000000#32 + 0x200000#32) := by
      rw [Aligned] at hv ⊢
      rw [BitVec.toNat_add, BitVec.toNat_sub, hhigh, show (0x200000#32).toNat = 0x200000 from rfl]
      omega
    rw [if_neg hin₁, if_pos hin₂]
    by_cases hpart : v.toNat < 0xC0000000 + 4096 * k.toNat
    · rw [if_neg (by omega), if_pos (by omega), BitVec.add_comm, decode_entryFor hframe]
    · have hsame : 0x200000#32 + k * pageSize + (v - (0xC0000000#32 + k * pageSize)) = v - 0xC0000000#32 + 0x200000#32 := by
        generalize k * pageSize = d
        bv_omega
      rw [if_pos (by omega), hsame, decode_entryFor hframe]
  · rw [if_neg hin₁, if_neg hin₂, if_neg (by omega), if_neg (by omega), if_neg (by omega), decode_zero]

/-! ### After `InitVirtualMemoryManager` -/

theorem initVirtualMemoryManager_eq (util : MemoryUtil) (vmm : VirtualMemoryManager) (bootInfo : BootInfo)
    (m : Machine) : initVirtualMemoryManager util vmm bootInfo m =
      ((mapKernel util (vmm.init util bootInfo m).2.1 bootInfo (vmm.init util bootInfo m).2.2).1,
        (vmm.init util bootInfo m).2.1,
        (mapKernel util (vmm.init util bootInfo m).2.1 bootInfo (vmm.init util bootInfo m).2.2).2) := by
  have hinit : vmm.init util bootInfo m = (true, (vmm.init util bootInfo m).2) := by rw [init]
  rw [initVirtualMemoryManager, hinit]

/-- **The kernel's start**: whenever `InitVirtualMemoryManager` succeeds, the tables are in order, the
directory is loaded, and the first 4 MB and those from `0xC0000000` on are mapped. -/
theorem initVirtualMemoryManager_maps {imageSize : ℕ} {vmm' : VirtualMemoryManager} {m' : Machine}
    (h : InImage (MemoryUtil.init bootInfo) vmm imageSize)
    (hok : initVirtualMemoryManager (MemoryUtil.init bootInfo) vmm bootInfo m = (true, vmm', m')) :
    Layout (MemoryUtil.init bootInfo) vmm' ∧ Tables (MemoryUtil.init bootInfo) vmm' m'.mem ∧
      m'.cr3 = vmm'.directoryAddress (MemoryUtil.init bootInfo) ∧
      ∀ i < 1024, vmm'.entryAt (MemoryUtil.init bootInfo) m'.mem (pageAt 0#32 i) ≠ 0#32 ∧
        vmm'.entryAt (MemoryUtil.init bootInfo) m'.mem (pageAt 0xC0000000#32 i) ≠ 0#32 := by
  have hvs : bootInfo.kernelVirtualStartAddress = 0xC0000000#32 := h.virtualStart
  obtain ⟨hL, hT, -⟩ := tables_init h hvs m
  rw [initVirtualMemoryManager_eq, Prod.mk.injEq, Prod.mk.injEq] at hok
  obtain ⟨htrue, rfl, hm⟩ := hok
  exact ⟨hL, mapKernel_maps hL hT hvs (Prod.ext htrue hm)⟩

/-- For an image of at most 4 MB where the linker script puts it, `InitVirtualMemoryManager` succeeds
and the directory it loads translates as the kernel needs at its start. -/
theorem initVirtualMemoryManager_walk {imageSize : ℕ} (h : InImage (MemoryUtil.init bootInfo) vmm imageSize)
    (hps : bootInfo.kernelPhysicalStartAddress = 0x200000#32)
    (hpe : bootInfo.kernelPhysicalEndAddress = 0x200000#32 + bootInfo.kernelSize)
    (hsize : bootInfo.kernelSize.toNat ≤ 0x400000) (m : Machine) :
    ∃ vmm' m', initVirtualMemoryManager (MemoryUtil.init bootInfo) vmm bootInfo m = (true, vmm', m') ∧
      ∀ v, Aligned v → walk m'.mem m'.cr3 v = startTranslation v := by
  have hvs : bootInfo.kernelVirtualStartAddress = 0xC0000000#32 := h.virtualStart
  obtain ⟨hL, hT, hzero⟩ := tables_init h hvs m
  obtain ⟨hok, hstart⟩ := mapKernel_start hL hT hzero hvs hps hpe hsize
  have heq := initVirtualMemoryManager_eq (MemoryUtil.init bootInfo) vmm bootInfo m
  generalize (vmm.init (MemoryUtil.init bootInfo) bootInfo m).2.1 = vmm' at hL hT hok hstart heq
  generalize (vmm.init (MemoryUtil.init bootInfo) bootInfo m).2.2 = m₀ at hT hok hstart heq
  obtain ⟨m', hm⟩ : ∃ m', mapKernel (MemoryUtil.init bootInfo) vmm' bootInfo m₀ = (true, m') := ⟨_, Prod.ext hok rfl⟩
  rw [hm] at heq hstart
  obtain ⟨hT', hcr3, -⟩ := mapKernel_maps hL hT hvs hm
  refine ⟨vmm', m', heq, fun v hv => ?_⟩
  rw [hcr3, walk_eq hL hT', hstart v hv]

end

end EagleOS.Memory
