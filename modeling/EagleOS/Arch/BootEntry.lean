import EagleOS.Arch.BootAsm

/-!
# From the boot loader to `KMain`

The boot loader jumps to `_kernelstart` with its magic number in `eax` and the address of its information in `ebx`. The boot
code keeps both on a stack of its own, turns paging on, jumps to where the kernel is linked, and reads them back through its
page tables to hand them to `KMain` on the kernel's stack.

## The model

`BootCPU` adds the stack pointer, the instruction pointer and the interrupt flag to `BootState`. Once paging is on, every
byte is found by a walk through the tables, also where a word crosses the end of a page; `enter` is `none` where
there is a page fault. `BootImage` has the addresses of the symbols, `BootImage.Linked` what the linker script makes of them.

## What is proved

* `BootTables.place_eq` — where the bytes lie while the boot tables are in use.
* `boot_hands_over` — `KMain` is called with what the boot loader has left in `eax` and `ebx`, and nothing but the tables and
  the two stacks has changed.
-/

namespace EagleOS.Arch

open ESTD Boot Foundations EagleOS.Memory

/-! ### Memory behind the tables -/

/-- Where a byte lies when paging is on. -/
def place (mem : Foundations.Memory) (cr3 : PhysicalAddress) (v : VirtualAddress) : Option PhysicalAddress :=
  (walk mem cr3 v).map fun t => t.frame + v % 4096#32

/-- Load a word; `none` for a page fault. -/
def loadPaged (mem : Foundations.Memory) (cr3 : PhysicalAddress) (v : VirtualAddress) : Option (BitVec 32) :=
  (place mem cr3 v).bind fun a =>
    (place mem cr3 (v + 1#32)).bind fun b =>
      (place mem cr3 (v + 2#32)).bind fun c =>
        (place mem cr3 (v + 3#32)).map fun d =>
          (mem a).setWidth 32 ||| (mem b).setWidth 32 <<< 8 ||| (mem c).setWidth 32 <<< 16 ||| (mem d).setWidth 32 <<< 24

/-- Store a word; `none` for a page fault. -/
def storePaged (mem : Foundations.Memory) (cr3 : PhysicalAddress) (v : VirtualAddress) (x : BitVec 32) :
    Option Foundations.Memory :=
  (place mem cr3 v).bind fun a =>
    (place mem cr3 (v + 1#32)).bind fun b =>
      (place mem cr3 (v + 2#32)).bind fun c =>
        (place mem cr3 (v + 3#32)).map fun d =>
          (((mem.store8 a (x.extractLsb' 0 8)).store8 b (x.extractLsb' 8 8)).store8 c (x.extractLsb' 16 8)).store8 d
            (x.extractLsb' 24 8)

/-! ### The code -/

/-- The registers that `_kernelstart` uses, and memory. -/
structure BootCPU where
  /-- The registers of `BootState`, and memory. -/
  state : BootState
  /-- `ebp`. -/
  ebp : BitVec 32
  /-- `esp`. -/
  esp : BitVec 32
  /-- `eip`. -/
  eip : BitVec 32
  /-- The interrupt flag. -/
  interruptFlag : Bool

/-- The addresses of the symbols. -/
structure BootImage where
  /-- `_boot_page_directory`. -/
  bootPageDirectory : PhysicalAddress
  /-- `_boot_stack_top`. -/
  bootStackTop : PhysicalAddress
  /-- `_kernelstart_higherhalf`. -/
  kernelstartHigherhalf : VirtualAddress
  /-- `_kernel_stack_top`. -/
  kernelStackTop : VirtualAddress
  /-- `KMain`. -/
  kMain : VirtualAddress
  /-- The instruction after the call of `KMain`. -/
  halt : VirtualAddress

namespace BootCPU

/-- `push`, while paging is off. -/
def push (s : BootCPU) (x : BitVec 32) : BootCPU :=
  let esp := s.esp - 4#32
  { s with esp, state := { s.state with mem := s.state.mem.store32 esp x } }

/-- `push`, when paging is on. -/
def pushPaged (s : BootCPU) (x : BitVec 32) : Option BootCPU :=
  let esp := s.esp - 4#32
  (storePaged s.state.mem s.state.cr3 esp x).map fun mem => { s with esp, state := { s.state with mem } }

/-- `mov`, from memory, when paging is on. -/
def load (s : BootCPU) (v : VirtualAddress) : Option (BitVec 32) := loadPaged s.state.mem s.state.cr3 v

/-- A jump to where an instruction can be fetched. -/
def jump (s : BootCPU) (v : VirtualAddress) : Option BootCPU :=
  (place s.state.mem s.state.cr3 v).map fun _ => { s with eip := v }

end BootCPU

/-- `_kernelstart_higherhalf`, up to the first instruction of `KMain`. -/
def kernelstartHigherhalf (image : BootImage) (s : BootCPU) : Option BootCPU :=
  let s := { s with ebp := image.kernelStackTop }
  let s := { s with esp := s.ebp }
  (s.load (image.bootStackTop - 4#32)).bind fun ebx =>
    let s := { s with state := { s.state with ebx } }
    (s.load (image.bootStackTop - 8#32)).bind fun edx =>
      let s := { s with state := { s.state with edx } }
      (s.pushPaged s.state.edx).bind fun s =>
        (s.pushPaged s.state.ebx).bind fun s =>
          -- the call
          (s.pushPaged image.halt).bind fun s => s.jump image.kMain

/-- `_kernelstart`, up to the first instruction of `KMain`. -/
def enter (image : BootImage) (fuel : ℕ) (s : BootCPU) : Option BootCPU :=
  let s := { s with interruptFlag := false }
  let s := { s with ebp := image.bootStackTop }
  let s := { s with esp := s.ebp }
  let s := s.push s.state.eax
  let s := s.push s.state.ebx
  (kernelstart image.bootPageDirectory fuel s.state).bind fun state =>
    let s := { s with state }
    let s := { s with state := { s.state with ebx := image.kernelstartHigherhalf } }
    (s.jump s.state.ebx).bind (kernelstartHigherhalf image)

/-- What the linker script makes of the symbols: the boot loader's tables and stack lie below the kernel's image, which the
boot tables map. -/
structure BootImage.Linked (image : BootImage) : Prop where
  /-- The tables. -/
  directory : Aligned image.bootPageDirectory
  tables : image.bootPageDirectory.toNat + 3 * 4096 ≤ 0x200000
  /-- The stack, apart from them. -/
  stack : 8 ≤ image.bootStackTop.toNat ∧ image.bootStackTop.toNat ≤ 0x200000
  stack_tables : Disjoint (Span (image.bootStackTop - 8#32) 8) (Span image.bootPageDirectory (3 * 4096))
  /-- The kernel's stack. -/
  kernelStack : 0xC000000C ≤ image.kernelStackTop.toNat ∧ image.kernelStackTop.toNat ≤ 0xC0400000
  /-- The kernel's code. -/
  higherhalf : 0xC0000000 ≤ image.kernelstartHigherhalf.toNat ∧ image.kernelstartHigherhalf.toNat < 0xC0400000
  kMain_code : 0xC0000000 ≤ image.kMain.toNat ∧ image.kMain.toNat < 0xC0400000

/-! ### Words behind the tables -/

section

variable {mem mem' : Foundations.Memory} {cr3 : PhysicalAddress} {v : VirtualAddress} {p : PhysicalAddress}

/-- The bytes from `v` on lie one after the other from `p` on. -/
def Linear (mem : Foundations.Memory) (cr3 : PhysicalAddress) (v : VirtualAddress) (p : PhysicalAddress) (n : ℕ) : Prop :=
  ∀ i < n, place mem cr3 (v + BitVec.ofNat 32 i) = some (p + BitVec.ofNat 32 i)

theorem Linear.loadPaged (h : Linear mem cr3 v p 4) : loadPaged mem cr3 v = some (mem.load32 p) := by
  have h0 := h 0 (by omega)
  rw [BitVec.add_zero, BitVec.add_zero] at h0
  simp only [Arch.loadPaged, h0, h 1 (by omega), h 2 (by omega), h 3 (by omega), Option.bind_some, Option.map_some]
  rfl

/-- Four bytes make a word. -/
theorem store8_store32 (mem : Foundations.Memory) (p x : BitVec 32) :
    (((mem.store8 p (x.extractLsb' 0 8)).store8 (p + 1#32) (x.extractLsb' 8 8)).store8 (p + 2#32)
      (x.extractLsb' 16 8)).store8 (p + 3#32) (x.extractLsb' 24 8) = mem.store32 p x := by
  have hone : ∀ i : ℕ, i < 4 → mem.store32 p x (p + BitVec.ofNat 32 i) = x.extractLsb' (8 * i) 8 := fun i hi =>
    Memory.store32_byte mem p x hi
  have h0 := hone 0 (by omega)
  rw [BitVec.add_zero] at h0
  funext a
  by_cases ha3 : a = p + 3#32
  · rw [ha3, Memory.store8_self]
    exact (hone 3 (by omega)).symm
  rw [Memory.store8_of_ne ha3]
  by_cases ha2 : a = p + 2#32
  · rw [ha2, Memory.store8_self]
    exact (hone 2 (by omega)).symm
  rw [Memory.store8_of_ne ha2]
  by_cases ha1 : a = p + 1#32
  · rw [ha1, Memory.store8_self]
    exact (hone 1 (by omega)).symm
  rw [Memory.store8_of_ne ha1]
  by_cases ha0 : a = p
  · rw [ha0, Memory.store8_self]
    exact h0.symm
  rw [Memory.store8_of_ne ha0, Memory.store32_of_notMem]
  intro hin
  obtain ⟨i, hi, rfl⟩ := (mem_span_iff_exists (by decide)).mp hin
  have hcases : i = 0 ∨ i = 1 ∨ i = 2 ∨ i = 3 := by omega
  rcases hcases with rfl | rfl | rfl | rfl
  · exact ha0 (BitVec.add_zero p)
  · exact ha1 rfl
  · exact ha2 rfl
  · exact ha3 rfl

theorem Linear.storePaged (h : Linear mem cr3 v p 4) (x : BitVec 32) :
    storePaged mem cr3 v x = some (mem.store32 p x) := by
  have h0 := h 0 (by omega)
  rw [BitVec.add_zero, BitVec.add_zero] at h0
  simp only [Arch.storePaged, h0, h 1 (by omega), h 2 (by omega), h 3 (by omega), Option.bind_some, Option.map_some]
  rw [← store8_store32]

end

/-! ### The boot tables in use -/

section

variable {dir : PhysicalAddress} {mem mem' : Foundations.Memory}

/-- The tables are what their three pages hold. -/
theorem BootTables.congr (h : BootTables dir mem) (hdir : Aligned dir) (hend : dir.toNat + 3 * 4096 ≤ 2 ^ 32)
    (hmem : ∀ x ∈ Span dir (3 * 4096), mem' x = mem x) : BootTables dir mem' := by
  obtain ⟨ht0, ht768⟩ := toNat_tables hend
  have hword : ∀ {base i : BitVec 32}, Aligned base → dir.toNat ≤ base.toNat → base.toNat ≤ dir.toNat + 8192 →
      i.toNat < 1024 → mem'.load32 (entryAddress base i) = mem.load32 (entryAddress base i) := by
    intro base i hb hlow hhigh hi
    have hat := entryAddress_toNat hb hi
    refine Memory.load32_congr fun x hx => hmem x ?_
    rw [mem_span_iff (by omega)] at hx ⊢
    omega
  rw [Aligned] at hdir
  refine ⟨fun i hi => ?_, fun i hi => ?_, fun i hi => ?_⟩
  · rw [hword hdir le_rfl (by omega) hi]
    exact h.directory i hi
  · rw [hword (by rw [Aligned]; omega) (by omega) (by omega) hi]
    exact h.table0 i hi
  · rw [hword (by rw [Aligned]; omega) (by omega) (by omega) hi]
    exact h.table768 i hi

/-- Where the bytes of the first 4 MB, and of the first 4 MB from `0xC0000000` on, lie. -/
theorem BootTables.place_eq (h : BootTables dir mem) (hdir : Aligned dir) (hend : dir.toNat + 3 * 4096 ≤ 2 ^ 32)
    (v : VirtualAddress) : place mem dir v =
      if v.toNat < 0x400000 then some v
      else if 0xC0000000 ≤ v.toNat ∧ v.toNat < 0xC0400000 then some (v - 0xC0000000#32 + 0x200000#32)
      else none := by
  -- the walk goes by the page that `v` is in
  have hpage : (v - v % 4096#32).toNat = v.toNat / 4096 * 4096 := by
    have hmod : (v % 4096#32).toNat = v.toNat % 4096 := by rw [BitVec.toNat_umod]; rfl
    rw [BitVec.toNat_sub, hmod]
    have := v.isLt
    omega
  have hwalk : Arch.walk mem dir v = Arch.walk mem dir (v - v % 4096#32) := by
    have hdi : directoryIndex v = directoryIndex (v - v % 4096#32) := by
      apply BitVec.eq_of_toNat_eq
      rw [directoryIndex_toNat, directoryIndex_toNat, hpage]
      omega
    have hti : tableIndex v = tableIndex (v - v % 4096#32) := by
      apply BitVec.eq_of_toNat_eq
      rw [tableIndex_toNat, tableIndex_toNat, hpage]
      omega
    rw [Arch.walk, Arch.walk, hdi, hti]
  have hoffset : ∀ w : BitVec 32, v - w - 0xC0000000#32 + 0x200000#32 + w = v - 0xC0000000#32 + 0x200000#32 := by
    intro w
    bv_omega
  rw [place, hwalk, h.walk hdir hend (by rw [Aligned, hpage]; omega), startTranslation, hpage]
  by_cases hlow : v.toNat < 0x400000
  · rw [if_pos (by omega), if_pos hlow, Option.map_some, BitVec.sub_add_cancel]
  rw [if_neg (by omega), if_neg hlow]
  by_cases hhigh : 0xC0000000 ≤ v.toNat ∧ v.toNat < 0xC0400000
  · rw [if_pos (by omega), if_pos hhigh, Option.map_some]
    exact congrArg some (hoffset _)
  · rw [if_neg (by omega), if_neg hhigh, Option.map_none]

/-- The loops store in their table only. -/
theorem mapEntries_frame {table : PhysicalAddress} (hfit : table.toNat + 4096 ≤ 2 ^ 32) (fuel : ℕ) :
    ∀ {k : ℕ} {s s' : BootState}, k < 1024 → s.ecx = BitVec.ofNat 32 k → mapEntries table fuel s = some s' →
      s'.cr0 = s.cr0 ∧ ∀ x ∉ Span table 4096, s'.mem x = s.mem x := by
  induction fuel with
  | zero =>
    intro k s s' _ _ h
    cases h
  | succ fuel ih =>
    intro k s s' hk hecx h
    have hone : ∀ x ∉ Span table 4096, (mapEntry table s).mem x = s.mem x := by
      intro x hx
      change s.mem.store32 (table + s.ecx * 4#32) (s.edx ||| 0x003#32) x = s.mem x
      refine Memory.store32_of_notMem fun hin => hx ?_
      have haddr : (table + s.ecx * 4#32).toNat = table.toNat + 4 * k := by
        rw [hecx, BitVec.toNat_add, BitVec.toNat_mul, BitVec.toNat_ofNat, show (4#32).toNat = 4 from rfl]
        omega
      rw [mem_span_iff (by omega)] at hin ⊢
      omega
    have hnext : (mapEntry table s).ecx = BitVec.ofNat 32 (k + 1) := by
      change s.ecx + 1#32 = _
      rw [hecx, BitVec.ofNat_add]
    rw [mapEntries, hnext, slt_1024 (by omega)] at h
    by_cases hlast : k + 1 < 1024
    · rw [decide_eq_true hlast, if_pos rfl] at h
      obtain ⟨hcr0, hrest⟩ := ih hlast hnext h
      exact ⟨hcr0, fun x hx => (hrest x hx).trans (hone x hx)⟩
    · rw [decide_eq_false hlast, if_neg Bool.false_ne_true] at h
      cases h
      exact ⟨rfl, hone⟩

/-- So `_kernelstart` stores in the directory and the two tables only, and it turns paging on. -/
theorem kernelstart_frame (hend : dir.toNat + 3 * 4096 ≤ 2 ^ 32) {fuel : ℕ} {s s' : BootState}
    (h : kernelstart dir fuel s = some s') :
    s'.cr0 = s.cr0 ||| 0x80000000#32 ∧ ∀ x ∉ Span dir (3 * 4096), s'.mem x = s.mem x := by
  obtain ⟨ht0, ht768⟩ := toNat_tables hend
  rw [kernelstart] at h
  simp only at h
  split at h
  · cases h
  rename_i s₁ h₁
  split at h
  · cases h
  rename_i s₂ h₂
  cases h
  obtain ⟨hcr₁, hm₁⟩ := mapEntries_frame (by omega) fuel (k := 0) (by decide) rfl h₁
  obtain ⟨hcr₂, hm₂⟩ := mapEntries_frame (by omega) fuel (k := 0) (by decide) rfl h₂
  refine ⟨congrArg (· ||| 0x80000000#32) (hcr₂.trans hcr₁), fun x hx => ?_⟩
  rw [mem_span_iff hend] at hx
  have hword : ∀ i : ℕ, i < 1024 → x ∉ Span (dir + BitVec.ofNat 32 i * 4#32) 4 := by
    intro i hi hin
    have haddr : (dir + BitVec.ofNat 32 i * 4#32).toNat = dir.toNat + 4 * i := by
      rw [BitVec.toNat_add, BitVec.toNat_mul, BitVec.toNat_ofNat, show (4#32).toNat = 4 from rfl]
      omega
    rw [mem_span_iff (by omega)] at hin
    omega
  have hfirst := hword 0 (by decide)
  rw [BitVec.zero_mul, BitVec.add_zero] at hfirst
  have hnot : ∀ base : BitVec 32, dir.toNat ≤ base.toNat → base.toNat ≤ dir.toNat + 8192 → x ∉ Span base 4096 := by
    intro base hlow hhigh hin
    rw [mem_span_iff (by omega)] at hin
    omega
  refine (Memory.store32_of_notMem (hword 768 (by decide))).trans ((Memory.store32_of_notMem hfirst).trans ?_)
  exact (hm₂ x (hnot _ (by omega) (by omega))).trans (hm₁ x (hnot _ (by omega) (by omega)))

end

/-! ### Stacks -/

/-- A word from a stack, by its distance from the top. -/
theorem sub_toNat {x : BitVec 32} {n : ℕ} (hn : n ≤ x.toNat) : (x - BitVec.ofNat 32 n).toNat = x.toNat - n := by
  have := x.isLt
  rw [BitVec.toNat_sub, BitVec.toNat_ofNat]
  omega

/-- Where the kernel's image lies. -/
def kernelPhysical (v : VirtualAddress) : PhysicalAddress := v - 0xC0000000#32 + 0x200000#32

theorem kernelPhysical_toNat {v : VirtualAddress} (hlow : 0xC0000000 ≤ v.toNat) (hhigh : v.toNat ≤ 0xC0400000) :
    (kernelPhysical v).toNat + 0xBFE00000 = v.toNat := by
  have hsub : (v - 0xC0000000#32).toNat = v.toNat - 0xC0000000 := sub_toNat hlow
  rw [kernelPhysical, BitVec.toNat_add, hsub, show (0x200000#32).toNat = 0x200000 from rfl]
  omega

section

variable {dir : PhysicalAddress} {s : BootCPU} {v : VirtualAddress}

/-- Words of the first 4 MB. -/
theorem BootTables.linear_low {mem : Foundations.Memory} (h : BootTables dir mem) (hdir : Aligned dir)
    (hend : dir.toNat + 3 * 4096 ≤ 2 ^ 32) (hv : v.toNat + 4 ≤ 0x400000) : Linear mem dir v v 4 := by
  intro i hi
  have hadd : (v + BitVec.ofNat 32 i).toNat = v.toNat + i := by
    rw [BitVec.toNat_add, BitVec.toNat_ofNat]
    omega
  rw [h.place_eq hdir hend, if_pos (by omega)]

/-- Words of the kernel's image. -/
theorem BootTables.linear_high {mem : Foundations.Memory} (h : BootTables dir mem) (hdir : Aligned dir)
    (hend : dir.toNat + 3 * 4096 ≤ 2 ^ 32) (hlow : 0xC0000000 ≤ v.toNat) (hhigh : v.toNat + 4 ≤ 0xC0400000) :
    Linear mem dir v (kernelPhysical v) 4 := by
  intro i hi
  have hadd : (v + BitVec.ofNat 32 i).toNat = v.toNat + i := by
    rw [BitVec.toNat_add, BitVec.toNat_ofNat]
    omega
  have hmove : ∀ w x y : BitVec 32, v + w - x + y = v - x + y + w := by
    intro w x y
    rw [BitVec.sub_eq_add_neg, BitVec.sub_eq_add_neg]
    ac_rfl
  rw [h.place_eq hdir hend, if_neg (by omega), if_pos (by omega), hmove, kernelPhysical]

/-- What a push to the kernel's stack does. -/
structure Pushed (dir : PhysicalAddress) (s : BootCPU) (x : BitVec 32) (s' : BootCPU) : Prop where
  esp : s'.esp = s.esp - 4#32
  mem : s'.state.mem = s.state.mem.store32 (kernelPhysical (s.esp - 4#32)) x
  /-- The tables stay as they are. -/
  tables : BootTables dir s'.state.mem
  cr3 : s'.state.cr3 = s.state.cr3
  /-- So do the other registers. -/
  cr0 : s'.state.cr0 = s.state.cr0
  ebx : s'.state.ebx = s.state.ebx
  interruptFlag : s'.interruptFlag = s.interruptFlag

/-- With the new stack pointer and memory, whatever they are. -/
theorem Pushed.of_eq {x e : BitVec 32} {mem : Foundations.Memory} (h : BootTables dir mem) (he : s.esp - 4#32 = e)
    (hm : s.state.mem.store32 (kernelPhysical e) x = mem) :
    Pushed dir s x { s with esp := e, state := { s.state with mem } } where
  esp := he.symm
  mem := by rw [he]; exact hm.symm
  tables := h
  cr3 := rfl
  cr0 := rfl
  ebx := rfl
  interruptFlag := rfl

/-- A push to the kernel's stack. -/
theorem BootTables.pushPaged (h : BootTables dir s.state.mem) (hdir : Aligned dir) (hend : dir.toNat + 3 * 4096 ≤ 0x200000)
    (hcr3 : s.state.cr3 = dir) (hlow : 0xC0000004 ≤ s.esp.toNat) (hhigh : s.esp.toNat ≤ 0xC0400000) (x : BitVec 32) :
    ∃ s', s.pushPaged x = some s' ∧ Pushed dir s x s' := by
  have hsub : (s.esp - 4#32).toNat = s.esp.toNat - 4 := sub_toNat (n := 4) (by omega)
  have hphys := kernelPhysical_toNat (v := s.esp - 4#32) (by omega) (by omega)
  have hlinear := h.linear_high (v := s.esp - 4#32) hdir (by omega) (by omega) (by omega)
  have htables : BootTables dir (s.state.mem.store32 (kernelPhysical (s.esp - 4#32)) x) := by
    refine h.congr hdir (by omega) fun y hy => Memory.store32_of_notMem fun hin => ?_
    rw [mem_span_iff (by omega)] at hy hin
    omega
  generalize he : s.esp - 4#32 = e at hlinear htables
  generalize hm : s.state.mem.store32 (kernelPhysical e) x = mem at htables
  have hpush : s.pushPaged x = some { s with esp := e, state := { s.state with mem } } := by
    simp only [BootCPU.pushPaged, he, hcr3, hlinear.storePaged, hm, Option.map_some]
  exact ⟨_, hpush, Pushed.of_eq htables he hm⟩

/-- A load from the first 4 MB, or from the kernel's image. -/
theorem BootTables.load_low (h : BootTables dir s.state.mem) (hdir : Aligned dir) (hend : dir.toNat + 3 * 4096 ≤ 2 ^ 32)
    (hcr3 : s.state.cr3 = dir) (hv : v.toNat + 4 ≤ 0x400000) : s.load v = some (s.state.mem.load32 v) := by
  rw [BootCPU.load, hcr3, (h.linear_low hdir hend hv).loadPaged]

theorem BootTables.load_high (h : BootTables dir s.state.mem) (hdir : Aligned dir) (hend : dir.toNat + 3 * 4096 ≤ 2 ^ 32)
    (hcr3 : s.state.cr3 = dir) (hlow : 0xC0000000 ≤ v.toNat) (hhigh : v.toNat + 4 ≤ 0xC0400000) :
    s.load v = some (s.state.mem.load32 (kernelPhysical v)) := by
  rw [BootCPU.load, hcr3, (h.linear_high hdir hend hlow hhigh).loadPaged]

/-- A jump into the kernel's image. -/
theorem BootTables.jump (h : BootTables dir s.state.mem) (hdir : Aligned dir) (hend : dir.toNat + 3 * 4096 ≤ 2 ^ 32)
    (hcr3 : s.state.cr3 = dir) (hlow : 0xC0000000 ≤ v.toNat) (hhigh : v.toNat < 0xC0400000) :
    s.jump v = some { s with eip := v } := by
  rw [BootCPU.jump, hcr3, h.place_eq hdir hend, if_neg (by omega), if_pos ⟨hlow, hhigh⟩, Option.map_some]

end

/-! ### The hand-over -/

/-- What the boot code stores to: its tables, its stack, and the kernel's. -/
def BootImage.used (image : BootImage) : Set PhysicalAddress :=
  Span image.bootPageDirectory (3 * 4096) ∪ Span (image.bootStackTop - 8#32) 8 ∪
    Span (kernelPhysical (image.kernelStackTop - 12#32)) 12

/-- `KMain` is called with what the boot loader has left in `eax` and `ebx`. -/
structure HandedOver (image : BootImage) (s s' : BootCPU) : Prop where
  /-- It is entered, with interrupts off and paging on. -/
  entered : s'.eip = image.kMain ∧ s'.interruptFlag = false ∧ s'.state.cr0 = s.state.cr0 ||| 0x80000000#32
  /-- The return address and the two arguments are on the kernel's stack. -/
  stack : s'.esp = image.kernelStackTop - 12#32 ∧ s'.load s'.esp = some image.halt
  magic : s'.load (s'.esp + 4#32) = some s.state.eax
  info : s'.load (s'.esp + 8#32) = some s.state.ebx
  /-- The boot tables are in use. -/
  tables : s'.state.cr3 = image.bootPageDirectory ∧ BootTables image.bootPageDirectory s'.state.mem
  /-- Nothing else has changed. -/
  frame : ∀ x ∉ image.used, s'.state.mem x = s.state.mem x

/-- Memory when the boot loader's two values have been pushed. -/
def BootImage.pushed (image : BootImage) (s : BootState) : Foundations.Memory :=
  (s.mem.store32 (image.bootStackTop - 4#32) s.eax).store32 (image.bootStackTop - 4#32 - 4#32) s.ebx

/-- They are on the boot stack when paging is on. -/
theorem exists_paging {image : BootImage} (h : image.Linked) {s : BootCPU}
    (hzero : ∀ i : BitVec 32, i.toNat < 1024 → s.state.mem.load32 (entryAddress image.bootPageDirectory i) = 0#32)
    {fuel : ℕ} (hfuel : 1024 ≤ fuel) :
    ∃ state : BootState,
      kernelstart image.bootPageDirectory fuel { s.state with mem := image.pushed s.state } = some state ∧
      state.cr3 = image.bootPageDirectory ∧ BootTables image.bootPageDirectory state.mem ∧
      state.cr0 = s.state.cr0 ||| 0x80000000#32 ∧ state.mem.load32 (image.bootStackTop - 4#32) = s.state.eax ∧
      state.mem.load32 (image.bootStackTop - 8#32) = s.state.ebx ∧
      ∀ x ∉ Span image.bootPageDirectory (3 * 4096) ∪ Span (image.bootStackTop - 8#32) 8, state.mem x = s.state.mem x := by
  obtain ⟨hlow, hhigh⟩ := h.stack
  have htables := h.tables
  have hapart := h.stack_tables
  have h4 : (image.bootStackTop - 4#32).toNat = image.bootStackTop.toNat - 4 := by
    rw [BitVec.toNat_sub, show (4#32).toNat = 4 from rfl]
    omega
  have h8 : (image.bootStackTop - 8#32).toNat = image.bootStackTop.toNat - 8 := by
    rw [BitVec.toNat_sub, show (8#32).toNat = 8 from rfl]
    omega
  have hsub : image.bootStackTop - 4#32 - 4#32 = image.bootStackTop - 8#32 := by
    rw [BitVec.sub_sub]
    rfl
  -- the two words of the stack
  have hword4 : Span (image.bootStackTop - 4#32) 4 ⊆ Span (image.bootStackTop - 8#32) 8 := by
    intro x hx
    rw [mem_span_iff (by omega)] at hx ⊢
    omega
  have hword8 : Span (image.bootStackTop - 8#32) 4 ⊆ Span (image.bootStackTop - 8#32) 8 := Span.mono (by decide)
  have hwords : Disjoint (Span (image.bootStackTop - 4#32) 4) (Span (image.bootStackTop - 8#32) 4) := by
    refine (disjoint_span_of_le ?_ ?_).symm <;> omega
  rw [BootImage.pushed, hsub]
  generalize hmem : (s.state.mem.store32 (image.bootStackTop - 4#32) s.state.eax).store32 (image.bootStackTop - 8#32)
    s.state.ebx = mem
  have hsame : ∀ x ∉ Span (image.bootStackTop - 8#32) 8, mem x = s.state.mem x := by
    intro x hx
    rw [← hmem, Memory.store32_of_notMem fun hin => hx (hword8 hin), Memory.store32_of_notMem fun hin => hx (hword4 hin)]
  have hzero' : ∀ i : BitVec 32, i.toNat < 1024 → mem.load32 (entryAddress image.bootPageDirectory i) = 0#32 := by
    intro i hi
    have hat := entryAddress_toNat h.directory hi
    rw [← hzero i hi]
    refine Memory.load32_congr fun x hx => hsame x fun hin => Set.disjoint_left.mp hapart hin ?_
    rw [mem_span_iff (by omega)] at hx ⊢
    omega
  obtain ⟨state, hstate, hcr3, hboot⟩ := kernelstart_tables h.directory (by omega) hfuel
    (s := { s.state with mem := mem }) hzero'
  obtain ⟨hcr0, hframe⟩ := kernelstart_frame (by omega) hstate
  have hkept : ∀ a : BitVec 32, Span a 4 ⊆ Span (image.bootStackTop - 8#32) 8 → state.mem.load32 a = mem.load32 a :=
    fun a ha => Memory.load32_congr fun x hx => hframe x fun hin => Set.disjoint_left.mp hapart (ha hx) hin
  refine ⟨state, hstate, hcr3, hboot, hcr0, ?_, ?_, fun x hx => ?_⟩
  · rw [hkept _ hword4, ← hmem, Memory.load32_store32_of_disjoint hwords, Memory.load32_store32]
  · rw [hkept _ hword8, ← hmem, Memory.load32_store32]
  · exact (hframe x fun hin => hx (.inl hin)).trans (hsame x fun hin => hx (.inr hin))

/-- `_kernelstart_higherhalf`, with the boot tables in use and the two values on the boot stack. -/
theorem kernelstartHigherhalf_spec {image : BootImage} (h : image.Linked) {s : BootCPU}
    (hboot : BootTables image.bootPageDirectory s.state.mem) (hcr3 : s.state.cr3 = image.bootPageDirectory) {a b : BitVec 32}
    (ha : s.state.mem.load32 (image.bootStackTop - 4#32) = a) (hb : s.state.mem.load32 (image.bootStackTop - 8#32) = b) :
    ∃ s', kernelstartHigherhalf image s = some s' ∧ s'.eip = image.kMain ∧ s'.interruptFlag = s.interruptFlag ∧
      s'.state.cr0 = s.state.cr0 ∧ s'.state.cr3 = s.state.cr3 ∧ s'.esp = image.kernelStackTop - 12#32 ∧
      BootTables image.bootPageDirectory s'.state.mem ∧
      s'.state.mem = ((s.state.mem.store32 (kernelPhysical (image.kernelStackTop - 4#32)) b).store32
        (kernelPhysical (image.kernelStackTop - 8#32)) a).store32 (kernelPhysical (image.kernelStackTop - 12#32))
          image.halt := by
  have hdir := h.directory
  have htables := h.tables
  obtain ⟨hlow, hhigh⟩ := h.kernelStack
  obtain ⟨hslow, hshigh⟩ := h.stack
  obtain ⟨hklow, hkhigh⟩ := h.kMain_code
  have h4 : (image.kernelStackTop - 4#32).toNat = image.kernelStackTop.toNat - 4 := sub_toNat (n := 4) (by omega)
  have h8 : (image.kernelStackTop - 8#32).toNat = image.kernelStackTop.toNat - 8 := sub_toNat (n := 8) (by omega)
  have hs4 : (image.bootStackTop - 4#32).toNat = image.bootStackTop.toNat - 4 := sub_toNat (n := 4) (by omega)
  have hs8 : (image.bootStackTop - 8#32).toNat = image.bootStackTop.toNat - 8 := sub_toNat (n := 8) (by omega)
  have hsub8 : image.kernelStackTop - 4#32 - 4#32 = image.kernelStackTop - 8#32 := by rw [BitVec.sub_sub]; rfl
  have hsub12 : image.kernelStackTop - 8#32 - 4#32 = image.kernelStackTop - 12#32 := by rw [BitVec.sub_sub]; rfl
  let s₁ : BootCPU := { s with ebp := image.kernelStackTop, esp := image.kernelStackTop }
  have hload₁ : s₁.load (image.bootStackTop - 4#32) = some a := by
    rw [← ha]
    exact hboot.load_low (s := s₁) hdir (by omega) hcr3 (by omega)
  let s₂ : BootCPU := { s₁ with state := { s₁.state with ebx := a } }
  have hload₂ : s₂.load (image.bootStackTop - 8#32) = some b := by
    rw [← hb]
    exact hboot.load_low (s := s₂) hdir (by omega) hcr3 (by omega)
  let s₃ : BootCPU := { s₂ with state := { s₂.state with edx := b } }
  have hesp₃ : s₃.esp = image.kernelStackTop := rfl
  obtain ⟨s₄, hpush₄, h₄⟩ := hboot.pushPaged (s := s₃) hdir htables hcr3 (by rw [hesp₃]; omega) hhigh b
  have hesp₄ := h₄.esp
  rw [hesp₃] at hesp₄
  obtain ⟨s₅, hpush₅, h₅⟩ := h₄.tables.pushPaged hdir htables (h₄.cr3.trans hcr3) (by rw [hesp₄]; omega)
    (by rw [hesp₄]; omega) s₄.state.ebx
  have hesp₅ := h₅.esp
  rw [hesp₄, hsub8] at hesp₅
  obtain ⟨s₆, hpush₆, h₆⟩ := h₅.tables.pushPaged hdir htables (h₅.cr3.trans (h₄.cr3.trans hcr3))
    (by rw [hesp₅]; omega) (by rw [hesp₅]; omega) image.halt
  have hesp₆ := h₆.esp
  rw [hesp₅, hsub12] at hesp₆
  have hjump := h₆.tables.jump hdir (by omega) (h₆.cr3.trans (h₅.cr3.trans (h₄.cr3.trans hcr3))) hklow hkhigh
  refine ⟨{ s₆ with eip := image.kMain }, ?_, rfl, ?_, ?_, ?_, hesp₆, h₆.tables, ?_⟩
  · rw [kernelstartHigherhalf]
    change (s₁.load (image.bootStackTop - 4#32)).bind _ = _
    rw [hload₁, Option.bind_some]
    change (s₂.load (image.bootStackTop - 8#32)).bind _ = _
    rw [hload₂, Option.bind_some]
    change (s₃.pushPaged b).bind _ = _
    rw [hpush₄, Option.bind_some, hpush₅, Option.bind_some, hpush₆, Option.bind_some, hjump]
  · exact h₆.interruptFlag.trans (h₅.interruptFlag.trans h₄.interruptFlag)
  · exact h₆.cr0.trans (h₅.cr0.trans h₄.cr0)
  · exact h₆.cr3.trans (h₅.cr3.trans h₄.cr3)
  · change s₆.state.mem = _
    rw [h₆.mem, h₅.mem, h₄.mem, h₄.ebx, hesp₃, hesp₄, hesp₅, hsub8, hsub12]

/-- **From the boot loader to `KMain`**: when the image is linked so and the directory is loaded with zeros, `_kernelstart` calls
`KMain` with the boot loader's magic number and the address of its information, whatever they are, with interrupts off and
the boot tables in use, and has changed nothing but these tables and the two stacks. -/
theorem boot_hands_over (image : BootImage) (h : image.Linked) (s : BootCPU)
    (hzero : ∀ i : BitVec 32, i.toNat < 1024 → s.state.mem.load32 (entryAddress image.bootPageDirectory i) = 0#32)
    (fuel : ℕ) (hfuel : 1024 ≤ fuel) : ∃ s', enter image fuel s = some s' ∧ HandedOver image s s' := by
  obtain ⟨state, hstate, hcr3, hboot, hcr0, heax, hebx, hframe⟩ := exists_paging h hzero hfuel
  have hdir := h.directory
  have htables := h.tables
  obtain ⟨hlow, hhigh⟩ := h.kernelStack
  obtain ⟨hjlow, hjhigh⟩ := h.higherhalf
  -- paging is on: the jump
  let s₁ : BootCPU :=
    { s with
      interruptFlag := false
      ebp := image.bootStackTop
      esp := image.bootStackTop - 4#32 - 4#32
      state := { state with ebx := image.kernelstartHigherhalf } }
  have hjump : s₁.jump image.kernelstartHigherhalf = some { s₁ with eip := image.kernelstartHigherhalf } :=
    hboot.jump (s := s₁) hdir (by omega) hcr3 hjlow hjhigh
  obtain ⟨s', hs', heip, hif, hcr0', hcr3', hesp, hboot', hmem⟩ := kernelstartHigherhalf_spec h
    (s := { s₁ with eip := image.kernelstartHigherhalf }) hboot hcr3 heax hebx
  have henter : enter image fuel s = some s' := by
    rw [enter]
    change (kernelstart image.bootPageDirectory fuel { s.state with mem := image.pushed s.state }).bind _ = _
    rw [hstate, Option.bind_some]
    change (s₁.jump image.kernelstartHigherhalf).bind _ = _
    rw [hjump, Option.bind_some, hs']
  -- the words of the kernel's stack
  have h4 : (image.kernelStackTop - 4#32).toNat = image.kernelStackTop.toNat - 4 := sub_toNat (n := 4) (by omega)
  have h8 : (image.kernelStackTop - 8#32).toNat = image.kernelStackTop.toNat - 8 := sub_toNat (n := 8) (by omega)
  have h12 : (image.kernelStackTop - 12#32).toNat = image.kernelStackTop.toNat - 12 := sub_toNat (n := 12) (by omega)
  have hp4 := kernelPhysical_toNat (v := image.kernelStackTop - 4#32) (by omega) (by omega)
  have hp8 := kernelPhysical_toNat (v := image.kernelStackTop - 8#32) (by omega) (by omega)
  have hp12 := kernelPhysical_toNat (v := image.kernelStackTop - 12#32) (by omega) (by omega)
  have hup4 : image.kernelStackTop - 12#32 + 4#32 = image.kernelStackTop - 8#32 := by bv_omega
  have hup8 : image.kernelStackTop - 12#32 + 8#32 = image.kernelStackTop - 4#32 := by bv_omega
  have hdisj : ∀ {x y : BitVec 32}, x.toNat + 4 ≤ y.toNat → y.toNat + 4 ≤ 2 ^ 32 → Disjoint (Span x 4) (Span y 4) :=
    fun hxy hy => disjoint_span_of_le hxy hy
  have hcr3'' : s'.state.cr3 = image.bootPageDirectory := hcr3'.trans hcr3
  have hload : ∀ {v : VirtualAddress}, 0xC0000000 ≤ v.toNat → v.toNat + 4 ≤ 0xC0400000 →
      s'.load v = some (s'.state.mem.load32 (kernelPhysical v)) := fun hv hv' =>
    hboot'.load_high hdir (by omega) hcr3'' hv hv'
  have hhalt : s'.load s'.esp = some image.halt := by
    rw [hesp, hload (by omega) (by omega), hmem, Memory.load32_store32]
  have hmagic : s'.load (s'.esp + 4#32) = some s.state.eax := by
    rw [hesp, hup4, hload (by omega) (by omega), hmem,
      Memory.load32_store32_of_disjoint (hdisj (by omega) (by omega)).symm, Memory.load32_store32]
  have hinfo : s'.load (s'.esp + 8#32) = some s.state.ebx := by
    rw [hesp, hup8, hload (by omega) (by omega), hmem,
      Memory.load32_store32_of_disjoint (hdisj (by omega) (by omega)).symm,
      Memory.load32_store32_of_disjoint (hdisj (by omega) (by omega)).symm, Memory.load32_store32]
  refine ⟨s', henter, ⟨heip, hif, hcr0'.trans hcr0⟩, ⟨hesp, hhalt⟩, hmagic, hinfo, ⟨hcr3'', hboot'⟩, fun x hx => ?_⟩
  have hstack : x ∉ Span (kernelPhysical (image.kernelStackTop - 12#32)) 12 := fun hin => hx (.inr hin)
  rw [mem_span_iff (by omega)] at hstack
  have hnot : ∀ y : BitVec 32, (kernelPhysical (image.kernelStackTop - 12#32)).toNat ≤ y.toNat →
      y.toNat ≤ (kernelPhysical (image.kernelStackTop - 12#32)).toNat + 8 → x ∉ Span y 4 := by
    intro y hy hy' hin
    rw [mem_span_iff (by omega)] at hin
    omega
  rw [hmem, Memory.store32_of_notMem (hnot _ (by omega) (by omega)), Memory.store32_of_notMem (hnot _ (by omega) (by omega)),
    Memory.store32_of_notMem (hnot _ (by omega) (by omega))]
  exact hframe x fun hin => hx (.inl hin)

/-- An image at the linker's addresses. -/
def bootImage : BootImage where
  bootPageDirectory := 0x101000#32
  bootStackTop := 0x109000#32
  kernelstartHigherhalf := 0xC0000000#32
  kernelStackTop := 0xC0110000#32
  kMain := 0xC0001000#32
  halt := 0xC0000020#32

theorem linked_bootImage : bootImage.Linked where
  directory := rfl
  tables := by simp [bootImage]
  stack := by simp [bootImage]
  stack_tables := (disjoint_span_of_le (by simp [bootImage]) (by simp [bootImage])).symm
  kernelStack := by simp [bootImage]
  higherhalf := by simp [bootImage]
  kMain_code := by simp [bootImage]

theorem boot_hands_over_bootImage :
    ∃ s', enter bootImage 1024 ⟨⟨0x2BADB002#32, 0x9500#32, 0#32, 0#32, 0x11#32, 0#32, fun _ => 0#8⟩, 0#32, 0#32, 0#32, true⟩ =
      some s' ∧
    HandedOver bootImage
      ⟨⟨0x2BADB002#32, 0x9500#32, 0#32, 0#32, 0x11#32, 0#32, fun _ => 0#8⟩, 0#32, 0#32, 0#32, true⟩ s' :=
  boot_hands_over bootImage linked_bootImage _ (fun _ _ => by simp [Memory.load32]) 1024 le_rfl

end EagleOS.Arch
