import EagleOS.Foundations.Memory

/-!
# Records in a byte memory

A word lies in memory as its bytes, least significant first, a record as its words one after the other, and an array as its
records one after the other. `BytesAt` says that a list of bytes lies at an address.

## What is proved

* `bytesAt_append` — a list lies at an address if its first part does, and its second part after it.
* `BytesAt.load32` — a word is loaded from its bytes.
* `readRecords_of_bytesAt` — an array is read back record by record, whatever comes after it.
-/

namespace EagleOS.Foundations

variable {α β : Type*} {m m' : Memory} {a : BitVec 32} {b : BitVec 8} {bs cs : List (BitVec 8)}

/-! ### Bytes -/

/-- The bytes of a list lie one after the other from `a` on. -/
def BytesAt (m : Memory) (a : BitVec 32) : List (BitVec 8) → Prop
  | [] => True
  | b :: bs => m a = b ∧ BytesAt m (a + 1#32) bs

@[simp] theorem bytesAt_nil : BytesAt m a [] := trivial

@[simp] theorem bytesAt_cons : BytesAt m a (b :: bs) ↔ m a = b ∧ BytesAt m (a + 1#32) bs := Iff.rfl

/-- Two lists, one after the other. -/
theorem bytesAt_append : BytesAt m a (bs ++ cs) ↔ BytesAt m a bs ∧ BytesAt m (a + BitVec.ofNat 32 bs.length) cs := by
  induction bs generalizing a with
  | nil => simp
  | cons b bs ih =>
    have hlength : a + 1#32 + BitVec.ofNat 32 bs.length = a + BitVec.ofNat 32 (bs.length + 1) := by
      rw [BitVec.add_assoc, BitVec.add_comm 1#32, ← BitVec.ofNat_add]
    rw [List.cons_append, bytesAt_cons, ih, bytesAt_cons, List.length_cons, hlength, and_assoc]

/-- Only the bytes from `a` on count. -/
theorem BytesAt.congr (h : BytesAt m a bs) (hlen : bs.length ≤ 2 ^ 32) (hm : ∀ x ∈ Span a bs.length, m' x = m x) :
    BytesAt m' a bs := by
  induction bs generalizing a with
  | nil => trivial
  | cons b bs ih =>
    rw [List.length_cons] at hlen hm
    refine ⟨(hm a (self_mem_span (Nat.succ_pos _))).trans h.1, ih h.2 (by omega) fun x hx => hm x ?_⟩
    obtain ⟨i, hi, rfl⟩ := (mem_span_iff_exists (by omega)).mp hx
    exact (mem_span_iff_exists hlen).mpr ⟨i + 1, by omega, by rw [BitVec.add_assoc, BitVec.add_comm 1#32, ← BitVec.ofNat_add]⟩

/-- Each byte lies where it should. -/
theorem bytesAt_of_getElem (h : ∀ i (hi : i < bs.length), m (a + BitVec.ofNat 32 i) = bs[i]) : BytesAt m a bs := by
  induction bs generalizing a with
  | nil => trivial
  | cons b bs ih =>
    refine ⟨by simpa using h 0 (Nat.succ_pos _), ih fun i hi => ?_⟩
    rw [BitVec.add_assoc, ← BitVec.ofNat_add, Nat.add_comm]
    exact h (i + 1) (Nat.succ_lt_succ hi)

/-- The memory that holds these bytes from `a` on, and zeros. -/
def holding (a : BitVec 32) (bs : List (BitVec 8)) : Memory := fun x => bs[(x - a).toNat]?.getD 0#8

theorem bytesAt_holding (a : BitVec 32) (hlen : bs.length ≤ 2 ^ 32) : BytesAt (holding a bs) a bs := by
  refine bytesAt_of_getElem fun i hi => ?_
  have hindex : (a + BitVec.ofNat 32 i - a).toNat = i := by
    rw [BitVec.add_comm, BitVec.add_sub_cancel, BitVec.toNat_ofNat, Nat.mod_eq_of_lt (by omega)]
  rw [holding, hindex, List.getElem?_eq_getElem hi, Option.getD_some]

theorem holding_of_notMem {x : BitVec 32} (h : x ∉ Span a bs.length) : holding a bs x = 0#8 := by
  rw [mem_span, Nat.not_lt] at h
  rw [holding, List.getElem?_eq_none h, Option.getD_none]

/-! ### Words -/

/-- The bytes of a word of `n` bytes, least significant first. -/
def wordBytes (n : ℕ) (x : BitVec (8 * n)) : List (BitVec 8) := (List.range n).map fun i => x.extractLsb' (8 * i) 8

@[simp] theorem length_wordBytes (n : ℕ) (x : BitVec (8 * n)) : (wordBytes n x).length = n := by
  simp [wordBytes]

/-- The bytes of four. -/
theorem wordBytes_four (x : BitVec 32) :
    wordBytes 4 x = [x.extractLsb' 0 8, x.extractLsb' 8 8, x.extractLsb' 16 8, x.extractLsb' 24 8] := by
  simp [wordBytes, List.range_succ]

/-- A word is loaded from its bytes. -/
theorem BytesAt.load32 {x : BitVec 32} (h : BytesAt m a (wordBytes 4 x)) : m.load32 a = x := by
  rw [wordBytes_four] at h
  obtain ⟨h0, h1, h2, h3, -⟩ := h
  rw [BitVec.add_assoc] at h2
  rw [BitVec.add_assoc, BitVec.add_assoc] at h3
  rw [Memory.load32, h0, h1, show 2#32 = 1#32 + 1#32 from rfl, h2, show 3#32 = 1#32 + (1#32 + 1#32) from rfl, h3]
  exact Memory.join_bytes x

/-- Eight bytes are those of two words. -/
theorem wordBytes_eight (x : BitVec 64) :
    wordBytes 8 x = wordBytes 4 (x.extractLsb' 0 32) ++ wordBytes 4 (x.extractLsb' 32 32) := by
  have hlow : ∀ i : ℕ, i + 8 ≤ 32 → (x.extractLsb' 0 32).extractLsb' i 8 = x.extractLsb' i 8 := by
    intro i hi
    ext j hj
    have hij : i + j < 32 := by omega
    simp [hij]
  have hhigh : ∀ i : ℕ, i + 8 ≤ 32 → (x.extractLsb' 32 32).extractLsb' i 8 = x.extractLsb' (32 + i) 8 := by
    intro i hi
    ext j hj
    have hij : i + j < 32 := by omega
    simp [hij, Nat.add_assoc]
  rw [wordBytes_four, wordBytes_four, hlow 0 (by omega), hlow 8 (by omega), hlow 16 (by omega), hlow 24 (by omega),
    hhigh 0 (by omega), hhigh 8 (by omega), hhigh 16 (by omega), hhigh 24 (by omega)]
  simp [wordBytes, List.range_succ]

/-! ### Records -/

/-- How the records of a type lie in memory. -/
structure RecordFormat (α : Type*) where
  /-- The bytes of a record. -/
  size : ℕ
  /-- What they are. -/
  bytes : α → List (BitVec 8)
  length_bytes : ∀ x, (bytes x).length = size

namespace RecordFormat

variable (f : RecordFormat α) {rs : List α} {rest : List (BitVec 8)}

/-- The bytes of an array. -/
def arrayBytes (rs : List α) : List (BitVec 8) := rs.flatMap f.bytes

@[simp] theorem length_arrayBytes (rs : List α) : (f.arrayBytes rs).length = rs.length * f.size := by
  induction rs with
  | nil => simp [arrayBytes]
  | cons r rs ih =>
    rw [arrayBytes] at ih ⊢
    rw [List.flatMap_cons, List.length_append, ih, f.length_bytes, List.length_cons, Nat.succ_mul, Nat.add_comm]

/-- How many records the bytes hold: what is left at the end, if it is less than a record, does not count. -/
theorem length_div_size (hrest : rest.length < f.size) : (f.arrayBytes rs ++ rest).length / f.size = rs.length := by
  rw [List.length_append, length_arrayBytes, Nat.add_comm, Nat.add_mul_div_right _ _ (Nat.zero_lt_of_lt hrest),
    Nat.div_eq_of_lt hrest, Nat.zero_add]

/-- Each record of an array lies where it should. -/
theorem bytesAt_getElem (h : BytesAt m a (f.arrayBytes rs ++ rest)) {i : ℕ} (hi : i < rs.length) :
    BytesAt m (a + BitVec.ofNat 32 (i * f.size)) (f.bytes rs[i]) := by
  induction rs generalizing a i with
  | nil => exact absurd hi (Nat.not_lt_zero _)
  | cons r rs ih =>
    rw [arrayBytes, List.flatMap_cons, List.append_assoc, bytesAt_append, f.length_bytes] at h
    cases i with
    | zero => simpa using h.1
    | succ i =>
      have hnext : a + BitVec.ofNat 32 f.size + BitVec.ofNat 32 (i * f.size) = a + BitVec.ofNat 32 ((i + 1) * f.size) := by
        rw [BitVec.add_assoc, ← BitVec.ofNat_add, Nat.add_comm, ← Nat.succ_mul]
      simpa [hnext] using ih h.2 (Nat.lt_of_succ_lt_succ hi)

end RecordFormat

/-- Read an array of `n` records, with what reads one record. -/
def readRecords (read : BitVec 32 → Option β) (size : ℕ) (a : BitVec 32) : ℕ → Option (List β)
  | 0 => some []
  | n + 1 => (read a).bind fun r => (readRecords read size (a + BitVec.ofNat 32 size) n).map (r :: ·)

/-- It gives what reading each record gives. -/
theorem readRecords_eq {read : BitVec 32 → Option β} {size : ℕ} {rs : List β}
    (h : ∀ i (hi : i < rs.length), read (a + BitVec.ofNat 32 (i * size)) = some rs[i]) :
    readRecords read size a rs.length = some rs := by
  induction rs generalizing a with
  | nil => rfl
  | cons r rs ih =>
    have hfirst := h 0 (Nat.succ_pos _)
    rw [Nat.zero_mul, BitVec.add_zero, List.getElem_cons_zero] at hfirst
    have hrest := ih (a := a + BitVec.ofNat 32 size) fun i hi => by
      have hnext := h (i + 1) (Nat.succ_lt_succ hi)
      rw [List.getElem_cons_succ, Nat.succ_mul, Nat.add_comm, BitVec.ofNat_add, ← BitVec.add_assoc] at hnext
      exact hnext
    rw [List.length_cons, readRecords, hfirst, Option.bind_some, hrest, Option.map_some]

/-- **An array is read back**, whatever comes after it. -/
theorem readRecords_of_bytesAt (f : RecordFormat α) {read : BitVec 32 → Option β} {value : α → β} {rs : List α}
    {rest : List (BitVec 8)} (h : BytesAt m a (f.arrayBytes rs ++ rest)) (hrest : rest.length < f.size)
    (hread : ∀ i (hi : i < rs.length), BytesAt m (a + BitVec.ofNat 32 (i * f.size)) (f.bytes rs[i]) →
      read (a + BitVec.ofNat 32 (i * f.size)) = some (value rs[i])) :
    readRecords read f.size a ((f.arrayBytes rs ++ rest).length / f.size) = some (rs.map value) := by
  have hall : readRecords read f.size a (rs.map value).length = some (rs.map value) := readRecords_eq fun i hi => by
    rw [List.length_map] at hi
    rw [List.getElem_map]
    exact hread i hi (f.bytesAt_getElem h hi)
  rwa [List.length_map, ← f.length_div_size hrest] at hall

end EagleOS.Foundations
