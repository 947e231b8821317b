import EagleOS.ESTD.StringContents

/-!
# The strings of `ATADeviceInfo`

The model number and the serial number of a drive are arrays of words, with two characters to a word, the first of them
in the high byte.

## The model

`ATADeviceInfo` has the two arrays, and no other member. The two functions have one loop in common; what it does at the
end of its body is an early return.

## What is proved

* `makes_unpackWords` — one character of a word goes into the string, up to the first word that is zero.
* `identify_strings_halved` — so half of the characters are missing where no byte is zero.
-/

namespace EagleOS.Drivers

open Foundations ESTD

/-- `ATADeviceInfo`. -/
structure ATADeviceInfo where
  /-- `ModelNumber`. -/
  modelNumber : Vector (BitVec 16) 20
  /-- `SerialNumber`. -/
  serialNumber : Vector (BitVec 16) 10

/-- The low byte of a word. -/
def lowByte (word : BitVec 16) : BitVec 8 := (word &&& 0xFF#16).setWidth 8

/-- The high byte of a word. -/
def highByte (word : BitVec 16) : BitVec 8 := (word >>> 8 &&& 0xFF#16).setWidth 8

/-- The loop of `GetModelNumberString` and `GetSerialNumberString`, over the words that are left. -/
def unpackWords : List (BitVec 16) → ESTD.String → Action ESTD.String
  | [], str => pure str
  | word :: words, str => do
    let c1 := lowByte word
    let c2 := highByte word
    let str ← str.appendChar (if c1 ≠ 0#8 then c1 else c2)
    if c1 = 0#8 ∧ c2 = 0#8 then pure str else unpackWords words str

namespace ATADeviceInfo

/-- `GetModelNumberString`. -/
def getModelNumberString (info : ATADeviceInfo) : Action ESTD.String := unpackWords info.modelNumber.toList .empty

/-- `GetSerialNumberString`. -/
def getSerialNumberString (info : ATADeviceInfo) : Action ESTD.String := unpackWords info.serialNumber.toList .empty

end ATADeviceInfo

/-- The characters of words, as ATA packs them. -/
def packed (words : List (BitVec 16)) : List (BitVec 8) := words.flatMap fun word => [highByte word, lowByte word]

/-- The characters that the loop finds: one in a word, and none from the first word on that is zero. -/
def unpacked : List (BitVec 16) → List (BitVec 8)
  | [] => []
  | word :: words =>
    if lowByte word = 0#8 ∧ highByte word = 0#8 then []
    else (if lowByte word ≠ 0#8 then lowByte word else highByte word) :: unpacked words

section

variable {w : Buffers} {str : ESTD.String} {words : List (BitVec 16)} {xs : List (BitVec 8)}

theorem length_packed (words : List (BitVec 16)) : (packed words).length = 2 * words.length := by
  simp [packed, Nat.mul_comm]

/-- Where no low byte is zero, these are the low bytes. -/
theorem unpacked_eq_map (h : ∀ word ∈ words, lowByte word ≠ 0#8) : unpacked words = words.map lowByte := by
  induction words with
  | nil => rfl
  | cons word words ih =>
    rw [List.forall_mem_cons] at h
    rw [unpacked, if_neg fun hzero => h.1 hzero.1, if_pos h.1, ih h.2, List.map_cons]

/-- The loop appends what it finds. -/
theorem makes_unpackWords (hdel : ∀ id ∈ w.deleted, id < w.blocks.length) (h : Content w str xs)
    (hlen : xs.length + words.length + 1 < 2 ^ 32) : Makes w (unpackWords words str) (xs ++ unpacked words) := by
  induction words generalizing w str xs with
  | nil =>
    rw [unpacked, List.append_nil]
    exact ⟨str, w, rfl, rfl, fun _ _ hid => hid, h⟩
  | cons word words ih =>
    rw [List.length_cons] at hlen
    have hchar := makes_appendChar hdel h (by omega) (if lowByte word ≠ 0#8 then lowByte word else highByte word)
    have hyields := fun k => yields_become (@yields_addChar k str (if lowByte word ≠ 0#8 then lowByte word else highByte word))
    refine hchar.bind hyields hdel fun str' w' hdel' _ hstr' => ?_
    by_cases hzero : lowByte word = 0#8 ∧ highByte word = 0#8
    · simp only [hzero, and_self, if_true, ne_eq, not_true_eq_false, if_false] at hstr' ⊢
      rw [unpacked, if_pos hzero, List.append_nil]
      exact ⟨str', w', rfl, rfl, fun _ _ hid => hid, hstr'⟩
    · have hne : (if lowByte word ≠ 0#8 then lowByte word else highByte word) ≠ 0#8 := by
        by_cases hlow : lowByte word = 0#8
        · rw [if_neg (not_not.mpr hlow)]
          exact fun hhigh => hzero ⟨hlow, hhigh⟩
        · rw [if_pos hlow]
          exact hlow
      rw [if_neg hne] at hstr'
      rw [if_neg hzero, unpacked, if_neg hzero, List.append_cons]
      exact ih hdel' hstr' (by simp; omega)

/-- From the empty string. -/
theorem makes_unpackWords_empty (hdel : ∀ id ∈ w.deleted, id < w.blocks.length) (hlen : words.length + 1 < 2 ^ 32) :
    Makes w (unpackWords words .empty) (unpacked words) :=
  makes_unpackWords hdel (content_nil rfl rfl) (by simpa using hlen)

/-- Half of the characters are missing. -/
theorem not_makes_packed (hdel : ∀ id ∈ w.deleted, id < w.blocks.length) (hlen : words.length + 1 < 2 ^ 32) (hne : words ≠ [])
    (h : ∀ word ∈ words, lowByte word ≠ 0#8) : ¬ Makes w (unpackWords words .empty) (packed words) := by
  intro hpacked
  have hsame := hpacked.length_eq (makes_unpackWords_empty hdel hlen)
  rw [length_packed, unpacked_eq_map h, List.length_map] at hsame
  have hpos := List.length_pos_iff.mpr hne
  omega

/-- **The identify strings** are never those that the drive has sent, where no byte is zero: they are the low bytes of
the words. -/
theorem identify_strings_halved (w : Buffers) (hdel : ∀ id ∈ w.deleted, id < w.blocks.length) (info : ATADeviceInfo)
    (hmodel : ∀ word ∈ info.modelNumber.toList, highByte word ≠ 0#8 ∧ lowByte word ≠ 0#8)
    (hserial : ∀ word ∈ info.serialNumber.toList, highByte word ≠ 0#8 ∧ lowByte word ≠ 0#8) :
    ¬ Makes w info.getModelNumberString (packed info.modelNumber.toList) ∧
      ¬ Makes w info.getSerialNumberString (packed info.serialNumber.toList) ∧
      Makes w info.getModelNumberString (info.modelNumber.toList.map lowByte) ∧
      Makes w info.getSerialNumberString (info.serialNumber.toList.map lowByte) := by
  have hmodelLow := fun word hword => (hmodel word hword).2
  have hserialLow := fun word hword => (hserial word hword).2
  have hmodelLen : info.modelNumber.toList.length = 20 := Vector.length_toList
  have hserialLen : info.serialNumber.toList.length = 10 := Vector.length_toList
  refine ⟨not_makes_packed hdel (by omega) (List.ne_nil_of_length_eq_add_one hmodelLen) hmodelLow,
    not_makes_packed hdel (by omega) (List.ne_nil_of_length_eq_add_one hserialLen) hserialLow, ?_, ?_⟩
  · rw [← unpacked_eq_map hmodelLow]
    exact makes_unpackWords_empty hdel (by omega)
  · rw [← unpacked_eq_map hserialLow]
    exact makes_unpackWords_empty hdel (by omega)

end

/-- A drive whose words are all `AB`. -/
def driveAb : ATADeviceInfo := ⟨Vector.replicate 20 0x4142#16, Vector.replicate 10 0x4142#16⟩

/-- No block has been handed out. -/
def firstBlocks : Buffers := .empty (fun _ => 0#8) fun _ _ => 0#8

/-- The strings of that drive are of `B`s. -/
theorem identify_strings_halved_ab : ¬ Makes firstBlocks driveAb.getModelNumberString (packed driveAb.modelNumber.toList) ∧
    ¬ Makes firstBlocks driveAb.getSerialNumberString (packed driveAb.serialNumber.toList) ∧
    Makes firstBlocks driveAb.getModelNumberString (List.replicate 20 0x42#8) ∧
    Makes firstBlocks driveAb.getSerialNumberString (List.replicate 10 0x42#8) := by
  have hbytes : ∀ n, ∀ word ∈ List.replicate n 0x4142#16, highByte word ≠ 0#8 ∧ lowByte word ≠ 0#8 := by
    intro n word hword
    rw [List.eq_of_mem_replicate hword]
    decide
  have hstrings := identify_strings_halved firstBlocks (by simp [firstBlocks, Buffers.empty]) driveAb
    (by simpa only [driveAb, Vector.toList_replicate] using hbytes 20)
    (by simpa only [driveAb, Vector.toList_replicate] using hbytes 10)
  have hmodel : driveAb.modelNumber.toList.map lowByte = List.replicate 20 0x42#8 := by decide
  have hserial : driveAb.serialNumber.toList.map lowByte = List.replicate 10 0x42#8 := by decide
  rwa [hmodel, hserial] at hstrings

/-- Its model number has 20 characters, and not 40. -/
theorem model_number_of_twenty : ∃ str w', driveAb.getModelNumberString.run firstBlocks = some (str, w') ∧ str.size = 20#32 ∧
    (packed driveAb.modelNumber.toList).length = 40 := by
  have hmakes : Makes firstBlocks driveAb.getModelNumberString (unpacked driveAb.modelNumber.toList) :=
    makes_unpackWords_empty (by simp [firstBlocks, Buffers.empty]) (by decide)
  obtain ⟨str, w', hrun, -, -, hcontent⟩ := hmakes
  have hsize : str.size.toNat = 20 := by
    rw [← hcontent.size]
    decide
  exact ⟨str, w', hrun, BitVec.eq_of_toNat_eq hsize, by decide⟩

end EagleOS.Drivers
