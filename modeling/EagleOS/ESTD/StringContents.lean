import EagleOS.ESTD.StringOwnership

/-!
# What is in the buffers of the strings

A string that is made from a text, or from strings, holds the text and the zero that ends it, and no function reads
or writes outside of the buffers — as long as nothing is done with strings that have a size and no buffer, and no
buffer is made without room for the zero.

## What is proved

* `makes_ofText`, `makes_add`, … — what the functions make, whatever blocks there are.
* `Content.wellFormed` — a string that holds characters is terminated at its size.
* `Strings.Sound.step` — a sound call returns, with no access outside, and leaves strings that hold texts.
-/

namespace EagleOS.ESTD

open Foundations Buffers CString Ownership

/-- The string has no buffer and no size, or a buffer in which the first zero is at the size. -/
def WellFormed (w : Buffers) (str : String) : Prop :=
  str.data = .null ∧ str.size = 0#32 ∨
    ∃ id xs rest, str.data = ⟨.block id, 0⟩ ∧ w.Has id (xs ++ 0#8 :: rest) ∧ 0#8 ∉ xs ∧ xs.length = str.size.toNat

/-- The string holds these characters: without a buffer, none; else they and a zero are all that is in the buffer. -/
structure Content (w : Buffers) (str : String) (xs : List (BitVec 8)) : Prop where
  /-- The buffer. -/
  data : str.data = .null ∧ xs = [] ∨ ∃ id, str.data = ⟨.block id, 0⟩ ∧ w.Has id (xs ++ [0#8])
  /-- No character is zero. -/
  nonzero : 0#8 ∉ xs
  /-- The size is their number. -/
  size : xs.length = str.size.toNat
  /-- They fit in the address space. -/
  fits : xs.length + 1 < 2 ^ 32

/-- The action makes a string that holds these characters, and leaves the buffers that there are. -/
def Makes (w : Buffers) (a : Action String) (xs : List (BitVec 8)) : Prop :=
  ∃ str w', a.run w = some (str, w') ∧ w'.strays = w.strays ∧ (∀ id bs, w.Has id bs → w'.Has id bs) ∧ Content w' str xs

section

variable {w w' : Buffers} {s rhs : String} {p : Pointer} {xs ys bs : List (BitVec 8)} {a : Action String}

/-- In the buffer of a well-formed string a zero is at the size, and none before. -/
theorem WellFormed.zero {id : ℕ} (h : WellFormed w s) (hdata : s.data = ⟨.block id, 0⟩) (hbs : w.blocks[id]? = some bs) :
    bs[s.size.toNat]? = some 0#8 ∧ 0#8 ∉ bs.take s.size.toNat := by
  rcases h with ⟨hnull, -⟩ | ⟨id', xs, rest, hid, hhas, hxs, hlen⟩
  · cases hdata.symm.trans hnull
  · cases hdata.symm.trans hid
    obtain rfl : bs = xs ++ 0#8 :: rest := Option.some.inj (hbs.symm.trans hhas.contents)
    rw [← hlen]
    simp [hxs]

theorem Content.wellFormed (h : Content w s xs) : WellFormed w s := by
  obtain ⟨hnull, rfl⟩ | ⟨id, hdata, hid⟩ := h.data
  · exact .inl ⟨hnull, BitVec.eq_of_toNat_eq (by simpa using h.size.symm)⟩
  · exact .inr ⟨id, xs, [], hdata, hid, h.nonzero, h.size⟩

/-- A string that holds no characters, and has no buffer. -/
theorem content_nil (hdata : s.data = .null) (hsize : s.size = 0#32) : Content w s [] :=
  ⟨.inl ⟨hdata, rfl⟩, by simp, by simp [hsize], by simp⟩

/-- A string stays what it is where its buffer does. -/
theorem Content.mono (h : Content w s xs) (hkeep : ∀ id bs, w.Has id bs → w'.Has id bs) : Content w' s xs := by
  refine ⟨?_, h.nonzero, h.size, h.fits⟩
  obtain hnull | ⟨id, hdata, hid⟩ := h.data
  · exact .inl hnull
  · exact .inr ⟨id, hdata, hkeep id _ hid⟩

theorem Content.isText (h : Content w s xs) (hdata : s.data ≠ .null) : w.IsText s.data xs := by
  obtain ⟨hnull, -⟩ | ⟨id, hid, hhas⟩ := h.data
  · exact absurd hnull hdata
  · have hfits := h.fits
    exact ⟨hid ▸ hhas.reads (by simp; omega), h.nonzero, h.fits⟩

/-- Where there is no buffer, there is nothing to read. -/
theorem Content.reads (h : Content w s xs) : w.Reads s.data xs := by
  obtain ⟨-, rfl⟩ | ⟨id, hid, -⟩ := h.data
  · exact reads_nil
  · exact (reads_append.mp (h.isText (by simp [hid, Pointer.null])).reads).1

/-- A string is not in the buffer that is handed out next. -/
theorem Content.base_ne (h : Content w s xs) : s.data.base ≠ .block w.blocks.length := by
  obtain ⟨hnull, -⟩ | ⟨id, hid, hhas⟩ := h.data
  · simp [hnull, Pointer.null]
  · have hlt : id < w.blocks.length := (List.getElem?_eq_some_iff.mp hhas.contents).1
    simpa [hid] using Nat.ne_of_lt hlt

/-- A string in the buffer that has just been handed out. -/
theorem content_grow (hdel : ∀ id ∈ w.deleted, id < w.blocks.length) (hxs : 0#8 ∉ xs) (hfits : xs.length + 1 < 2 ^ 32) :
    Content (w.grow (xs ++ [0#8])) ⟨⟨.block w.blocks.length, 0⟩, BitVec.ofNat 32 xs.length⟩ xs := by
  refine ⟨.inr ⟨w.blocks.length, rfl, has_grow hdel⟩, hxs, ?_, hfits⟩
  rw [BitVec.toNat_ofNat]
  omega

/-! ### The member functions -/

/-- A string of no characters has no buffer. -/
theorem makes_filled_zero (w : Buffers) (ch : BitVec 8) : Makes w (String.filled 0#32 ch) [] :=
  ⟨⟨.null, 0#32⟩, w, rfl, rfl, fun _ _ hid => hid, content_nil rfl rfl⟩

/-- The string that is made from a text. -/
theorem run_ofText (hdel : ∀ id ∈ w.deleted, id < w.blocks.length) (h : w.IsText p xs) : (String.ofText p).run w =
    some (⟨⟨.block w.blocks.length, 0⟩, BitVec.ofNat 32 xs.length⟩, w.grow (xs ++ [0#8])) := by
  simp only [String.ofText, Action.run_bind, run_strdup h hdel, run_strlen h.grow, Option.bind_eq_bind, Option.bind_some]
  rfl

theorem makes_ofText (hdel : ∀ id ∈ w.deleted, id < w.blocks.length) (h : w.IsText p xs) : Makes w (String.ofText p) xs :=
  ⟨_, w.grow (xs ++ [0#8]), run_ofText hdel h, rfl, fun _ _ hid => hid.grow, content_grow hdel h.nonzero h.fits⟩

theorem makes_ofPrefix {size : SizeT} (hdel : ∀ id ∈ w.deleted, id < w.blocks.length) (h : w.IsText p xs)
    (hsize : size.toNat ≤ xs.length) : Makes w (String.ofPrefix p size) (xs.take size.toNat) := by
  have hfits := h.fits
  have hlen : (xs.take size.toNat).length = size.toNat := by simp [hsize]
  have hnonzero : 0#8 ∉ xs.take size.toNat := fun hz => h.nonzero (List.mem_of_mem_take hz)
  have hcontent := content_grow hdel hnonzero (by omega)
  rw [hlen, BitVec.ofNat_toNat, BitVec.setWidth_eq] at hcontent
  refine ⟨_, w.grow (xs.take size.toNat ++ [0#8]), ?_, rfl, fun _ _ hid => hid.grow, hcontent⟩
  simp only [String.ofPrefix, Action.run_bind, run_strndup h hsize hdel, Option.bind_eq_bind, Option.bind_some]
  rfl

theorem makes_copy (hdel : ∀ id ∈ w.deleted, id < w.blocks.length) (h : Content w rhs xs) (hdata : rhs.data ≠ .null) :
    Makes w (String.copy rhs) xs := by
  have htext := h.isText hdata
  have hcontent := content_grow hdel htext.nonzero htext.fits
  rw [h.size, BitVec.ofNat_toNat, BitVec.setWidth_eq] at hcontent
  refine ⟨_, w.grow (xs ++ [0#8]), ?_, rfl, fun _ _ hid => hid.grow, hcontent⟩
  simp only [String.copy, Action.run_bind, run_strdup htext hdel, Option.bind_eq_bind, Option.bind_some]
  rfl

/-- The assignment is a copy. -/
theorem makes_assign (hdel : ∀ id ∈ w.deleted, id < w.blocks.length) (h : Content w rhs xs) (hdata : rhs.data ≠ .null) :
    Makes w (String.assign rhs) xs := makes_copy hdel h hdata

/-- A buffer that has just been handed out is filled with what makes a text, and a string is made from it. -/
theorem makes_ofBuffer (hdel : ∀ id ∈ w.deleted, id < w.blocks.length) (hbs : bs = xs ++ 0#8 :: ys) (hxs : 0#8 ∉ xs)
    (hfits : bs.length < 2 ^ 32) : Makes (w.grow bs) (String.ofText ⟨.block w.blocks.length, 0⟩) xs := by
  subst hbs
  rw [List.length_append, List.length_cons] at hfits
  have hhas : (w.grow (xs ++ 0#8 :: ys)).Has w.blocks.length (xs ++ 0#8 :: ys) := has_grow hdel
  have hreads : (w.grow (xs ++ 0#8 :: ys)).Reads ⟨.block w.blocks.length, 0⟩ (xs ++ [0#8] ++ ys) := by
    simpa using hhas.reads (by simp; omega)
  refine makes_ofText ?_ ⟨(reads_append.mp hreads).1, hxs, by omega⟩
  intro id hid
  have := hdel id hid
  rw [length_grow]
  omega

/-- `Memcpy` into the buffer that has just been handed out. -/
theorem run_memcpy_grow (pre post : List (BitVec 8)) (hdel : ∀ id ∈ w.deleted, id < w.blocks.length)
    (hys : ys.length = xs.length) (hroom : pre.length + xs.length ≤ 2 ^ 32) (hp : p.base ≠ .block w.blocks.length)
    (hreads : w.Reads p xs) :
    (CString.memcpy ((⟨.block w.blocks.length, 0⟩ : Pointer) + pre.length) p xs.length).run (w.grow (pre ++ ys ++ post)) =
      some ((), w.grow (pre ++ xs ++ post)) := by
  have hhas : (w.grow (pre ++ ys ++ post)).Has w.blocks.length (pre ++ ys ++ post) := has_grow hdel
  rw [run_memcpy hhas rfl (by simp) hys hroom hp hreads.grow, put_grow]

/-- A byte is stored there. -/
theorem run_store_grow (xs ys : List (BitVec 8)) (b c : BitVec 8) (hdel : ∀ id ∈ w.deleted, id < w.blocks.length)
    (hroom : xs.length < 2 ^ 32) :
    (store ((⟨.block w.blocks.length, 0⟩ : Pointer) + xs.length) c).run (w.grow (xs ++ b :: ys)) =
      some ((), w.grow (xs ++ c :: ys)) := by
  have hhas : (w.grow (xs ++ b :: ys)).Has w.blocks.length (xs ++ b :: ys) := has_grow hdel
  rw [run_store hhas hroom rfl (by simp) c, put_grow]

/-- What is in a buffer for two texts and a zero, before they are. -/
theorem exists_split {k l : ℕ} (h : bs.length = k + l + 1) : ∃ us vs b, bs = us ++ (vs ++ [b]) ∧ us.length = k ∧ vs.length = l := by
  obtain ⟨b, hb⟩ : ∃ b, (bs.drop k).drop l = [b] := List.length_eq_one_iff.mp (by simp; omega)
  refine ⟨bs.take k, (bs.drop k).take l, b, ?_, by simp; omega, by simp; omega⟩
  rw [← hb, List.take_append_drop, List.take_append_drop]

/-- `operator+` concatenates. -/
theorem makes_add (hdel : ∀ id ∈ w.deleted, id < w.blocks.length) (hs : Content w s xs) (hrhs : Content w rhs ys)
    (hlen : xs.length + ys.length + 1 < 2 ^ 32) : Makes w (s.add rhs) (xs ++ ys) := by
  have hsum : (s.size + rhs.size + 1#32).toNat = xs.length + ys.length + 1 := by
    simp only [BitVec.toNat_add, BitVec.toNat_ofNat, hs.size, hrhs.size] at hlen ⊢
    omega
  have hlast : (s.size + rhs.size + 1#32 - 1#32).toNat = xs.length + ys.length := by
    rw [BitVec.add_sub_cancel, BitVec.toNat_add, ← hs.size, ← hrhs.size]
    omega
  obtain ⟨bs, hbs, hnew⟩ := run_newArray w (ne_zero_of_toNat hsum)
  obtain ⟨us, vs, b, rfl, hus, hvs⟩ := exists_split (hbs.trans hsum)
  have hcopy := run_memcpy_grow [] (vs ++ [b]) hdel hus (by simp; omega) hs.base_ne hs.reads
  have hcopy' := run_memcpy_grow xs [b] hdel hvs (by omega) hrhs.base_ne hrhs.reads
  have hstore := run_store_grow (xs ++ ys) [] b 0#8 hdel (by simp; omega)
  have hnonzero : 0#8 ∉ xs ++ ys := by simp [hs.nonzero, hrhs.nonzero]
  have hmade : Makes (w.grow (xs ++ ys ++ 0#8 :: [])) (String.ofText ⟨.block w.blocks.length, 0⟩) (xs ++ ys) :=
    makes_ofBuffer hdel rfl hnonzero (by simp; omega)
  obtain ⟨str, w', hrun, hstrays, hkeep, hcontent⟩ := hmade
  refine ⟨str, w', ?_, hstrays, fun id bs hid => hkeep id bs hid.grow, hcontent⟩
  simp only [List.nil_append, List.length_nil, Pointer.add_zero, List.append_assoc, List.length_append] at hcopy hcopy' hstore hrun
  simp only [String.add, Action.run_bind, hnew, hlast, ← hs.size, ← hrhs.size, hcopy, hcopy', hstore, hrun, Option.bind_eq_bind,
    Option.bind_some]

/-- `operator+(char)` adds the character, unless it is the zero. -/
theorem makes_addChar (hdel : ∀ id ∈ w.deleted, id < w.blocks.length) (hs : Content w s xs) (hlen : xs.length + 2 < 2 ^ 32)
    (ch : BitVec 8) : Makes w (s.addChar ch) (if ch = 0#8 then xs else xs ++ [ch]) := by
  have hsum : (s.size + 2#32).toNat = xs.length + 1 + 1 := by
    simp only [BitVec.toNat_add, BitVec.toNat_ofNat, hs.size] at hlen ⊢
    omega
  have hlast : (s.size + 2#32 - 1#32).toNat = (xs ++ [ch]).length := by
    rw [BitVec.toNat_sub, hsum, List.length_append, BitVec.toNat_ofNat]
    simp
    omega
  have hchar : (s.size + 2#32 - 2#32).toNat = xs.length := by rw [BitVec.add_sub_cancel, hs.size]
  obtain ⟨bs, hbs, hnew⟩ := run_newArray w (ne_zero_of_toNat hsum)
  obtain ⟨us, vs, b, rfl, hus, hvs⟩ := exists_split (hbs.trans hsum)
  obtain ⟨v, rfl⟩ := List.length_eq_one_iff.mp hvs
  have hcopy := run_memcpy_grow [] ([v] ++ [b]) hdel hus (by simp; omega) hs.base_ne hs.reads
  have hstore := run_store_grow xs [b] v ch hdel (by omega)
  have hstore' := run_store_grow (xs ++ [ch]) [] b 0#8 hdel (by simp; omega)
  have hmade : Makes (w.grow (xs ++ ch :: [0#8])) (String.ofText ⟨.block w.blocks.length, 0⟩) (if ch = 0#8 then xs else xs ++ [ch]) := by
    by_cases hch : ch = 0#8
    · rw [if_pos hch]
      exact makes_ofBuffer hdel (by rw [hch]) hs.nonzero (by simp; omega)
    · rw [if_neg hch]
      exact makes_ofBuffer hdel (List.append_cons xs ch [0#8]) (by simp [hs.nonzero, Ne.symm hch]) (by simp; omega)
  obtain ⟨str, w', hrun, hstrays, hkeep, hcontent⟩ := hmade
  refine ⟨str, w', ?_, hstrays, fun id bs hid => hkeep id bs hid.grow, hcontent⟩
  simp only [List.nil_append, List.length_nil, Pointer.add_zero, List.append_assoc, List.singleton_append] at hnew hcopy hstore'
  simp only [String.addChar, Action.run_bind, hnew, hlast, hchar, ← hs.size, hcopy, hstore, hstore', hrun, Option.bind_eq_bind,
    Option.bind_some]

/-- The temporary has no buffer when it is destroyed. -/
theorem Makes.become (h : Makes w a xs) : Makes w (String.become a) xs := by
  obtain ⟨str, w', hrun, hstrays, hkeep, hcontent⟩ := h
  refine ⟨str, w', ?_, hstrays, hkeep, hcontent⟩
  simp only [String.become, Action.run_bind, hrun, Option.bind_eq_bind, Option.bind_some]
  rfl

theorem makes_append (hdel : ∀ id ∈ w.deleted, id < w.blocks.length) (hs : Content w s xs) (hrhs : Content w rhs ys)
    (hlen : xs.length + ys.length + 1 < 2 ^ 32) : Makes w (s.append rhs) (xs ++ ys) := (makes_add hdel hs hrhs hlen).become

theorem makes_appendChar (hdel : ∀ id ∈ w.deleted, id < w.blocks.length) (hs : Content w s xs) (hlen : xs.length + 2 < 2 ^ 32)
    (ch : BitVec 8) : Makes w (s.appendChar ch) (if ch = 0#8 then xs else xs ++ [ch]) := (makes_addChar hdel hs hlen ch).become

/-- Something else is made from a string that has been made, which is in a new block. -/
theorem Makes.bind {f : String → Action String} {n : ℕ} (h : Makes w a xs) (hy : ∀ k, Yields k n a)
    (hdel : ∀ id ∈ w.deleted, id < w.blocks.length)
    (hf : ∀ str w', (∀ id ∈ w'.deleted, id < w'.blocks.length) → (∀ id bs, w.Has id bs → w'.Has id bs) → Content w' str xs →
      Makes w' (f str) ys) : Makes w (a >>= f) ys := by
  obtain ⟨str, w', hrun, hstrays, hkeep, hcontent⟩ := h
  obtain ⟨hdel', hfresh⟩ := hy _ w str w' rfl hrun
  have hgone : ∀ id ∈ w'.deleted, id < w'.blocks.length := by
    intro id hid
    have hlt := hdel id (hdel' ▸ hid)
    have hle := hfresh.le
    omega
  obtain ⟨str', w'', hrun', hstrays', hkeep', hcontent'⟩ := hf str w' hgone hkeep hcontent
  refine ⟨str', w'', ?_, hstrays'.trans hstrays, fun id bs hid => hkeep' id bs (hkeep id bs hid), hcontent'⟩
  simp only [Action.run_bind, hrun, hrun', Option.bind_eq_bind, Option.bind_some]

/-- An action makes one string. -/
theorem Makes.length_eq (h : Makes w a xs) (h' : Makes w a ys) : xs.length = ys.length := by
  obtain ⟨str, w₁, hrun, -, -, hcontent⟩ := h
  obtain ⟨str', w₂, hrun', -, -, hcontent'⟩ := h'
  cases hrun.symm.trans hrun'
  rw [hcontent.size, hcontent'.size]

/-- A comparison reads the strings. -/
theorem run_strncmp_strings (hs : Content w s xs) (hrhs : Content w rhs ys) (h : s.size = 0#32 ∨ rhs.data ≠ .null) :
    ∃ r, (strncmp s.data rhs.data s.size.toNat).run w = some (r, w) ∧ (r = 0 ↔ xs = ys.take xs.length) := by
  by_cases hsize : s.size = 0#32
  · have hlen := hs.size
    simp only [hsize, BitVec.toNat_ofNat, Nat.zero_mod, List.length_eq_zero_iff] at hlen
    exact ⟨0, by simp [hsize, strncmp], by simp [hlen]⟩
  · have hnull : s.data ≠ .null := by
      intro hnull
      obtain ⟨-, rfl⟩ | ⟨id, hid, -⟩ := hs.data
      · exact hsize (BitVec.eq_of_toNat_eq (by simpa using hs.size.symm))
      · rw [hid] at hnull
        cases hnull
    have htext := hs.isText hnull
    have htext' := hrhs.isText (h.resolve_left hsize)
    obtain ⟨r, hrun, hr⟩ := run_strncmp htext.reads htext'.reads hs.nonzero hrhs.nonzero
    rw [← hs.size]
    exact ⟨r, hrun, by rw [hr, List.take_length]⟩

theorem run_equal (hs : Content w s xs) (hrhs : Content w rhs ys) (h : s.size = 0#32 ∨ rhs.data ≠ .null) :
    (s.equal rhs).run w = some (decide (xs = ys.take xs.length), w) := by
  obtain ⟨r, hrun, hr⟩ := run_strncmp_strings hs hrhs h
  simp only [String.equal, Action.run_bind, hrun, Option.bind_eq_bind, Option.bind_some, ← hr]
  rfl

theorem run_notEqual (hs : Content w s xs) (hrhs : Content w rhs ys) (h : s.size = 0#32 ∨ rhs.data ≠ .null) :
    (s.notEqual rhs).run w = some (!decide (xs = ys.take xs.length), w) := by
  obtain ⟨r, hrun, hr⟩ := run_strncmp_strings hs hrhs h
  simp only [String.notEqual, Action.run_bind, hrun, Option.bind_eq_bind, Option.bind_some, ← hr]
  rfl

end

/-! ### Runs -/

namespace Strings

/-- The call is on live objects, and is not one of those after which a string is not well-formed, or which read or
write outside: a copy, an assignment or a comparison that goes through a string without a buffer, a move from a string
with a size (which keeps it), a string of one or more characters `ch`, and a size that wraps around. -/
def Sound (s : Strings Buffers) : StringCall → Prop
  | .construct x => s.objects x = none
  | .constructText x str => s.objects x = none ∧ ∃ xs, s.buffers.IsText str xs
  | .constructPrefix x str size => s.objects x = none ∧ ∃ xs, s.buffers.IsText str xs ∧ size.toNat ≤ xs.length
  | .constructFilled x size _ => s.objects x = none ∧ size = 0#32
  | .copy x y => s.objects x = none ∧ ∃ rhs, s.objects y = some rhs ∧ rhs.data ≠ .null
  | .move x y => s.objects x = none ∧ ∃ rhs, s.objects y = some rhs ∧ rhs.size = 0#32
  | .assign x y => (∃ lhs, s.objects x = some lhs) ∧ ∃ rhs, s.objects y = some rhs ∧ rhs.data ≠ .null
  | .moveAssign x y => (∃ lhs, s.objects x = some lhs) ∧ ∃ rhs, s.objects y = some rhs ∧ rhs.size = 0#32
  | .equal x y => ∃ lhs rhs, s.objects x = some lhs ∧ s.objects y = some rhs ∧ (lhs.size = 0#32 ∨ rhs.data ≠ .null)
  | .notEqual x y => ∃ lhs rhs, s.objects x = some lhs ∧ s.objects y = some rhs ∧ (lhs.size = 0#32 ∨ rhs.data ≠ .null)
  | .add x y z => s.objects x = none ∧ ∃ lhs rhs, s.objects y = some lhs ∧ s.objects z = some rhs ∧
      lhs.size.toNat + rhs.size.toNat + 1 < 2 ^ 32
  | .addChar x y _ => s.objects x = none ∧ ∃ lhs, s.objects y = some lhs ∧ lhs.size.toNat + 2 < 2 ^ 32
  | .append x y => ∃ lhs rhs, s.objects x = some lhs ∧ s.objects y = some rhs ∧
      lhs.size.toNat + rhs.size.toNat + 1 < 2 ^ 32
  | .appendChar x _ => ∃ lhs, s.objects x = some lhs ∧ lhs.size.toNat + 2 < 2 ^ 32
  -- it stores a zero past the end of its buffer
  | .substr .. => False
  | .destroy x => ∃ str, s.objects x = some str

/-- The strings hold characters, and no access was outside. -/
structure Inv (s : Strings Buffers) : Prop where
  /-- Who owns the buffers. -/
  owned : s.ownership.Inv
  /-- What the strings point to. -/
  plain : s.Plain
  /-- What they hold. -/
  content : ∀ {x str}, s.objects x = some str → ∃ xs, Content s.buffers str xs
  /-- Accesses outside. -/
  strays : s.buffers.strays = 0

section

variable {s t : Strings Buffers} {x y : ℕ} {str : String} {xs : List (BitVec 8)} {a : Action String} {c : StringCall}

theorem Inv.deleted (h : s.Inv) : ∀ id ∈ s.buffers.deleted, id < s.buffers.blocks.length := h.owned.gone

/-- The strings hold characters, and no access was outside: what is left to show of a call when the ownership is known. -/
def Tidy (s : Strings Buffers) : Prop :=
  (∀ x str, s.objects x = some str → ∃ xs, Content s.buffers str xs) ∧ s.buffers.strays = 0

/-- An object becomes a string that holds characters. -/
theorem Inv.set (h : s.Inv) (ha : Makes s.buffers a xs) : ∃ t, s.set x a = some t ∧ t.Tidy := by
  obtain ⟨str, w', hrun, hstrays, hkeep, hcontent⟩ := ha
  refine ⟨⟨w', Function.update s.objects x (some str)⟩, by simp [Strings.set, hrun], fun y str' hy => ?_,
    hstrays.trans h.strays⟩
  simp only [Function.update_apply] at hy
  split at hy
  · cases hy
    exact ⟨xs, hcontent⟩
  · obtain ⟨ys, hys⟩ := h.content hy
    exact ⟨ys, hys.mono hkeep⟩

theorem Inv.create (h : s.Inv) (hx : s.objects x = none) (ha : Makes s.buffers a xs) : ∃ t, s.create x a = some t ∧ t.Tidy := by
  rw [Strings.create, if_pos (by simp [hx])]
  exact h.set ha

/-- The empty string. -/
theorem makes_empty (w : Buffers) : Makes w (pure String.empty) [] :=
  ⟨_, w, rfl, rfl, fun _ _ hid => hid, content_nil rfl rfl⟩

/-- A comparison changes nothing. -/
theorem Inv.compare (h : s.Inv) {a : Action Bool} {b : Bool} (ha : a.run s.buffers = some (b, s.buffers)) :
    ∃ t, s.compare a = some t ∧ t.Tidy :=
  ⟨s, by simp [Strings.compare, ha], fun _ _ hx => h.content hx, h.strays⟩

/-- A string without a size is moved: neither it nor what it was moved to has one. -/
theorem Inv.give (h : s.Inv) (hy : s.objects y = some str) (hsize : str.size = 0#32) :
    (⟨s.buffers, Function.update (Function.update s.objects x (some str.move.1)) y (some str.move.2)⟩ : Strings Buffers).Tidy := by
  refine ⟨fun z str' hz => ?_, h.strays⟩
  simp only [Function.update_apply] at hz
  split at hz
  · cases hz
    exact ⟨[], content_nil rfl hsize⟩
  split at hz
  · cases hz
    exact h.content hy
  · exact h.content hz

/-- The buffer of a string that is destroyed is in no other string. -/
theorem Inv.destroy (h : s.Inv) (hx : s.objects x = some str) : ∃ t, s.call (.destroy x) = some t ∧ t.Tidy := by
  have hothers : ∀ z str', Function.update s.objects x none z = some str' → z ≠ x ∧ s.objects z = some str' := by
    intro z str' hz
    rw [Function.update_apply] at hz
    split at hz
    · cases hz
    · rename_i hzx
      exact ⟨hzx, hz⟩
  obtain hnull | ⟨id, hid⟩ := h.plain x str hx
  · refine ⟨⟨s.buffers, Function.update s.objects x none⟩, ?_, fun z str' hz => h.content (hothers z str' hz).2, h.strays⟩
    simp [call, hx, String.destroy, hnull, Pointer.null, Action.run_pure]
  · refine ⟨⟨{ s.buffers with deleted := id :: s.buffers.deleted }, Function.update s.objects x none⟩, ?_, fun z str' hz => ?_,
      h.strays⟩
    · simp [call, hx, String.destroy, hid, Action.run_deleteArray, BlockMemory.deleteArray]
    · obtain ⟨hzx, hz'⟩ := hothers z str' hz
      obtain ⟨xs, hxs⟩ := h.content hz'
      refine ⟨xs, ?_, hxs.nonzero, hxs.size, hxs.fits⟩
      obtain hnull | ⟨id', hid', hhas⟩ := hxs.data
      · exact .inl hnull
      · refine .inr ⟨id', hid', fun hmem => ?_, hhas.contents⟩
        rcases List.mem_cons.mp hmem with rfl | hmem
        · exact hzx (h.owned.unique (holds_eq_some hz' hid') (holds_eq_some hx hid))
        · exact hhas.kept hmem

/-- A sound call returns. -/
theorem Sound.returns (hc : s.Sound c) (h : s.Inv) : ∃ t, s.call c = some t ∧ t.Tidy := by
  cases c with
  | construct x => exact h.create hc (makes_empty _)
  | constructText x p =>
    obtain ⟨hx, xs, hxs⟩ := hc
    exact h.create hx (makes_ofText h.deleted hxs)
  | constructPrefix x p size =>
    obtain ⟨hx, xs, hxs, hsize⟩ := hc
    exact h.create hx (makes_ofPrefix h.deleted hxs hsize)
  | constructFilled x size ch =>
    obtain ⟨hx, rfl⟩ := hc
    exact h.create hx (makes_filled_zero _ ch)
  | copy x y =>
    obtain ⟨hx, rhs, hy, hdata⟩ := hc
    obtain ⟨ys, hys⟩ := h.content hy
    simpa [call, hy] using h.create hx (makes_copy h.deleted hys hdata)
  | move x y =>
    obtain ⟨hx, rhs, hy, hsize⟩ := hc
    exact ⟨_, by simp [call, hx, hy], h.give (x := x) hy hsize⟩
  | assign x y =>
    obtain ⟨⟨lhs, hx⟩, rhs, hy, hdata⟩ := hc
    obtain ⟨ys, hys⟩ := h.content hy
    simpa [call, hx, hy] using h.set (x := x) (makes_assign h.deleted hys hdata)
  | moveAssign x y =>
    obtain ⟨⟨lhs, hx⟩, rhs, hy, hsize⟩ := hc
    exact ⟨_, by simp [call, hx, hy]; rfl, h.give (x := x) hy hsize⟩
  | equal x y =>
    obtain ⟨lhs, rhs, hx, hy, hdata⟩ := hc
    obtain ⟨xs, hxs⟩ := h.content hx
    obtain ⟨ys, hys⟩ := h.content hy
    simpa [call, hx, hy] using h.compare (run_equal hxs hys hdata)
  | notEqual x y =>
    obtain ⟨lhs, rhs, hx, hy, hdata⟩ := hc
    obtain ⟨xs, hxs⟩ := h.content hx
    obtain ⟨ys, hys⟩ := h.content hy
    simpa [call, hx, hy] using h.compare (run_notEqual hxs hys hdata)
  | add x y z =>
    obtain ⟨hx, lhs, rhs, hy, hz, hsize⟩ := hc
    obtain ⟨ys, hys⟩ := h.content hy
    obtain ⟨zs, hzs⟩ := h.content hz
    rw [← hys.size, ← hzs.size] at hsize
    simpa [call, hy, hz] using h.create hx (makes_add h.deleted hys hzs hsize)
  | addChar x y ch =>
    obtain ⟨hx, lhs, hy, hsize⟩ := hc
    obtain ⟨ys, hys⟩ := h.content hy
    rw [← hys.size] at hsize
    simpa [call, hy] using h.create hx (makes_addChar h.deleted hys hsize ch)
  | append x y =>
    obtain ⟨lhs, rhs, hx, hy, hsize⟩ := hc
    obtain ⟨xs, hxs⟩ := h.content hx
    obtain ⟨ys, hys⟩ := h.content hy
    rw [← hxs.size, ← hys.size] at hsize
    simpa [call, hx, hy] using h.set (x := x) (makes_append h.deleted hxs hys hsize)
  | appendChar x ch =>
    obtain ⟨lhs, hx, hsize⟩ := hc
    obtain ⟨xs, hxs⟩ := h.content hx
    rw [← hxs.size] at hsize
    simpa [call, hx] using h.set (x := x) (makes_appendChar h.deleted hxs hsize ch)
  | substr x y pos len => exact absurd hc not_false
  | destroy x =>
    obtain ⟨str, hx⟩ := hc
    exact h.destroy hx

/-- The ownership is kept by every call, and the rest by the sound ones. -/
theorem Sound.step (hc : s.Sound c) (h : s.Inv) : ∃ t, s.call c = some t ∧ t.Inv := by
  obtain ⟨t, ht, hcontent, hstrays⟩ := hc.returns h
  obtain ⟨heffect, hplain⟩ := call_effect ht
  exact ⟨t, ht, heffect ▸ h.owned.foldl _, hplain h.plain, hcontent _ _, hstrays⟩

end

end Strings

end EagleOS.ESTD
