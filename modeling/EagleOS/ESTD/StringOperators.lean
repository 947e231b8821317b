import EagleOS.ESTD.StringContents

/-!
# The operators of `ESTD::String`

What the operators make of the characters of their operands, for strings that are made from texts.

## The model

`operator new[]` hands out blocks of the kernel's heap, which lies in the last gigabyte of the address space
(`KernelHeap`). The expressions `(a + b) + c` and `a + (b + c)` destroy their temporary at the end.

## What is proved

* `equal_contents_iff` — a comparison tells the characters apart, unless those of the left string come first in
  those of the right one.
* `concatenation_appends` — the operators `+` and `+=` append.
* `substr_overruns` — `Substr` always stores past the end of its buffer.
-/

namespace EagleOS.ESTD

open Foundations Buffers CString

/-! ### Comparison -/

section

variable {w : Buffers} {a b : String} {xs ys : List (BitVec 8)}

/-- **Comparison**: `==` and `!=` tell whether the characters are the same if and only if those of the left string are
not the first ones of a longer right string. -/
theorem equal_contents_iff (w : Buffers) (a b : String) (xs ys : List (BitVec 8)) (ha : Content w a xs) (hb : Content w b ys)
    (hdata : b.data ≠ .null) :
    ((a.equal b).run w = some (decide (xs = ys), w) ∧ (a.notEqual b).run w = some (!decide (xs = ys), w)) ↔
      ¬ (xs <+: ys ∧ xs.length < ys.length) := by
  have hequal := run_equal ha hb (.inr hdata)
  have hnotEqual := run_notEqual ha hb (.inr hdata)
  simp only [← List.prefix_iff_eq_take] at hequal hnotEqual
  rw [hequal, hnotEqual]
  have hsame : (xs <+: ys ↔ xs = ys) ↔ ¬ (xs <+: ys ∧ xs.length < ys.length) := by
    constructor
    · rintro h ⟨hfirst, hlt⟩
      exact Nat.ne_of_lt hlt (congrArg List.length (h.mp hfirst))
    · intro h
      refine ⟨fun hfirst => hfirst.eq_of_length_le ?_, fun heq => heq ▸ List.prefix_rfl⟩
      exact Nat.not_lt.mp fun hlt => h ⟨hfirst, hlt⟩
  rw [← hsame]
  constructor
  · rintro ⟨h, -⟩
    simpa using h
  · intro h
    simp only [h, and_self]

/-- The buffers after strings have been made of the texts `a` and `ab`. -/
def letters : Buffers := ⟨[[0x61#8, 0#8], [0x61#8, 0x62#8, 0#8]], [], 0, fun _ => 0#8, fun _ _ => 0#8⟩

/-- The string `a`. -/
def stringA : String := ⟨⟨.block 0, 0⟩, 1#32⟩

/-- The string `ab`. -/
def stringAb : String := ⟨⟨.block 1, 0⟩, 2#32⟩

theorem content_stringA : Content letters stringA [0x61#8] :=
  ⟨.inr ⟨0, rfl, List.not_mem_nil, rfl⟩, by decide, rfl, by decide⟩

theorem content_stringAb : Content letters stringAb [0x61#8, 0x62#8] :=
  ⟨.inr ⟨1, rfl, List.not_mem_nil, rfl⟩, by decide, rfl, by decide⟩

/-- `ab` is not the beginning of `a`. -/
theorem equal_contents_iff_ab : (stringAb.equal stringA).run letters = some (false, letters) ∧
    (stringAb.notEqual stringA).run letters = some (true, letters) :=
  (equal_contents_iff letters stringAb stringA _ _ content_stringAb content_stringA (by decide)).mpr (by decide)

/-- But `a` is that of `ab`. -/
theorem equal_prefix : (stringA.equal stringAb).run letters = some (true, letters) ∧
    (stringAb.equal stringA).run letters = some (false, letters) ∧
    Content letters stringA [0x61#8] ∧ Content letters stringAb [0x61#8, 0x62#8] :=
  ⟨rfl, rfl, content_stringA, content_stringAb⟩

end

/-! ### Concatenation -/

/-- What `operator new[]` has handed out: blocks of the kernel's heap, which lies in the last gigabyte of the address
space. -/
structure KernelHeap (w : Buffers) : Prop where
  /-- Only blocks that have been handed out are deleted. -/
  deleted : ∀ id ∈ w.deleted, id < w.blocks.length
  /-- No block is longer than that. -/
  size : ∀ id bs, w.Has id bs → bs.length ≤ 2 ^ 30

namespace String

/-- `(a + b) + c`. -/
def addLeft (a b c : String) : Action String := do
  let temp ← a.add b
  let sum ← temp.add c
  temp.destroy
  pure sum

/-- `a + (b + c)`. -/
def addRight (a b c : String) : Action String := do
  let temp ← b.add c
  let sum ← a.add temp
  temp.destroy
  pure sum

end String

section

variable {w : Buffers} {s a b c : String} {xs ys zs us vs : List (BitVec 8)} {n m : ℕ} {t : Action String}
  {f : String → Action String}

theorem KernelHeap.length_lt (hw : KernelHeap w) (h : Content w s xs) : xs.length < 2 ^ 30 := by
  obtain ⟨-, rfl⟩ | ⟨id, -, hhas⟩ := h.data
  · decide
  · have hsize := hw.size id _ hhas
    rw [List.length_append, List.length_singleton] at hsize
    omega

/-- A string stays what it is when a block is deleted that it is not in. -/
theorem Content.delete {k : ℕ} (h : Content w s xs) (hs : s.data.base ≠ .block k) :
    Content { w with deleted := k :: w.deleted } s xs := by
  refine ⟨?_, h.nonzero, h.size, h.fits⟩
  obtain hnull | ⟨id, hid, hhas⟩ := h.data
  · exact .inl hnull
  · refine .inr ⟨id, hid, fun hmem => ?_, hhas.contents⟩
    rcases List.mem_cons.mp hmem with rfl | hmem
    · exact hs (by rw [hid])
    · exact hhas.kept hmem

/-- A string is made with the help of a temporary, which is destroyed: the temporary is neither one of the strings that
there were nor the one that is made. -/
theorem makes_temporary (hdel : ∀ id ∈ w.deleted, id < w.blocks.length) (ht : Makes w t us) (hty : ∀ k, Yields k n t)
    (hf : ∀ temp w', (∀ id ∈ w'.deleted, id < w'.blocks.length) → (∀ id bs, w.Has id bs → w'.Has id bs) → Content w' temp us →
      Makes w' (f temp) vs) (hfy : ∀ temp k, ∃ m, Yields k m (f temp)) :
    Makes w (do
      let temp ← t
      let sum ← f temp
      temp.destroy
      pure sum) vs := by
  obtain ⟨temp, w₁, hrun₁, hstrays₁, hkeep₁, hcontent₁⟩ := ht
  obtain ⟨hdel₁, hfresh₁⟩ := hty _ w temp w₁ rfl hrun₁
  have hgone₁ : ∀ id ∈ w₁.deleted, id < w₁.blocks.length := by
    intro id hid
    have hlt := hdel id (hdel₁ ▸ hid)
    have hle := hfresh₁.le
    omega
  obtain ⟨sum, w₂, hrun₂, hstrays₂, hkeep₂, hcontent₂⟩ := hf temp w₁ hgone₁ hkeep₁ hcontent₁
  obtain ⟨m, hyields⟩ := hfy temp w₁.blocks.length
  obtain ⟨-, hfresh₂⟩ := hyields w₁ sum w₂ rfl hrun₂
  have hboth : ∀ id bs, w.Has id bs → w₂.Has id bs := fun id bs h => hkeep₂ id bs (hkeep₁ id bs h)
  rcases hfresh₁ with ⟨hdata₁, -⟩ | ⟨hdata₁, hlen₁⟩
  · -- a temporary without a buffer
    have hdestroy : temp.destroy.run w₂ = some ((), w₂) := by
      rw [String.destroy, hdata₁]
      rfl
    refine ⟨sum, w₂, ?_, hstrays₂.trans hstrays₁, hboth, hcontent₂⟩
    simp only [Action.run_bind, hrun₁, hrun₂, hdestroy, Option.bind_eq_bind, Option.bind_some]
    rfl
  · have hdestroy : temp.destroy.run w₂ = some ((), { w₂ with deleted := (w.blocks.length + n) :: w₂.deleted }) := by
      rw [String.destroy, hdata₁]
      rfl
    refine ⟨sum, { w₂ with deleted := (w.blocks.length + n) :: w₂.deleted }, ?_, hstrays₂.trans hstrays₁, fun id bs h => ?_,
      hcontent₂.delete ?_⟩
    · simp only [Action.run_bind, hrun₁, hrun₂, hdestroy, Option.bind_eq_bind, Option.bind_some]
      rfl
    · have hlt : id < w.blocks.length := (List.getElem?_eq_some_iff.mp h.contents).1
      refine ⟨fun hmem => ?_, (hboth id bs h).contents⟩
      rcases List.mem_cons.mp hmem with heq | hmem
      · omega
      · exact (hboth id bs h).kept hmem
    · rcases hfresh₂ with ⟨hdata₂, -⟩ | ⟨hdata₂, -⟩ <;> rw [hdata₂]
      · exact Base.noConfusion
      · intro heq
        have hid := Base.block.inj heq
        omega

/-- **Concatenation**: `+` and `+=` append, and `+` is associative. -/
theorem concatenation_appends (w : Buffers) (hw : KernelHeap w) (a b c : String) (xs ys zs : List (BitVec 8))
    (ha : Content w a xs) (hb : Content w b ys) (hc : Content w c zs) (ch : BitVec 8) (hch : ch ≠ 0#8) :
    Makes w (a.add b) (xs ++ ys) ∧ Makes w (a.addChar ch) (xs ++ [ch]) ∧
      Makes w (a.addLeft b c) (xs ++ ys ++ zs) ∧ Makes w (a.addRight b c) (xs ++ ys ++ zs) ∧
      Makes w (a.append b) (xs ++ ys) ∧ Makes w (a.appendChar ch) (xs ++ [ch]) := by
  have hxs := hw.length_lt ha
  have hys := hw.length_lt hb
  have hzs := hw.length_lt hc
  have hchar := makes_addChar hw.deleted ha (by omega) ch
  have happendChar := makes_appendChar hw.deleted ha (by omega) ch
  rw [if_neg hch] at hchar happendChar
  refine ⟨makes_add hw.deleted ha hb (by omega), hchar, ?_, ?_, makes_append hw.deleted ha hb (by omega), happendChar⟩
  · refine makes_temporary hw.deleted (makes_add hw.deleted ha hb (by omega)) (fun _ => yields_add a b) ?_
      fun temp _ => ⟨_, yields_add temp c⟩
    intro temp w' hdel hkeep htemp
    exact makes_add hdel htemp (hc.mono hkeep) (by rw [List.length_append]; omega)
  · rw [List.append_assoc]
    refine makes_temporary hw.deleted (makes_add hw.deleted hb hc (by omega)) (fun _ => yields_add b c) ?_
      fun temp _ => ⟨_, yields_add a temp⟩
    intro temp w' hdel hkeep htemp
    exact makes_add hdel (ha.mono hkeep) htemp (by rw [List.length_append]; omega)

theorem kernelHeap_letters : KernelHeap letters := by
  refine ⟨by simp [letters], fun id bs h => ?_⟩
  have hmem : bs ∈ letters.blocks := List.mem_of_getElem? h.contents
  simp only [letters, List.mem_cons, List.not_mem_nil, or_false] at hmem
  rcases hmem with rfl | rfl <;> decide

/-- The strings `a` and `ab`, and the empty one. -/
theorem concatenation_appends_letters : Makes letters (stringA.add stringA) [0x61#8, 0x61#8] ∧
    Makes letters (stringA.addLeft stringAb .empty) [0x61#8, 0x61#8, 0x62#8] := by
  obtain ⟨-, -, hleft, -⟩ := concatenation_appends letters kernelHeap_letters stringA stringAb .empty _ _ [] content_stringA
    content_stringAb (content_nil rfl rfl) 0x63#8 (by decide)
  have hself := concatenation_appends letters kernelHeap_letters stringA stringA .empty _ _ [] content_stringA
    content_stringA (content_nil rfl rfl) 0x63#8 (by decide)
  exact ⟨hself.1, hleft⟩

end

/-! ### `Substr` -/

/-- `Substr` stores the terminator past the end of the buffer that it has made. -/
theorem substr_overruns (w : Buffers) (s : String) (pos len : SizeT) (r : String) (w' : Buffers)
    (h : (s.substr pos len).run w = some (r, w')) : w.strays < w'.strays := by
  by_cases hlen : len = 0#32
  · -- there is no buffer, and the terminator is stored to the null pointer
    subst hlen
    exact strays_after (run_newArray_zero w) ((strays_store rfl 0#8).bind) r w' h
  obtain ⟨bs, hbs, hnew⟩ := run_newArray w hlen
  refine strays_after hnew (strays_bind fun v w₁ hcopy => ?_) r w' h
  have hsize : (w₁.blocks.map List.length)[w.blocks.length]? = some len.toNat := by
    rw [(keeps_of_accesses (accesses_memcpy _ _ _) hcopy).1, List.getElem?_map,
      show (w.grow bs).blocks = w.blocks ++ [bs] from rfl, List.getElem?_concat_length, ← hbs]
    rfl
  have hlt := len.isLt
  have hpast := byteAt?_past_end (p := (⟨.block w.blocks.length, 0⟩ : Pointer) + len.toNat) hsize rfl (by simp) (by simpa using hlt)
  exact (strays_store hpast 0#8).bind

theorem run_substr_first : ((stringAb.substr 0#32 1#32).run letters).map (fun r => r.2.strays) = some 4 := by decide +kernel

/-- The first character of `ab`. -/
theorem substr_overruns_first : ∃ r w', (stringAb.substr 0#32 1#32).run letters = some (r, w') ∧ letters.strays < w'.strays := by
  obtain ⟨⟨r, w'⟩, hrun, -⟩ := Option.map_eq_some_iff.mp run_substr_first
  exact ⟨r, w', hrun, substr_overruns letters stringAb 0#32 1#32 r w' hrun⟩

/-- Four accesses are outside there: the store, and the byte after the character each time it is read. -/
theorem substr_first_outside : ∃ r w', (stringAb.substr 0#32 1#32).run letters = some (r, w') ∧ letters.strays = 0 ∧
    w'.strays = 4 := by
  obtain ⟨⟨r, w'⟩, hrun, hstrays⟩ := Option.map_eq_some_iff.mp run_substr_first
  exact ⟨r, w', hrun, rfl, hstrays⟩

end EagleOS.ESTD
