import EagleOS.ESTD.Bitmap
import EagleOS.Foundations.Buffers
import EagleOS.Foundations.Comparison

/-!
# The functions of `CString.cpp` that `ESTD::String` uses

## The model

The functions are actions on blocks and pointers (`Foundations.Buffers`). The loops are recursions; those of
`Strlen` do not end when they have gone through the whole address space. Counters of loops that have a bound are
natural numbers.

## What is proved

* `run_strlen`, `run_strdup`, `run_strndup` — what the functions do to texts.
* `strncmp_compares` — `Strncmp` compares texts by their characters.
* `run_memcpy`, `run_memset` — what they store, in a block of any content.
* `handsOut_strdup`, `handsOut_strndup` — whatever they are given, they return the one block that they hand out.
-/

namespace EagleOS.ESTD.CString

open Foundations Buffers

/-- The loop of `Strlen`. -/
def strlenLoop (str : Pointer) : ℕ → ℕ → Action SizeT
  | 0, _ => .hang
  | fuel + 1, len => do
    if (← load (str + len)) ≠ 0#8 then strlenLoop str fuel (len + 1) else pure (BitVec.ofNat 32 len)

/-- `Strlen`. -/
def strlen (str : Pointer) : Action SizeT := strlenLoop str (2 ^ 32) 0

/-- The first loop of `Strncpy`: it copies, and returns `i`. -/
def strncpyLoop (str1 str2 : Pointer) : ℕ → ℕ → Action ℕ
  | 0, i => pure i
  | left + 1, i => do
    if (← load (str2 + i)) ≠ 0#8 then
      store (str1 + i) (← load (str2 + i))
      strncpyLoop str1 str2 left (i + 1)
    else pure i

/-- The second loop of `Strncpy`. -/
def strncpyPad (str1 : Pointer) : ℕ → ℕ → Action Unit
  | 0, _ => pure ()
  | left + 1, i => do
    store (str1 + i) 0#8
    strncpyPad str1 left (i + 1)

/-- `Strncpy`. -/
def strncpy (str1 str2 : Pointer) (num : ℕ) : Action Pointer := do
  let i ← strncpyLoop str1 str2 num 0
  strncpyPad str1 (num - i) i
  pure str1

/-- `Strncmp`. -/
def strncmp (str1 str2 : Pointer) : ℕ → Action ℤ
  | 0 => pure 0
  | num + 1 => do
    let c1 ← load str1
    let c2 ← load str2
    if c1 ≠ c2 then pure ((c1.toNat : ℤ) - c2.toNat)
    else if c1 = 0#8 then pure 0
    else strncmp (str1 + 1) (str2 + 1) num

/-- `Strdup`. -/
def strdup (str : Pointer) : Action Pointer := do
  let len := (← strlen str) + 1#32
  let dup ← newArray len
  if dup.base ≠ .null then
    let _ ← strncpy dup str len.toNat
  store (dup + (len - 1#32).toNat) 0#8
  pure dup

/-- `Strndup`. -/
def strndup (str : Pointer) (num : SizeT) : Action Pointer := do
  let dup ← newArray (num + 1#32)
  if dup.base ≠ .null then
    let _ ← strncpy dup str num.toNat
  store (dup + num.toNat) 0#8
  pure dup

/-- `Memset`, of a block. -/
def memset (dst : Pointer) (ch : BitVec 8) : ℕ → Action Unit
  | 0 => pure ()
  | num + 1 => do
    store dst ch
    memset (dst + 1) ch num

/-- `Memcpy`, from what a pointer points into to another block. -/
def memcpy (dst src : Pointer) : ℕ → Action Unit
  | 0 => pure ()
  | num + 1 => do
    store dst (← load src)
    memcpy (dst + 1) (src + 1) num

/-! ### What they do to texts -/

section

variable {w : Buffers} {p q : Pointer} {id : ℕ} {xs ys zs pre post old : List (BitVec 8)}

/-- The loop of `Strlen` finds the zero that ends the text. -/
theorem run_strlenLoop {fuel len : ℕ} (hreads : w.Reads (p + len) (xs ++ [0#8])) (hxs : 0#8 ∉ xs) (hfuel : xs.length < fuel) :
    (strlenLoop p fuel len).run w = some (BitVec.ofNat 32 (len + xs.length), w) := by
  induction xs generalizing fuel len with
  | nil =>
    cases fuel with
    | zero => simp at hfuel
    | succ fuel =>
      have hload := run_load (reads_cons.mp hreads).1
      simp [strlenLoop, hload]
  | cons x xs ih =>
    cases fuel with
    | zero => simp at hfuel
    | succ fuel =>
      obtain ⟨hx, hrest⟩ := reads_cons.mp hreads
      have hload := run_load hx
      rw [List.mem_cons, not_or] at hxs
      rw [Pointer.add_add] at hrest
      have hrun := ih hrest hxs.2 (Nat.lt_of_succ_lt_succ hfuel)
      simp only [strlenLoop, Action.run_bind, hload, Option.bind_eq_bind, Option.bind_some, ne_eq, Ne.symm hxs.1,
        not_false_eq_true, if_true, hrun, List.length_cons]
      rw [Nat.add_right_comm, Nat.add_assoc]

/-- `Strlen` returns the length of a text. -/
theorem run_strlen (h : w.IsText p xs) : (strlen p).run w = some (BitVec.ofNat 32 xs.length, w) := by
  have hlen := h.fits
  have hreads : w.Reads (p + 0) (xs ++ [0#8]) := by simpa using h.reads
  have hrun := run_strlenLoop hreads h.nonzero (show xs.length < 2 ^ 32 by omega)
  rwa [Nat.zero_add] at hrun

/-- The first loop of `Strncpy` copies a text, or as much of it as there is room for. -/
theorem run_strncpyLoop {left : ℕ} (hid : w.Has id (pre ++ old ++ post)) (hp : p = ⟨.block id, 0⟩)
    (hold : old.length = xs.length) (hroom : pre.length + xs.length ≤ 2 ^ 32) (hleft : xs.length ≤ left)
    (hq : q.base ≠ .block id) (hreads : w.Reads (q + pre.length) xs) (hxs : 0#8 ∉ xs)
    (hend : xs.length < left → w.byteAt? (q + pre.length + xs.length) = some 0#8) :
    (strncpyLoop p q left pre.length).run w = some (pre.length + xs.length, w.put id (pre ++ xs ++ post)) := by
  induction xs generalizing w pre old left with
  | nil =>
    obtain rfl : old = [] := by simpa using hold
    rw [hid.put_self]
    cases left with
    | zero => rfl
    | succ left =>
      have hload := run_load (hend (Nat.succ_pos _))
      simp only [List.length_nil, Pointer.add_zero] at hload
      simp [strncpyLoop, hload]
  | cons x xs ih =>
    cases left with
    | zero => simp at hleft
    | succ left =>
      obtain ⟨o, old, rfl⟩ : ∃ o old', old = o :: old' := List.exists_cons_of_length_pos (by simp [hold])
      obtain ⟨hx, hrest⟩ := reads_cons.mp hreads
      rw [List.mem_cons, not_or] at hxs
      rw [List.length_cons] at hroom
      have hload := run_load hx
      have hbase : (p + pre.length).base = .block id := by rw [hp]; rfl
      have hoffset : (p + pre.length).offset = pre.length := by simp [hp]
      obtain ⟨hstore, hnext⟩ := run_store_next hid (by omega) hbase hoffset x
      have hlen : (pre ++ [x]).length = pre.length + 1 := by simp
      have hindex : pre.length + 1 + xs.length = pre.length + (xs.length + 1) := by omega
      have hrun := ih hnext (by simpa using hold) (by rw [hlen]; omega) (Nat.le_of_succ_le_succ hleft)
        (by rw [hlen, ← Pointer.add_add]; exact hrest.put (by simpa using hq)) hxs.2 fun hlt => by
          rw [byteAt?_put (by simpa using hq), hlen, Pointer.add_add, hindex, ← Pointer.add_add]
          exact hend (Nat.succ_lt_succ hlt)
      rw [hlen, hindex, put_put] at hrun
      rw [List.append_cons pre x xs]
      simp only [strncpyLoop, Action.run_bind, hload, hstore, hrun, Option.bind_eq_bind, Option.bind_some, ne_eq,
        Ne.symm hxs.1, not_false_eq_true, if_true, List.length_cons]

/-- The second loop of `Strncpy` stores zeros. -/
theorem run_strncpyPad {left : ℕ} (hid : w.Has id (pre ++ old ++ post)) (hp : p = ⟨.block id, 0⟩) (hold : old.length = left)
    (hroom : pre.length + left ≤ 2 ^ 32) :
    (strncpyPad p left pre.length).run w = some ((), w.put id (pre ++ List.replicate left 0#8 ++ post)) := by
  induction left generalizing w pre old with
  | zero =>
    obtain rfl : old = [] := by simpa using hold
    rw [List.replicate_zero, hid.put_self]
    rfl
  | succ left ih =>
    obtain ⟨o, old, rfl⟩ : ∃ o old', old = o :: old' := List.exists_cons_of_length_pos (by simp [hold])
    obtain ⟨hstore, hnext⟩ := run_store_next hid (by omega) (p := p + pre.length) (by rw [hp]; rfl) (by simp [hp]) 0#8
    have hlen : (pre ++ [0#8]).length = pre.length + 1 := by simp
    have hrun := ih hnext (by simpa using hold) (by rw [hlen]; omega)
    rw [hlen, put_put] at hrun
    rw [List.replicate_succ, List.append_cons pre]
    simp only [strncpyPad, Action.run_bind, hstore, hrun, Option.bind_eq_bind, Option.bind_some]

/-- `Strncpy` into a block of `num` bytes or more: the text, or as much of it as there is room for, and zeros. -/
theorem run_strncpy {num : ℕ} (hid : w.Has id (old ++ post)) (hp : p = ⟨.block id, 0⟩) (hold : old.length = num)
    (hroom : num ≤ 2 ^ 32) (hnum : xs.length ≤ num) (hq : q.base ≠ .block id) (hreads : w.Reads q xs) (hxs : 0#8 ∉ xs)
    (hend : xs.length < num → w.byteAt? (q + xs.length) = some 0#8) :
    (strncpy p q num).run w = some (p, w.put id (xs ++ List.replicate (num - xs.length) 0#8 ++ post)) := by
  have hsplit : w.Has id ([] ++ old.take xs.length ++ (old.drop xs.length ++ post)) := by
    simpa [← List.append_assoc] using hid
  have hcopied : (w.put id ([] ++ xs ++ (old.drop xs.length ++ post))).Has id (xs ++ old.drop xs.length ++ post) := by
    simpa using hid.put (xs ++ (old.drop xs.length ++ post))
  have hleft : (old.drop xs.length).length = num - xs.length := by simp [hold]
  have hcopy := run_strncpyLoop hsplit hp (by simp; omega) (by simpa using by omega) hnum hq (by simpa using hreads) hxs
    (by simpa using hend)
  have hpad := run_strncpyPad hcopied hp hleft (by omega)
  simp only [List.length_nil, Nat.zero_add] at hcopy
  rw [put_put] at hpad
  simp only [strncpy, Action.run_bind, hcopy, hpad, Option.bind_eq_bind, Option.bind_some, Action.run_pure]

/-- `Memset` fills a range of a block. -/
theorem run_memset {num : ℕ} {ch : BitVec 8} (hid : w.Has id (pre ++ old ++ post)) (hbase : p.base = .block id)
    (hoffset : p.offset = pre.length) (hold : old.length = num) (hroom : pre.length + num ≤ 2 ^ 32) :
    (memset p ch num).run w = some ((), w.put id (pre ++ List.replicate num ch ++ post)) := by
  induction num generalizing w p pre old with
  | zero =>
    obtain rfl : old = [] := by simpa using hold
    rw [List.replicate_zero, hid.put_self]
    rfl
  | succ num ih =>
    obtain ⟨o, old, rfl⟩ : ∃ o old', old = o :: old' := List.exists_cons_of_length_pos (by simp [hold])
    obtain ⟨hstore, hnext⟩ := run_store_next hid (by omega) hbase hoffset ch
    have hrun := ih (p := p + 1) hnext hbase (by simp [hoffset]) (by simpa using hold) (by simp; omega)
    rw [put_put] at hrun
    rw [List.replicate_succ, List.append_cons pre]
    simp only [memset, Action.run_bind, hstore, hrun, Option.bind_eq_bind, Option.bind_some]

/-- `Memcpy` copies into a range of a block what is read from elsewhere. -/
theorem run_memcpy (hid : w.Has id (pre ++ old ++ post)) (hbase : p.base = .block id) (hoffset : p.offset = pre.length)
    (hold : old.length = xs.length) (hroom : pre.length + xs.length ≤ 2 ^ 32) (hq : q.base ≠ .block id) (hreads : w.Reads q xs) :
    (memcpy p q xs.length).run w = some ((), w.put id (pre ++ xs ++ post)) := by
  induction xs generalizing w p q pre old with
  | nil =>
    obtain rfl : old = [] := by simpa using hold
    rw [hid.put_self]
    rfl
  | cons x xs ih =>
    obtain ⟨o, old, rfl⟩ : ∃ o old', old = o :: old' := List.exists_cons_of_length_pos (by simp [hold])
    obtain ⟨hx, hrest⟩ := reads_cons.mp hreads
    rw [List.length_cons] at hroom
    have hload := run_load hx
    obtain ⟨hstore, hnext⟩ := run_store_next hid (by omega) hbase hoffset x
    have hrun := ih (p := p + 1) (q := q + 1) hnext hbase (by simp [hoffset]) (by simpa using hold) (by simp; omega) hq
      (hrest.put hq)
    rw [put_put] at hrun
    rw [List.append_cons pre x xs]
    simp only [List.length_cons, memcpy, Action.run_bind, hload, hstore, hrun, Option.bind_eq_bind, Option.bind_some]

/-- A number of bytes that is not zero. -/
theorem ne_zero_of_toNat {n : SizeT} {k : ℕ} (h : n.toNat = k + 1) : n ≠ 0#32 := by
  rintro rfl
  exact absurd h (Nat.succ_ne_zero k).symm

/-- `Strdup` of a text hands out a block with the text. -/
theorem run_strdup (h : w.IsText q xs) (hdel : ∀ id ∈ w.deleted, id < w.blocks.length) :
    (strdup q).run w = some (⟨.block w.blocks.length, 0⟩, w.grow (xs ++ [0#8])) := by
  have hfits := h.fits
  have hlen : (BitVec.ofNat 32 xs.length + 1#32).toNat = xs.length + 1 := by
    rw [BitVec.toNat_add, BitVec.toNat_ofNat, show (1#32).toNat = 1 from rfl]
    omega
  obtain ⟨bs, hbs, hnew⟩ := run_newArray w (ne_zero_of_toNat hlen)
  rw [hlen] at hbs
  obtain ⟨hreads, hzero⟩ := reads_append.mp h.reads
  have hid : (w.grow bs).Has w.blocks.length (bs ++ []) := by simpa using has_grow hdel
  have hcopy := run_strncpy hid rfl hbs (by omega) (Nat.le_succ _) h.base_ne_next hreads.grow h.nonzero
    fun _ => byteAt?_grow (reads_cons.mp hzero).1
  simp only [Nat.add_sub_cancel_left, List.replicate_one, List.append_nil, put_grow] at hcopy
  have hlast : (BitVec.ofNat 32 xs.length + 1#32 - 1#32).toNat = xs.length := by
    rw [BitVec.add_sub_cancel, BitVec.toNat_ofNat]
    omega
  have htext : (w.grow (xs ++ [0#8])).Has w.blocks.length (xs ++ 0#8 :: []) := has_grow hdel
  have hstore := run_store htext (by omega) (p := (⟨.block w.blocks.length, 0⟩ : Pointer) + xs.length) rfl (by simp) 0#8
  rw [put_grow] at hstore
  simp only [strdup, Action.run_bind, run_strlen h, hnew, hlen, hlast, Option.bind_eq_bind, Option.bind_some]
  simp [hcopy, hstore]

/-- `Strndup` of a text that is long enough hands out a block with its first characters. -/
theorem run_strndup {num : SizeT} (h : w.IsText q xs) (hnum : num.toNat ≤ xs.length)
    (hdel : ∀ id ∈ w.deleted, id < w.blocks.length) :
    (strndup q num).run w = some (⟨.block w.blocks.length, 0⟩, w.grow (xs.take num.toNat ++ [0#8])) := by
  have hfits := h.fits
  have hlen : (num + 1#32).toNat = num.toNat + 1 := by
    rw [BitVec.toNat_add, show (1#32).toNat = 1 from rfl]
    omega
  obtain ⟨bs, hbs, hnew⟩ := run_newArray w (ne_zero_of_toNat hlen)
  rw [hlen] at hbs
  have hreads := (reads_append.mp h.reads).1
  have htake : (xs.take num.toNat).length = num.toNat := by simp [hnum]
  rw [← List.take_append_drop num.toNat xs] at hreads
  have hid : (w.grow bs).Has w.blocks.length (bs.take num.toNat ++ bs.drop num.toNat) := by
    rw [List.take_append_drop]
    exact has_grow hdel
  have hroom : (bs.take num.toNat).length = num.toNat := by simp; omega
  have hcopy := run_strncpy hid rfl hroom (by omega) (Nat.le_of_eq htake) h.base_ne_next (reads_append.mp hreads).1.grow
    (fun hz => h.nonzero (List.mem_of_mem_take hz)) fun hlt => absurd htake (Nat.ne_of_lt hlt)
  obtain ⟨b, hb⟩ : ∃ b, bs.drop num.toNat = [b] := List.length_eq_one_iff.mp (by simp; omega)
  rw [htake, Nat.sub_self, List.replicate_zero, List.append_nil, put_grow, hb] at hcopy
  have htext : (w.grow (xs.take num.toNat ++ [b])).Has w.blocks.length (xs.take num.toNat ++ b :: []) := has_grow hdel
  have hstore := run_store htext (by omega) (p := (⟨.block w.blocks.length, 0⟩ : Pointer) + num.toNat) rfl
    (by rw [htake]; simp) 0#8
  rw [put_grow] at hstore
  simp only [strndup, Action.run_bind, hnew, Option.bind_eq_bind, Option.bind_some]
  simp [hcopy, hstore]

theorem run_strncmp_of_ne {c1 c2 : BitVec 8} (num : ℕ) (h1 : w.byteAt? p = some c1) (h2 : w.byteAt? q = some c2)
    (hne : c1 ≠ c2) : (strncmp p q (num + 1)).run w = some ((c1.toNat : ℤ) - c2.toNat, w) := by
  simp [strncmp, run_load h1, run_load h2, hne]

/-- The bytes of a text, as the numbers that they are compared by. -/
def codes (chars : List (BitVec 8)) : List ℕ := chars.map BitVec.toNat

theorem codes_inj : codes xs = codes ys ↔ xs = ys :=
  (List.map_injective_iff.mpr fun _ _ => BitVec.eq_of_toNat_eq).eq_iff

theorem toNat_ne_zero {c : BitVec 8} (h : 0#8 ≠ c) : 0 < c.toNat := by
  refine Nat.pos_of_ne_zero fun h0 => h ?_
  exact (BitVec.eq_of_toNat_eq h0).symm

/-- `Strncmp` of two texts compares their first characters: what it returns depends on nothing else, and nothing is read
past their ends. -/
theorem strncmp_compares (num : ℕ) : ∀ xs ys : List (BitVec 8), 0#8 ∉ xs → 0#8 ∉ ys → ∃ r,
    (∀ (w : Buffers) (p q : Pointer), w.Reads p (xs ++ [0#8]) → w.Reads q (ys ++ [0#8]) →
      (strncmp p q num).run w = some (r, w)) ∧ Compares r (codes (xs.take num)) (codes (ys.take num)) := by
  induction num with
  | zero => exact fun _ _ _ _ => ⟨0, fun _ _ _ _ _ => rfl, compares_refl _⟩
  | succ num ih =>
    intro xs ys hxs hys
    match xs, ys, hxs, hys with
    | [], [], _, _ =>
      refine ⟨0, fun w p q hp hq => ?_, compares_refl _⟩
      simp [strncmp, run_load (reads_cons.mp hp).1, run_load (reads_cons.mp hq).1]
    | [], y :: ys, _, hys =>
      rw [List.mem_cons, not_or] at hys
      have hpos := toNat_ne_zero hys.1
      refine ⟨_, fun w p q hp hq => run_strncmp_of_ne num (reads_cons.mp hp).1 (reads_cons.mp hq).1 hys.1, ?_⟩
      exact compares_nil_cons (by simpa using hpos)
    | x :: xs, [], hxs, _ =>
      rw [List.mem_cons, not_or] at hxs
      have hpos := toNat_ne_zero hxs.1
      refine ⟨_, fun w p q hp hq => run_strncmp_of_ne num (reads_cons.mp hp).1 (reads_cons.mp hq).1 (Ne.symm hxs.1), ?_⟩
      exact compares_cons_nil (by simpa using hpos)
    | x :: xs, y :: ys, hxs, hys =>
      rw [List.mem_cons, not_or] at hxs hys
      by_cases hxy : x = y
      · subst hxy
        obtain ⟨r, hrun, hr⟩ := ih xs ys hxs.2 hys.2
        refine ⟨r, fun w p q hp hq => ?_, hr.cons x.toNat⟩
        obtain ⟨hx, hxrest⟩ := reads_cons.mp hp
        obtain ⟨hy, hyrest⟩ := reads_cons.mp hq
        simp [strncmp, run_load hx, run_load hy, Ne.symm hys.1, hrun w _ _ hxrest hyrest]
      · refine ⟨_, fun w p q hp hq => run_strncmp_of_ne num (reads_cons.mp hp).1 (reads_cons.mp hq).1 hxy, ?_⟩
        exact compares_cons_of_ne (mt BitVec.eq_of_toNat_eq hxy) (compares_sub x.toNat y.toNat)

/-- So it tells whether they agree. -/
theorem run_strncmp {num : ℕ} (hp : w.Reads p (xs ++ [0#8])) (hq : w.Reads q (ys ++ [0#8])) (hxs : 0#8 ∉ xs) (hys : 0#8 ∉ ys) :
    ∃ r, (strncmp p q num).run w = some (r, w) ∧ (r = 0 ↔ xs.take num = ys.take num) := by
  obtain ⟨r, hrun, hr⟩ := strncmp_compares num xs ys hxs hys
  exact ⟨r, hrun w p q hp hq, by rw [hr.zero, codes_inj]⟩

end

/-! ### What they hand out -/

theorem accesses_strlenLoop (str : Pointer) (fuel : ℕ) : ∀ len, (strlenLoop str fuel len).Only Command.IsAccess := by
  induction fuel with
  | zero => exact fun _ => Action.only_hang
  | succ fuel ih => exact fun len => (Action.accesses_load _).bind fun _ => Action.only_ite (ih _) (Action.only_pure _)

theorem accesses_strlen (str : Pointer) : (strlen str).Only Command.IsAccess := accesses_strlenLoop str _ 0

theorem accesses_strncpyLoop (str1 str2 : Pointer) (left : ℕ) :
    ∀ i, (strncpyLoop str1 str2 left i).Only Command.IsAccess := by
  induction left with
  | zero => exact fun _ => Action.only_pure _
  | succ left ih =>
    intro i
    refine (Action.accesses_load _).bind fun _ => Action.only_ite ?_ (Action.only_pure _)
    exact (Action.accesses_load _).bind fun _ => (Action.accesses_store _ _).bind fun _ => ih _

theorem accesses_strncpyPad (str1 : Pointer) (left : ℕ) : ∀ i, (strncpyPad str1 left i).Only Command.IsAccess := by
  induction left with
  | zero => exact fun _ => Action.only_pure _
  | succ left ih => exact fun i => (Action.accesses_store _ _).bind fun _ => ih _

theorem accesses_strncpy (str1 str2 : Pointer) (num : ℕ) : (strncpy str1 str2 num).Only Command.IsAccess :=
  (accesses_strncpyLoop _ _ _ _).bind fun _ => (accesses_strncpyPad _ _ _).bind fun _ => Action.only_pure _

theorem accesses_strncmp (num : ℕ) : ∀ str1 str2, (strncmp str1 str2 num).Only Command.IsAccess := by
  induction num with
  | zero => exact fun _ _ => Action.only_pure _
  | succ num ih =>
    intro str1 str2
    refine (Action.accesses_load _).bind fun _ => (Action.accesses_load _).bind fun _ => Action.only_ite (Action.only_pure _) ?_
    exact Action.only_ite (Action.only_pure _) (ih _ _)

theorem accesses_memset (ch : BitVec 8) (num : ℕ) : ∀ dst, (memset dst ch num).Only Command.IsAccess := by
  induction num with
  | zero => exact fun _ => Action.only_pure _
  | succ num ih => exact fun dst => (Action.accesses_store _ _).bind fun _ => ih _

theorem accesses_memcpy (num : ℕ) : ∀ dst src, (memcpy dst src num).Only Command.IsAccess := by
  induction num with
  | zero => exact fun _ _ => Action.only_pure _
  | succ num ih => exact fun dst src => (Action.accesses_load _).bind fun _ => (Action.accesses_store _ _).bind fun _ => ih _ _

/-- What `Strdup` and `Strndup` do with what `new[]` returned. -/
theorem handsOut_filled {k l len : ℕ} {dup str : Pointer} (hdup : Fresh k l dup) (last : Pointer) :
    HandsOut l (fun l p => Fresh k l p) (do
      if dup.base ≠ .null then
        let _ ← strncpy dup str len
      store last 0#8
      pure dup) := by
  have hlast : HandsOut l (fun l p => Fresh k l p) (store last 0#8 >>= fun _ => (pure dup : Action Pointer)) :=
    handsOut_access (Action.accesses_store _ _) fun _ => handsOut_pure hdup
  dsimp only
  split
  · exact handsOut_access (accesses_strncpy _ _ _) fun _ => hlast
  · exact hlast

/-- `Strdup` hands out no more than the block that it returns. -/
theorem handsOut_strdup (k : ℕ) (str : Pointer) : HandsOut k (Fresh k) (strdup str) :=
  handsOut_access (accesses_strlen str) fun _ => (handsOut_newArray _).bind fun _ _ hdup => handsOut_filled hdup.2 _

/-- So does `Strndup`. -/
theorem handsOut_strndup (k : ℕ) (str : Pointer) (num : SizeT) : HandsOut k (Fresh k) (strndup str num) :=
  (handsOut_newArray _).bind fun _ _ hdup => handsOut_filled hdup.2 _

end EagleOS.ESTD.CString
