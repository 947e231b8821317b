import EagleOS.Drivers.VGAStrings
import EagleOS.ESTD.TypeConverter

/-!
# `KPrintf`

A format is written character by character; a `%` and the letter after it stand for an argument.

## The model

The arguments that are left go along with `ptr`. An array of the stack is a block, which is deleted at the end of its
scope. `va_arg` does not return where there is no argument of the type that is asked for. The loop is given how many
times it may go round.

`Renders` says what a format and its arguments stand for; it leaves open what an unsigned number is written as.

## What is proved

* `Converts.run` — one conversion.
* `Renders.run` — a whole format, or the part before an unpaired `%`.
* `kPrintf_scans_iff` — which formats are read no further than to their end.
* `kPrintf_renders_iff` — which arguments are written as they should be.
-/

namespace EagleOS.Kern

open Foundations Buffers ESTD Drivers Printing Numerals
open TypeConverter (noBlocks)

/-- An argument of `KPrintf`. -/
inductive Arg where
  /-- An `int`, or what is promoted to one. -/
  | word (v : BitVec 32)
  /-- A `char*`. -/
  | pointer (p : Pointer)

/-- `va_arg(ap, int)`. -/
def vaInt : List Arg → Printing (BitVec 32 × List Arg)
  | .word v :: args => pure (v, args)
  | _ => fun _ => .hang

/-- `va_arg(ap, char*)`. -/
def vaPointer : List Arg → Printing (Pointer × List Arg)
  | .pointer p :: args => pure (p, args)
  | _ => fun _ => .hang

/-- `KPrint`. -/
def kPrint (str : Pointer) : Printing Unit := writeStr str

/-- `KPrintChar`. -/
def kPrintChar (ch : BitVec 8) : Printing Unit := writeChar ch

/-- The cases of `KPrintf` that write a number: `tmp` is an array of twelve characters. -/
def kPrintInt (val base : BitVec 32) : Printing Unit := do
  let tmp ← newArray 12#32
  let _ ← TypeConverter.intToStr val tmp 12#32 base
  kPrint tmp
  deleteArray tmp

/-- The `switch` of `KPrintf`: it returns the arguments that are left. -/
def kPrintfSwitch (ptr : Pointer) (ch : BitVec 8) (args : List Arg) : Printing (List Arg) :=
  -- `d`, `u` and `i`
  if ch = 0x64#8 ∨ ch = 0x75#8 ∨ ch = 0x69#8 then do
    let r ← vaInt args
    kPrintInt r.1 10#32
    pure r.2
  -- `x`
  else if ch = 0x78#8 then do
    let r ← vaInt args
    kPrintInt r.1 16#32
    pure r.2
  -- `c`
  else if ch = 0x63#8 then do
    let r ← vaInt args
    kPrintChar (r.1.setWidth 8)
    pure r.2
  -- `s`
  else if ch = 0x73#8 then do
    let r ← vaPointer args
    kPrint r.1
    pure r.2
  else do
    kPrintChar (← load ptr)
    pure args

/-- The body of the loop of `KPrintf`: it returns `ptr`, and the arguments that are left. -/
def kPrintfBody (ptr : Pointer) (args : List Arg) : Printing (Pointer × List Arg) := do
  if (← load ptr) ≠ 0x25#8 then
    kPrintChar (← load ptr)
    pure (ptr, args)
  else
    let args ← kPrintfSwitch (ptr + 1) (← load (ptr + 1)) args
    pure (ptr + 1, args)

/-- The loop of `KPrintf`, where it may go round so many times. -/
def kPrintfLoop : ℕ → Pointer → List Arg → Printing Unit
  | 0, ptr, _ => do
    if (← load ptr) ≠ 0#8 then fun _ => .hang else pure ()
  | n + 1, ptr, args => do
    if (← load ptr) ≠ 0#8 then
      let r ← kPrintfBody ptr args
      kPrintfLoop n (r.1 + 1) r.2
    else pure ()

/-- `KPrintf`, where its loop goes round so many times at most. -/
def kPrintfWithin (n : ℕ) (fmt : Pointer) (args : List Arg) : Printing (BitVec 32) := do
  kPrintfLoop n fmt args
  pure 0#32

/-- `KPrintf`. -/
def kPrintf (fmt : Pointer) (args : List Arg) : Printing (BitVec 32) := kPrintfWithin (2 ^ 32) fmt args

/-! ### What a format stands for -/

/-- A conversion takes arguments, and stands for characters. -/
inductive Converts (w : Buffers) (unsigned : BitVec 32 → List (BitVec 8)) :
    BitVec 8 → List Arg → List Arg → List (BitVec 8) → Prop
  /-- `%d` is a signed decimal number. -/
  | d (v : BitVec 32) (args : List Arg) : Converts w unsigned 0x64#8 (.word v :: args) args (integer 10 v.toInt)
  /-- So is `%i`. -/
  | i (v : BitVec 32) (args : List Arg) : Converts w unsigned 0x69#8 (.word v :: args) args (integer 10 v.toInt)
  /-- `%u` is an unsigned number. -/
  | u (v : BitVec 32) (args : List Arg) : Converts w unsigned 0x75#8 (.word v :: args) args (unsigned v)
  /-- `%x` is an unsigned hexadecimal number. -/
  | x (v : BitVec 32) (args : List Arg) : Converts w unsigned 0x78#8 (.word v :: args) args (natural 16 v.toNat)
  /-- `%c` is a character. -/
  | c (v : BitVec 32) (args : List Arg) : Converts w unsigned 0x63#8 (.word v :: args) args [v.setWidth 8]
  /-- `%s` is a text. -/
  | s {p : Pointer} {chars : List (BitVec 8)} (args : List Arg) (h : w.IsText p chars) :
      Converts w unsigned 0x73#8 (.pointer p :: args) args chars
  /-- Any other letter is the letter. -/
  | other {letter : BitVec 8} (args : List Arg) (h : letter ∉ [0x64#8, 0x69#8, 0x75#8, 0x78#8, 0x63#8, 0x73#8]) :
      Converts w unsigned letter args args [letter]

/-- A format takes arguments, and stands for characters. -/
inductive Renders (w : Buffers) (unsigned : BitVec 32 → List (BitVec 8)) :
    List (BitVec 8) → List Arg → List Arg → List (BitVec 8) → Prop
  /-- There is nothing to write. -/
  | nil (args : List Arg) : Renders w unsigned [] args args []
  /-- A character is written as it is. -/
  | literal {ch : BitVec 8} {fmt : List (BitVec 8)} {args rest : List Arg} {out : List (BitVec 8)} (hch : ch ≠ 0x25#8)
      (h : Renders w unsigned fmt args rest out) : Renders w unsigned (ch :: fmt) args rest (ch :: out)
  /-- A conversion. -/
  | conversion {letter : BitVec 8} {fmt : List (BitVec 8)} {args args' rest : List Arg} {piece out : List (BitVec 8)}
      (hpiece : Converts w unsigned letter args args' piece) (h : Renders w unsigned fmt args' rest out) :
      Renders w unsigned (0x25#8 :: letter :: fmt) args rest (piece ++ out)

/-- The decimal number that `%u` asks for. -/
def unsignedDecimal (v : BitVec 32) : List (BitVec 8) := natural 10 v.toNat

/-- The decimal number that is written for it. -/
def signedDecimal (v : BitVec 32) : List (BitVec 8) := integer 10 v.toInt

/-- A format up to an unpaired `%` at its end. -/
def paired : List (BitVec 8) → List (BitVec 8)
  | [] => []
  | [ch] => if ch = 0x25#8 then [] else [ch]
  | ch :: letter :: fmt => if ch = 0x25#8 then ch :: letter :: paired fmt else ch :: paired (letter :: fmt)

/-- The first argument, if it is a number. -/
def firstWord : List Arg → List (BitVec 32)
  | .word v :: _ => [v]
  | _ => []

/-- The arguments of a format that `%u` asks for. -/
def unsignedArgs : List (BitVec 8) → List Arg → List (BitVec 32)
  | [], _ => []
  | [_], _ => []
  | ch :: letter :: fmt, args =>
    if ch ≠ 0x25#8 then unsignedArgs (letter :: fmt) args
    else if letter = 0x75#8 then firstWord args ++ unsignedArgs fmt args.tail
    else if letter ∈ [0x64#8, 0x69#8, 0x78#8, 0x63#8, 0x73#8] then unsignedArgs fmt args.tail
    else unsignedArgs fmt args

section

variable {w w' w₀ : Buffers} {d : Display} {p : Pointer} {args args' rest : List Arg} {letter ch : BitVec 8}
  {fmt piece out chars : List (BitVec 8)}

/-! ### One conversion -/

/-- What is left of the blocks: texts stay texts, and no access has been outside. -/
structure Later (w w' : Buffers) : Prop where
  /-- No access has been outside. -/
  strays : w'.strays = w.strays
  /-- Blocks that are deleted have been handed out. -/
  deleted : (∀ id ∈ w.deleted, id < w.blocks.length) → ∀ id ∈ w'.deleted, id < w'.blocks.length
  /-- Texts stay texts. -/
  texts : ∀ p chars, w.IsText p chars → w'.IsText p chars

theorem Later.refl (w : Buffers) : Later w w := ⟨rfl, fun h => h, fun _ _ h => h⟩

theorem Later.trans {w'' : Buffers} (h : Later w w') (h' : Later w' w'') : Later w w'' :=
  ⟨h'.strays.trans h.strays, fun hdel => h'.deleted (h.deleted hdel),
    fun p chars htext => h'.texts p chars (h.texts p chars htext)⟩

/-- A block has been handed out and deleted again. -/
theorem later_delete (bs : List (BitVec 8)) (hdel : ∀ id ∈ w.deleted, id < w.blocks.length) :
    Later w { w.grow bs with deleted := w.blocks.length :: w.deleted } := by
  refine ⟨rfl, fun _ id hmem => ?_, fun p chars h => h.grow.delete h.base_ne_next⟩
  have hlen : (w.grow bs).blocks.length = w.blocks.length + 1 := length_grow
  rcases List.mem_cons.mp hmem with rfl | hmem
  · exact hlen ▸ Nat.lt_succ_self _
  · exact hlen ▸ Nat.lt_succ_of_lt (hdel id hmem)

/-- A number of at most eleven characters is written, by way of an array of twelve. -/
theorem run_kPrintInt {v base : BitVec 32} (hdel : ∀ id ∈ w.deleted, id < w.blocks.length) (hbase : 2 ≤ base.toNat)
    (hbase' : base.toNat ≤ 36) (hlen : (TypeConverter.numeral v base).length ≤ 11) :
    ∃ w', Later w w' ∧ ((kPrintInt v base).run d).run w = some (((), d.write (TypeConverter.numeral v base)), w') := by
  obtain ⟨bs, hbs, hnew⟩ := run_newArray w (show 12#32 ≠ 0#32 by decide)
  have htwelve : (12#32).toNat = 12 := rfl
  have hid : (w.grow bs).Has w.blocks.length ([] ++ bs ++ []) := by simpa using has_grow hdel
  have hwrite := @TypeConverter.run_intToStr _ _ _ _ _ _ v 12#32 base hbase hbase' hid rfl hbs (by simp; omega) (by omega)
  have hnonzero : 0#8 ∉ TypeConverter.numeral v base := zero_notMem_integer hbase hbase'
  rw [put_grow, List.nil_append, List.append_nil, List.length_nil] at hwrite
  generalize TypeConverter.numeral v base = chars at hwrite hnonzero hlen ⊢
  generalize bs.drop (chars.length + 1) = after at hwrite
  have hchars : (w.grow (chars ++ 0#8 :: after)).Has w.blocks.length ([] ++ (chars ++ [0#8]) ++ after) := by
    simpa using has_grow hdel
  have htext : (w.grow (chars ++ 0#8 :: after)).IsText ⟨.block w.blocks.length, 0⟩ chars :=
    ⟨hchars.reads_range (by simp; omega), hnonzero, by omega⟩
  refine ⟨_, later_delete (chars ++ 0#8 :: after) hdel, ?_⟩
  rw [kPrintInt, run_bind_of (run_liftM hnew), run_bind_of (run_liftM hwrite), kPrint, run_bind_of (run_writeStr htext)]
  exact run_liftM rfl

theorem run_vaInt (v : BitVec 32) (args : List Arg) : ((vaInt (.word v :: args)).run d).run w = some (((v, args), d), w) := rfl

theorem run_vaPointer (q : Pointer) (args : List Arg) :
    ((vaPointer (.pointer q :: args)).run d).run w = some (((q, args), d), w) := rfl

/-- A signed number is written for `%d`, `%i` and `%u`. -/
theorem run_kPrintfSwitch_int (v : BitVec 32) (args : List Arg) (hletter : letter = 0x64#8 ∨ letter = 0x75#8 ∨ letter = 0x69#8)
    (hdel : ∀ id ∈ w.deleted, id < w.blocks.length) :
    ∃ w', Later w w' ∧
      ((kPrintfSwitch p letter (.word v :: args)).run d).run w = some ((args, d.write (integer 10 v.toInt)), w') := by
  obtain ⟨w', hw', hrun⟩ := @run_kPrintInt w d v 10#32 hdel (by decide) (by decide) (TypeConverter.length_numeral_ten v)
  refine ⟨w', hw', ?_⟩
  rw [kPrintfSwitch, if_pos hletter, run_bind_of (run_vaInt v args), run_bind_of hrun]
  rfl

/-- A conversion writes what it stands for, with a signed number for `%u`. -/
theorem Converts.run (h : Converts w₀ signedDecimal letter args args' piece) (hw : Later w₀ w)
    (hdel : ∀ id ∈ w.deleted, id < w.blocks.length) (hp : w.byteAt? p = some letter) :
    ∃ w', Later w w' ∧ ((kPrintfSwitch p letter args).run d).run w = some ((args', d.write piece), w') := by
  cases h with
  | d v args => exact run_kPrintfSwitch_int v _ (.inl rfl) hdel
  | i v args => exact run_kPrintfSwitch_int v _ (.inr (.inr rfl)) hdel
  | u v args => exact run_kPrintfSwitch_int v _ (.inr (.inl rfl)) hdel
  | x v args =>
    obtain ⟨w', hw', hrun⟩ := @run_kPrintInt w d v 16#32 hdel (by decide) (by decide)
      (Nat.le_trans (TypeConverter.length_numeral_sixteen v) (by decide))
    have hnumeral : TypeConverter.numeral v 16#32 = natural 16 v.toNat := integer_natCast 16 v.toNat
    rw [hnumeral] at hrun
    refine ⟨w', hw', ?_⟩
    rw [kPrintfSwitch, if_neg (by decide), if_pos rfl, run_bind_of (run_vaInt v _), run_bind_of hrun]
    rfl
  | c v args =>
    refine ⟨w, Later.refl w, ?_⟩
    rw [kPrintfSwitch, if_neg (by decide), if_neg (by decide), if_pos rfl, run_bind_of (run_vaInt v _), kPrintChar,
      run_bind_of (run_writeChar _)]
    rfl
  | s args htext =>
    refine ⟨w, Later.refl w, ?_⟩
    rw [kPrintfSwitch, if_neg (by decide), if_neg (by decide), if_neg (by decide), if_pos rfl, run_bind_of (run_vaPointer _ _),
      kPrint, run_bind_of (run_writeStr (hw.texts _ _ htext))]
    rfl
  | other args hother =>
    simp only [List.mem_cons, List.not_mem_nil, or_false, not_or] at hother
    obtain ⟨hd, hi, hu, hx, hc, hs⟩ := hother
    refine ⟨w, Later.refl w, ?_⟩
    rw [kPrintfSwitch, if_neg (by simp [hd, hi, hu]), if_neg hx, if_neg hc, if_neg hs, run_bind_of (run_liftM (run_load hp)),
      kPrintChar, run_bind_of (run_writeChar _)]
    rfl

/-! ### A whole format -/

/-- One round of the loop. -/
theorem run_kPrintfLoop_succ {n : ℕ} {d' : Display} {r : Pointer × List Arg} (hp : w.byteAt? p = some ch) (hch : ch ≠ 0#8)
    (hbody : ((kPrintfBody p args).run d).run w = some ((r, d'), w')) :
    ((kPrintfLoop (n + 1) p args).run d).run w = ((kPrintfLoop n (r.1 + 1) r.2).run d').run w' := by
  rw [kPrintfLoop, run_bind_of (run_liftM (run_load hp)), if_pos hch, run_bind_of hbody]

/-- The loop ends at a zero. -/
theorem run_kPrintfLoop_zero (n : ℕ) (hp : w.byteAt? p = some 0#8) :
    ((kPrintfLoop n p args).run d).run w = some (((), d), w) := by
  cases n with
  | zero =>
    rw [kPrintfLoop, run_bind_of (run_liftM (run_load hp)), if_neg (not_not.mpr rfl)]
    rfl
  | succ n =>
    rw [kPrintfLoop, run_bind_of (run_liftM (run_load hp)), if_neg (not_not.mpr rfl)]
    rfl

theorem run_kPrintfBody_literal (hp : w.byteAt? p = some ch) (hch : ch ≠ 0x25#8) :
    ((kPrintfBody p args).run d).run w = some (((p, args), d.write [ch]), w) := by
  rw [kPrintfBody, run_bind_of (run_liftM (run_load hp)), if_pos hch, run_bind_of (run_liftM (run_load hp)), kPrintChar,
    run_bind_of (run_writeChar ch)]
  rfl

theorem run_kPrintfBody_conversion {d' : Display} (hp : w.byteAt? p = some 0x25#8) (hp' : w.byteAt? (p + 1) = some letter)
    (hswitch : ((kPrintfSwitch (p + 1) letter args).run d).run w = some ((args', d'), w')) :
    ((kPrintfBody p args).run d).run w = some (((p + 1, args'), d'), w') := by
  rw [kPrintfBody, run_bind_of (run_liftM (run_load hp)), if_neg (not_not.mpr rfl), run_bind_of (run_liftM (run_load hp')),
    run_bind_of hswitch]
  rfl

/-- A format, or a first part of it, is written in at most as many rounds as it has characters. -/
theorem Renders.run (h : Renders w₀ signedDecimal fmt args rest out) {after : List (BitVec 8)} (hw : Later w₀ w)
    (hp : w.IsText p (fmt ++ after)) (hdel : ∀ id ∈ w.deleted, id < w.blocks.length) :
    ∃ w', Later w w' ∧ ∃ m ≤ fmt.length, ∀ n, ((kPrintfLoop (m + n) p args).run d).run w =
      ((kPrintfLoop n (p + fmt.length) rest).run (d.write out)).run w' := by
  induction h generalizing w d p with
  | nil args => exact ⟨w, Later.refl w, 0, Nat.le_refl _, fun n => by rw [Nat.zero_add, Display.write_nil]; rfl⟩
  | @literal ch fmt args rest out hch h ih =>
    obtain ⟨hload, hne⟩ := hp.head
    obtain ⟨w', hw', m, hm, hrun⟩ := @ih w (d.write [ch]) (p + 1) hw hp.tail hdel
    refine ⟨w', hw', m + 1, Nat.succ_le_succ hm, fun n => ?_⟩
    rw [Nat.add_right_comm, run_kPrintfLoop_succ hload hne (run_kPrintfBody_literal hload hch), hrun, Display.write_write,
      Pointer.add_add, Nat.add_comm 1, List.length_cons, List.singleton_append]
  | @conversion letter fmt args args' rest piece out hpiece h ih =>
    obtain ⟨hload, hne⟩ := hp.head
    obtain ⟨hload', -⟩ := hp.tail.head
    obtain ⟨w₁, hw₁, hswitch⟩ := @Converts.run _ _ d _ _ _ _ _ hpiece hw hdel hload'
    have hafter := hw₁.texts _ _ hp.tail.tail
    obtain ⟨w', hw', m, hm, hrun⟩ := @ih w₁ (d.write piece) (p + 1 + 1) (hw.trans hw₁) hafter (hw₁.deleted hdel)
    refine ⟨w', hw₁.trans hw', m + 1, by rw [List.length_cons, List.length_cons]; omega, fun n => ?_⟩
    have hlen : 1 + (1 + fmt.length) = (0x25#8 :: letter :: fmt).length := by
      rw [List.length_cons, List.length_cons]
      omega
    rw [Nat.add_right_comm, run_kPrintfLoop_succ hload hne (run_kPrintfBody_conversion hload hload' hswitch), hrun,
      Display.write_write, Pointer.add_add, Pointer.add_add, hlen]

/-- A format is written as it should be, but for its unsigned numbers. -/
theorem run_kPrintfWithin {n : ℕ} (h : Renders w signedDecimal fmt args rest out) (hp : w.IsText p fmt)
    (hdel : ∀ id ∈ w.deleted, id < w.blocks.length) (hn : fmt.length ≤ n) :
    ∃ w', Later w w' ∧ ((kPrintfWithin n p args).run d).run w = some ((0#32, d.write out), w') := by
  have htext : w.IsText p (fmt ++ []) := by rwa [List.append_nil]
  obtain ⟨w', hw', m, hm, hrun⟩ := @Renders.run w w d p _ _ _ _ h [] (Later.refl w) htext hdel
  have hzero := (reads_cons.mp (reads_append.mp (hw'.texts _ _ hp).reads).2).1
  obtain ⟨k, rfl⟩ : ∃ k, n = m + k := ⟨n - m, by omega⟩
  refine ⟨w', hw', ?_⟩
  rw [kPrintfWithin, run_bind_of ((hrun k).trans (run_kPrintfLoop_zero k hzero))]
  rfl

/-! ### Unsigned numbers -/

theorem unsignedArgs_cons (hch : ch ≠ 0x25#8) : unsignedArgs (ch :: fmt) args = unsignedArgs fmt args := by
  cases fmt with
  | nil => rfl
  | cons letter fmt => rw [unsignedArgs, if_pos hch]

/-- Only the numerals of the signed numbers that are negative start with a minus sign. -/
theorem signedDecimal_append_eq_iff (v : BitVec 32) {xs ys : List (BitVec 8)} :
    signedDecimal v ++ xs = unsignedDecimal v ++ ys ↔ v.toNat < 2 ^ 31 ∧ xs = ys := by
  have hint := BitVec.toInt_eq_toNat_cond v
  by_cases hv : v.toNat < 2 ^ 31
  · have hsame : signedDecimal v = unsignedDecimal v := by
      rw [signedDecimal, unsignedDecimal, hint, if_pos (by omega), integer_natCast]
    rw [hsame, List.append_cancel_left_eq, and_iff_right hv]
  · have hlt := v.isLt
    have hminus : (signedDecimal v).head? = some 0x2D#8 := (head?_integer (by decide) (by decide)).mpr (by omega)
    have hdigit : (unsignedDecimal v).head? ≠ some 0x2D#8 := head?_natural_ne_minus (by decide) (by decide)
    have hne : unsignedDecimal v ≠ [] := natural_ne_nil 10 v.toNat
    refine iff_of_false (fun heq => ?_) fun h => hv h.1
    have hhead := congrArg List.head? heq
    rw [List.head?_append, hminus, List.head?_append_of_ne_nil _ hne] at hhead
    exact hdigit hhead.symm

/-- What a conversion is written as differs from what it stands for, whatever follows, if it is for an unsigned number that is
taken as negative. -/
theorem Converts.signed (h : Converts w unsignedDecimal letter args args' piece) (fmt : List (BitVec 8)) :
    ∃ piece' vs, Converts w signedDecimal letter args args' piece' ∧
      unsignedArgs (0x25#8 :: letter :: fmt) args = vs ++ unsignedArgs fmt args' ∧
      ∀ xs ys, piece' ++ xs = piece ++ ys ↔ (∀ v ∈ vs, v.toNat < 2 ^ 31) ∧ xs = ys := by
  have hsame (piece xs ys : List (BitVec 8)) :
      piece ++ xs = piece ++ ys ↔ (∀ v ∈ ([] : List (BitVec 32)), v.toNat < 2 ^ 31) ∧ xs = ys := by simp
  cases h with
  | d v => exact ⟨_, [], .d v _, rfl, hsame _⟩
  | i v => exact ⟨_, [], .i v _, rfl, hsame _⟩
  | u v => exact ⟨_, [v], .u v _, rfl, fun xs ys => by rw [signedDecimal_append_eq_iff, List.forall_mem_singleton]⟩
  | x v => exact ⟨_, [], .x v _, rfl, hsame _⟩
  | c v => exact ⟨_, [], .c v _, rfl, hsame _⟩
  | s args htext => exact ⟨_, [], .s _ htext, rfl, hsame _⟩
  | other args hother =>
    refine ⟨_, [], .other _ hother, ?_, hsame _⟩
    have hu : letter ≠ 0x75#8 := fun h => hother (by simp [h])
    have hothers : letter ∉ [0x64#8, 0x69#8, 0x78#8, 0x63#8, 0x73#8] := fun h => hother (by simp at h ⊢; tauto)
    rw [unsignedArgs, if_neg (not_not.mpr rfl), if_neg hu, if_neg hothers, List.nil_append]

/-- What a format is written as is what it stands for if and only if none of its unsigned numbers is taken as negative. -/
theorem Renders.signed (h : Renders w unsignedDecimal fmt args rest out) :
    ∃ out', Renders w signedDecimal fmt args rest out' ∧ (out' = out ↔ ∀ v ∈ unsignedArgs fmt args, v.toNat < 2 ^ 31) := by
  induction h with
  | nil args => exact ⟨[], .nil args, iff_of_true rfl fun v hv => absurd hv List.not_mem_nil⟩
  | @literal ch fmt args rest out hch h ih =>
    obtain ⟨out', hout', heq⟩ := ih
    refine ⟨ch :: out', .literal hch hout', ?_⟩
    rw [unsignedArgs_cons hch, ← heq, List.cons_inj_right]
  | @conversion letter fmt args args' rest piece out hpiece h ih =>
    obtain ⟨out', hout', heq⟩ := ih
    obtain ⟨piece', vs, hpiece', hargs, hsame⟩ := hpiece.signed fmt
    refine ⟨piece' ++ out', .conversion hpiece' hout', ?_⟩
    rw [hsame, heq, hargs, List.forall_mem_append]

/-! ### An unpaired `%` -/

/-- Nothing but an unpaired `%` is left out. -/
theorem eq_paired_or (fmt : List (BitVec 8)) : fmt = paired fmt ∨ fmt = paired fmt ++ [0x25#8] := by
  induction fmt using paired.induct with
  | case1 => exact .inl rfl
  | case2 => exact .inr rfl
  | case3 ch hch => exact .inl (by rw [paired, if_neg hch])
  | case4 letter fmt ih =>
    rw [paired, if_pos rfl]
    simpa using ih
  | case5 ch letter fmt hch ih =>
    rw [paired, if_neg hch]
    simpa using ih

/-- Where the loop starts behind the end of what a pointer points into, it makes an access outside. -/
theorem strays_kPrintfLoop {n : ℕ} (hp : w.byteAt? p = none) (d : Display) : Strays w ((kPrintfLoop n p args).run d) := by
  have hload := strays_liftM (strays_load hp) d
  cases n with
  | zero =>
    rw [kPrintfLoop, StateT.run_bind]
    exact hload.bind
  | succ n =>
    rw [kPrintfLoop, StateT.run_bind]
    exact hload.bind

/-- The round for an unpaired `%` goes on behind the zero that ends the format. -/
theorem run_kPrintfBody_unpaired (hp : w.IsText p [0x25#8]) :
    ((kPrintfBody p args).run d).run w = some (((p + 1, args), d.write [0#8]), w) := by
  obtain ⟨hload, -⟩ := hp.head
  have hzero := (reads_cons.mp hp.tail.reads).1
  refine run_kPrintfBody_conversion hload hzero ?_
  rw [kPrintfSwitch, if_neg (by decide), if_neg (by decide), if_neg (by decide), if_neg (by decide),
    run_bind_of (run_liftM (run_load hzero)), kPrintChar, run_bind_of (run_writeChar _)]
  rfl

theorem run_kPrintfLoop_of_within {n : ℕ} {d' : Display} {r : BitVec 32}
    (h : ((kPrintfWithin n p args).run d).run w = some ((r, d'), w')) :
    ((kPrintfLoop n p args).run d).run w = some (((), d'), w') := by
  rw [kPrintfWithin, StateT.run_bind, Action.run_bind] at h
  obtain ⟨⟨⟨⟨⟩, d₁⟩, w₁⟩, hloop, hpure⟩ := Option.bind_eq_some_iff.mp h
  cases hpure
  exact hloop

/-- `KPrintf` reads no further than to the end of its format, and goes round no more often than the format has characters,
if and only if no unpaired `%` is at the end. -/
theorem kPrintf_scans_iff (w : Buffers) (d : Display) (chars : List (BitVec 8)) (args rest : List Arg) (out : List (BitVec 8))
    (hchars : 0#8 ∉ chars) (hfits : chars.length + 1 < 2 ^ 32) (hdel : ∀ id ∈ w.deleted, id < w.blocks.length)
    (hargs : Renders w unsignedDecimal (paired chars) args rest out) :
    (∃ d' w', ((kPrintfWithin chars.length ⟨.text chars, 0⟩ args).run d).run w = some ((0#32, d'), w') ∧
      w'.strays = w.strays) ↔ paired chars = chars := by
  obtain ⟨out', hout', -⟩ := hargs.signed
  have htext : w.IsText ⟨.text chars, 0⟩ chars := isText_text hchars hfits
  constructor
  · rintro ⟨d', w', hrun, hstrays⟩
    refine (eq_paired_or chars).elim Eq.symm fun hunpaired => ?_
    have hlen := congrArg List.length hunpaired
    rw [List.length_append, List.length_singleton] at hlen
    have hsplit : w.IsText ⟨.text chars, 0⟩ (paired chars ++ [0x25#8]) := by rwa [← hunpaired]
    obtain ⟨w₁, hw₁, m, hm, hprefix⟩ := @Renders.run w w d _ _ _ _ _ hout' [0x25#8] (Later.refl w) hsplit hdel
    obtain ⟨k, hk⟩ : ∃ k, chars.length = m + (k + 1) := ⟨chars.length - m - 1, by omega⟩
    -- the last character is reached, and the round for it goes on behind the end
    have hlast := (hw₁.texts _ _ hsplit).append_right
    obtain ⟨hload, hne⟩ := hlast.head
    have hloop := run_kPrintfLoop_of_within hrun
    rw [hk, hprefix, run_kPrintfLoop_succ hload hne (run_kPrintfBody_unpaired hlast)] at hloop
    have hend : w₁.byteAt? ((⟨.text chars, 0⟩ : Pointer) + (paired chars).length + 1 + 1) = none := by
      rw [Pointer.add_add, Pointer.add_add, byteAt?_text (by omega)]
      exact List.getElem?_eq_none (by simp; omega)
    have hlt := strays_kPrintfLoop hend _ _ _ hloop
    have hsame := hw₁.strays
    omega
  · intro heq
    rw [heq] at hout'
    obtain ⟨w', hw', hrun⟩ := @run_kPrintfWithin _ d _ _ _ _ _ _ hout' htext hdel (Nat.le_refl _)
    exact ⟨_, w', hrun, hw'.strays⟩

/-- A display on which nothing has been written. -/
def blank : Display := ⟨⟨⟨0xB8000#32, 0#16, 0#16, .lightBrown, 0x3D4#16, 0x3D5#16⟩, fun _ => 0#8, ⟨1#8, 0#8, fun _ => 0#8⟩⟩, []⟩

/-- The format `%d`. -/
theorem kPrintf_scans_iff_number : ∃ d' w',
    ((kPrintfWithin 2 ⟨.text [0x25#8, 0x64#8], 0⟩ [.word 7#32]).run blank).run noBlocks = some ((0#32, d'), w') ∧
      w'.strays = 0 :=
  have hargs : Renders noBlocks unsignedDecimal [0x25#8, 0x64#8] [.word 7#32] [] (integer 10 7 ++ []) :=
    .conversion (.d 7#32 []) (.nil [])
  (kPrintf_scans_iff noBlocks blank [0x25#8, 0x64#8] [.word 7#32] [] _ (by decide) (by decide)
    (fun _ h => absurd h List.not_mem_nil) hargs).mpr rfl

/-- The format `%`: the character behind its end is read. -/
theorem kPrintf_past_format : ∃ d' w',
    ((kPrintfWithin 1 ⟨.text [0x25#8], 0⟩ []).run blank).run noBlocks = some ((0#32, d'), w') ∧ w'.strays = 1 :=
  ⟨_, _, rfl, rfl⟩

/-- `KPrintf` writes what its format stands for, with no access outside of its arrays, if and only if every number that `%u`
asks for is below 2³¹. -/
theorem kPrintf_renders_iff (w : Buffers) (d : Display) (p : Pointer) (fmt : List (BitVec 8)) (args rest : List Arg)
    (out : List (BitVec 8)) (hp : w.IsText p fmt) (hdel : ∀ id ∈ w.deleted, id < w.blocks.length)
    (h : Renders w unsignedDecimal fmt args rest out) :
    (∃ d' w', ((kPrintf p args).run d).run w = some ((0#32, d'), w') ∧ d'.written = d.written ++ out ∧
      w'.strays = w.strays) ↔ ∀ v ∈ unsignedArgs fmt args, v.toNat < 2 ^ 31 := by
  obtain ⟨out', hout', heq⟩ := h.signed
  have hfits := hp.fits
  obtain ⟨w₁, hw₁, hrun⟩ := @run_kPrintfWithin _ d _ _ _ _ _ (2 ^ 32) hout' hp hdel (by omega)
  rw [← heq]
  constructor
  · rintro ⟨d', w', hrun', hwritten, -⟩
    obtain ⟨⟨-, rfl⟩, -⟩ : ((0#32 = 0#32 ∧ d.write out' = d') ∧ w₁ = w') := by
      simpa using hrun.symm.trans hrun'
    rw [Display.written_write] at hwritten
    exact List.append_cancel_left hwritten
  · rintro rfl
    exact ⟨_, w₁, hrun, rfl, hw₁.strays⟩

/-- The format `%u`, and a number that is the same with and without a sign. -/
theorem kPrintf_renders_iff_seven : ∃ d' w',
    ((kPrintf ⟨.text [0x25#8, 0x75#8], 0⟩ [.word 7#32]).run blank).run noBlocks = some ((0#32, d'), w') ∧
      d'.written = unsignedDecimal 7#32 ++ [] ∧ w'.strays = 0 := by
  have h : Renders noBlocks unsignedDecimal [0x25#8, 0x75#8] [.word 7#32] [] (unsignedDecimal 7#32 ++ []) :=
    .conversion (.u 7#32 []) (.nil [])
  refine (kPrintf_renders_iff noBlocks blank _ _ _ _ _ (isText_text (by decide) (by decide))
    (fun _ h => absurd h List.not_mem_nil) h).mpr fun v hv => ?_
  obtain rfl : v = 7#32 := List.mem_singleton.mp hv
  decide

/-- The greatest unsigned number is written as `-1`. -/
theorem kPrintf_minusOne : ∃ d' w',
    ((kPrintf ⟨.text [0x25#8, 0x75#8], 0⟩ [.word 0xFFFFFFFF#32]).run blank).run noBlocks = some ((0#32, d'), w') ∧
      d'.written = [0x2D#8, 0x31#8] ∧ unsignedDecimal 0xFFFFFFFF#32 ≠ [0x2D#8, 0x31#8] := by
  have h : Renders noBlocks signedDecimal [0x25#8, 0x75#8] [.word 0xFFFFFFFF#32] [] (signedDecimal 0xFFFFFFFF#32 ++ []) :=
    .conversion (.u 0xFFFFFFFF#32 []) (.nil [])
  have hminus : signedDecimal 0xFFFFFFFF#32 = [0x2D#8, 0x31#8] := by decide
  have hdigit : (unsignedDecimal 0xFFFFFFFF#32).head? ≠ some 0x2D#8 := head?_natural_ne_minus (by decide) (by decide)
  obtain ⟨w', -, hrun⟩ := @run_kPrintfWithin _ blank _ _ _ _ _ (2 ^ 32) h (isText_text (by decide) (by decide))
    (fun _ h => absurd h List.not_mem_nil) (by decide)
  exact ⟨_, w', hrun, hminus, fun heq => hdigit (by rw [heq]; rfl)⟩

end

end EagleOS.Kern
