import EagleOS.ESTD.Strtok
import Mathlib.Order.Bounds.Basic

/-!
# `Strnlen` and `Strrchr`

`Strnlen` looks for the first zero, and is not to look further than it is told; it tests the byte before it tests the
bound. `Strrchr` looks for the last occurrence of a character: it calls `Strchr` again behind each one that it finds,
which goes past the end of the text when it is the zero there that was found.

## The model

As in `CStringCompare`, the texts and arrays are wherever the pointers point to. What a function reads is what it needs
to return, wherever it is (`ReadsOnly`).

## What is proved

* `run_strnlen_of_mem`, `run_strnlen_of_notMem` — `Strnlen`, where it stops at a zero and where it does not.
* `strnlen_stays_below_iff` — when it reads nothing but the bytes below its bound.
* `run_strrchr_last`, `run_strrchr_absent` — `Strrchr` of a character.
* `strrchr_finds_last_iff` — when it finds the last occurrence, and stays in the text.
-/

namespace EagleOS.ESTD.CString

open Foundations Buffers

/-- The loop of `Strnlen`. -/
def strnlenLoop (str : Pointer) (maxlen : ℕ) : ℕ → ℕ → Action SizeT
  | 0, _ => .hang
  | fuel + 1, len => do
    if (← load (str + len)) ≠ 0#8 ∧ len < maxlen then strnlenLoop str maxlen fuel (len + 1) else pure (BitVec.ofNat 32 len)

/-- `Strnlen`: `len` comes to `maxlen` at most. -/
def strnlen (str : Pointer) (maxlen : SizeT) : Action SizeT := strnlenLoop str maxlen.toNat (maxlen.toNat + 1) 0

/-- The loop of `Strrchr`. -/
def strrchrLoop (ch : BitVec 8) : ℕ → Pointer → Pointer → Action Pointer
  | 0, _, _ => .hang
  | fuel + 1, str, f => do
    let t ← strchr str ch
    if t.base ≠ .null then strrchrLoop ch fuel (t + 1) t else pure f

/-- `Strrchr`. -/
def strrchr (str : Pointer) (ch : BitVec 8) : Action Pointer := strrchrLoop ch (2 ^ 32) str .null

/-! ### `Strnlen` -/

section

variable {w : Buffers} {p : Pointer} {xs : List (BitVec 8)}

/-- The loop goes past bytes that are not zero, up to the bound. -/
theorem run_strnlenLoop_skip {maxlen fuel len : ℕ} (hreads : w.Reads (p + len) xs) (hxs : 0#8 ∉ xs)
    (hroom : len + xs.length ≤ maxlen) :
    (strnlenLoop p maxlen (fuel + xs.length) len).run w = (strnlenLoop p maxlen fuel (len + xs.length)).run w := by
  induction xs generalizing len with
  | nil => rfl
  | cons x xs ih =>
    obtain ⟨hx, hrest⟩ := reads_cons.mp hreads
    rw [List.mem_cons, not_or] at hxs
    rw [List.length_cons] at hroom
    have hload := run_load hx
    rw [Pointer.add_add] at hrest
    have hnext := ih hrest hxs.2 (by omega)
    rw [Nat.add_assoc len, Nat.add_comm 1] at hnext
    rw [List.length_cons, ← Nat.add_assoc, strnlenLoop, Action.run_bind, hload, Option.bind_eq_bind, Option.bind_some,
      if_pos ⟨Ne.symm hxs.1, by omega⟩, hnext]

/-- `Strnlen` stops at the first zero that is below its bound. -/
theorem run_strnlen_of_mem {maxlen : SizeT} (hreads : w.Reads p (xs ++ [0#8])) (hxs : 0#8 ∉ xs) (hlen : xs.length < maxlen.toNat) :
    (strnlen p maxlen).run w = some (BitVec.ofNat 32 xs.length, w) := by
  obtain ⟨hskip, hlast⟩ := reads_append.mp hreads
  obtain ⟨k, hk⟩ : ∃ k, maxlen.toNat + 1 = k + 1 + xs.length := ⟨maxlen.toNat - xs.length, by omega⟩
  have hload := run_load (reads_cons.mp hlast).1
  rw [strnlen, hk, run_strnlenLoop_skip hskip hxs (by omega), Nat.zero_add, strnlenLoop, Action.run_bind, hload,
    Option.bind_eq_bind, Option.bind_some, if_neg fun h => h.1 rfl]
  rfl

/-- Where there is none, it reads one byte more before it returns its bound. -/
theorem run_strnlen_of_notMem {maxlen : SizeT} (hreads : w.Reads p xs) (hxs : 0#8 ∉ xs) (hlen : xs.length = maxlen.toNat) :
    (strnlen p maxlen).run w = (do let _ ← load (p + xs.length); pure maxlen : Action SizeT).run w := by
  have hbody : strnlenLoop p xs.length 1 xs.length = (do let _ ← load (p + xs.length); pure maxlen : Action SizeT) := by
    rw [strnlenLoop]
    congr 1
    funext b
    rw [if_neg fun h => absurd h.2 (Nat.lt_irrefl _), hlen, BitVec.ofNat_toNat, BitVec.setWidth_eq]
  rw [strnlen, ← hlen, Nat.add_comm, run_strnlenLoop_skip hreads hxs (by omega), Nat.zero_add, hbody]

/-- `Strnlen` reads only the bytes of the array that are below its bound, and returns the index of the first zero among
them, or else the bound, which is how many they are. -/
def StaysBelow (xs : List (BitVec 8)) (maxlen : SizeT) : Prop :=
  ReadsOnly (strnlen · maxlen) (xs.take maxlen.toNat) fun _ => BitVec.ofNat 32 ((xs.take maxlen.toNat).idxOf 0#8)

/-- A zero among them is found. -/
theorem staysBelow_of_mem {maxlen : SizeT} (h : 0#8 ∈ xs.take maxlen.toNat) : StaysBelow xs maxlen := by
  intro w p hreads
  obtain ⟨ys, zs, hsplit, hys⟩ := List.eq_append_cons_of_mem h
  have hlen : (xs.take maxlen.toNat).length ≤ maxlen.toNat := List.length_take_le _ _
  rw [hsplit, List.append_cons] at hreads
  rw [hsplit, List.length_append, List.length_cons] at hlen
  rw [run_strnlen_of_mem (reads_append.mp hreads).1 hys (by omega), hsplit, List.idxOf_append_of_notMem hys, List.idxOf_cons_self,
    Nat.add_zero]

/-- Where there is no zero among them, and nothing behind them, `Strnlen` reads what is not there. -/
theorem not_staysBelow {maxlen : SizeT} (hmax : maxlen.toNat ≤ xs.length) (h : 0#8 ∉ xs.take maxlen.toNat) :
    ¬ StaysBelow xs maxlen := by
  intro hreads
  have hlen : (xs.take maxlen.toNat).length = maxlen.toNat := List.length_take_of_le hmax
  have hlt : (xs.take maxlen.toNat).length < 2 ^ 32 := by
    rw [hlen]
    exact maxlen.isLt
  refine hreads.not_strays (Nat.le_of_lt hlt) fun v w' hrun => ?_
  rw [run_strnlen_of_notMem (reads_single (Nat.le_of_lt hlt)) h hlen] at hrun
  exact (strays_load (byteAt?_single_end hlt)).bind v w' hrun

/-- **`Strnlen`**: of an array of bytes it reads only those that are below its bound, and returns the index of the first
zero among them or else the bound, exactly when there is a zero among them. -/
theorem strnlen_stays_below_iff (xs : List (BitVec 8)) (maxlen : SizeT) (hmax : maxlen.toNat ≤ xs.length) :
    StaysBelow xs maxlen ↔ 0#8 ∈ xs.take maxlen.toNat :=
  ⟨fun h => by_contra fun h0 => not_staysBelow hmax h0 h, staysBelow_of_mem⟩

/-- The three bytes of `ab` and its zero, and the two without it. -/
theorem strnlen_stays_below_iff_ab : StaysBelow [0x61#8, 0x62#8, 0#8] 3#32 ∧ ¬ StaysBelow [0x61#8, 0x62#8, 0#8] 2#32 :=
  ⟨(strnlen_stays_below_iff _ 3#32 (by decide)).mpr (by decide), mt (strnlen_stays_below_iff _ 2#32 (by decide)).mp (by decide)⟩

/-- Of an array of one byte, `Strnlen` reads a second one, which is outside. -/
theorem strnlen_reads_past : ¬ StaysBelow [0x61#8] 1#32 ∧
    ((strnlen ⟨.block 0, 0⟩ 1#32).run (Buffers.single [0x61#8])).map (fun r => (r.1, r.2.strays)) = some (1#32, 1) :=
  ⟨not_staysBelow (by decide) (by decide), by decide +kernel⟩

end

/-! ### `Strrchr` -/

section

variable {w : Buffers} {p f : Pointer} {ch : BitVec 8} {xs ys s : List (BitVec 8)}

/-- A round that finds the character. -/
theorem run_strrchrLoop_found {fuel : ℕ} (hreads : w.Reads p (xs ++ [ch])) (hxs : ∀ x ∈ xs, x ≠ ch ∧ x ≠ 0#8)
    (hlen : xs.length < 2 ^ 32) : (strrchrLoop ch (fuel + 1) p f).run w =
      (strrchrLoop ch fuel (p + xs.length + 1) (p + xs.length)).run w := by
  have hbase : (p + xs.length).base ≠ .null := base_ne_null (reads_cons.mp (reads_append.mp hreads).2).1
  rw [strrchrLoop, Action.run_bind, run_strchr_found hreads hxs hlen, Option.bind_eq_bind, Option.bind_some, if_pos hbase]

/-- The round that does not. -/
theorem run_strrchrLoop_absent {fuel : ℕ} (hreads : w.Reads p (xs ++ [0#8])) (hxs : ∀ x ∈ xs, x ≠ ch ∧ x ≠ 0#8)
    (hch : ch ≠ 0#8) (hlen : xs.length < 2 ^ 32) : (strrchrLoop ch (fuel + 1) p f).run w = some (f, w) := by
  rw [strrchrLoop, Action.run_bind, run_strchr_absent hreads hxs hch hlen, Option.bind_eq_bind, Option.bind_some,
    if_neg fun h => h rfl]
  rfl

/-- The loop goes from one occurrence to the next, up to the last one. -/
theorem run_strrchrLoop_last {fuel : ℕ} (hreads : w.Reads p (xs ++ ch :: (ys ++ [0#8]))) (hxs : 0#8 ∉ xs) (hch : ch ≠ 0#8)
    (hys : 0#8 ∉ ys) (hlast : ch ∉ ys) (hlen : xs.length + (ys.length + 1) < 2 ^ 32) (hfuel : xs.length + 2 ≤ fuel) :
    (strrchrLoop ch fuel p f).run w = some (p + xs.length, w) := by
  induction fuel generalizing p f xs with
  | zero => omega
  | succ fuel ih =>
    by_cases hmem : ch ∈ xs
    · -- the rest of the text begins behind the first occurrence, and has the last one
      obtain ⟨as, bs, rfl, has⟩ := List.eq_append_cons_of_mem hmem
      have hsplit : as ++ ch :: bs ++ ch :: (ys ++ [0#8]) = as ++ [ch] ++ (bs ++ ch :: (ys ++ [0#8])) := by simp
      rw [hsplit] at hreads
      obtain ⟨hfirst, hrest⟩ := reads_append.mp hreads
      rw [List.mem_append, not_or, List.mem_cons, not_or] at hxs
      rw [List.length_append, List.length_cons] at hlen hfuel
      rw [List.length_append, List.length_singleton] at hrest
      have hnext := ih (f := p + as.length) hrest hxs.2.2 (by omega) (by omega)
      rw [run_strrchrLoop_found hfirst (ne_of_notMem has hxs.1) (by omega), Pointer.add_add, hnext, Pointer.add_add,
        List.length_append, List.length_cons, Nat.add_assoc, Nat.add_comm 1]
    · obtain ⟨fuel, rfl⟩ : ∃ n, fuel = n + 1 := Nat.exists_eq_succ_of_ne_zero (by omega)
      rw [List.append_cons] at hreads
      obtain ⟨hfirst, hrest⟩ := reads_append.mp hreads
      rw [List.length_append, List.length_singleton] at hrest
      rw [run_strrchrLoop_found hfirst (ne_of_notMem hmem hxs) (by omega), Pointer.add_add,
        run_strrchrLoop_absent hrest (ne_of_notMem hlast hys) hch (by omega)]

/-- `Strrchr` of a character that is in a text. -/
theorem run_strrchr_last (hreads : w.Reads p (xs ++ ch :: (ys ++ [0#8]))) (hxs : 0#8 ∉ xs) (hch : ch ≠ 0#8) (hys : 0#8 ∉ ys)
    (hlast : ch ∉ ys) (hlen : xs.length + (ys.length + 1) + 1 < 2 ^ 32) : (strrchr p ch).run w = some (p + xs.length, w) :=
  run_strrchrLoop_last hreads hxs hch hys hlast (by omega) (by omega)

/-- `Strrchr` of a character that is not. -/
theorem run_strrchr_absent (hreads : w.Reads p (s ++ [0#8])) (hs : 0#8 ∉ s) (hch : ch ≠ 0#8) (hmem : ch ∉ s)
    (hlen : s.length < 2 ^ 32) : (strrchr p ch).run w = some (.null, w) := by
  obtain ⟨k, hk⟩ : ∃ k, 2 ^ 32 = k + 1 := ⟨2 ^ 32 - 1, rfl⟩
  rw [strrchr, hk, run_strrchrLoop_absent hreads (ne_of_notMem hmem hs) hch hlen]

/-- `Strchr` reads the byte that it is given. -/
theorem strays_strchr (h : w.byteAt? p = none) : Strays w (strchr p ch) := by
  obtain ⟨k, hk⟩ : ∃ k, 2 ^ 32 = k + 1 := ⟨2 ^ 32 - 1, rfl⟩
  rw [strchr, hk, strchrLoop]
  exact (strays_load h).bind

/-- `Strrchr` of the zero goes on behind it, whatever is there. -/
theorem strays_strrchr_zero (hreads : w.Reads p (s ++ [0#8])) (hs : 0#8 ∉ s) (hlen : s.length < 2 ^ 32)
    (hpast : w.byteAt? (p + (s.length + 1)) = none) : Strays w (strrchr p 0#8) := by
  obtain ⟨k, hk⟩ : ∃ k, 2 ^ 32 = k + 1 + 1 := ⟨2 ^ 32 - 2, rfl⟩
  intro v w' hrun
  rw [strrchr, hk, run_strrchrLoop_found hreads (ne_of_notMem hs hs) hlen, Pointer.add_add, strrchrLoop] at hrun
  exact (strays_strchr hpast).bind v w' hrun

/-- `Strrchr` reads only the text and the zero that ends it, which is part of it, and returns where the character is the
last time, or a null pointer if it is not there. -/
def FindsLast (s : List (BitVec 8)) (ch : BitVec 8) : Prop :=
  ∃ o : Option ℕ, ReadsOnly (strrchr · ch) (s ++ [0#8]) (fun p => o.elim .null (p + ·)) ∧
    (∀ i, o = some i ↔ IsGreatest {k | (s ++ [0#8])[k]? = some ch} i) ∧ (o = none ↔ ch ∉ s ++ [0#8])

/-- The last position of an element that is not in the rest of the list. -/
theorem isGreatest_position {α : Type} {x : α} {xs ys : List α} (hys : x ∉ ys) :
    IsGreatest {k | (xs ++ x :: ys)[k]? = some x} xs.length := by
  refine ⟨by simp, fun k hk => ?_⟩
  by_contra hlt
  obtain ⟨j, rfl⟩ : ∃ j, k = xs.length + (j + 1) := ⟨k - xs.length - 1, by omega⟩
  rw [Set.mem_ofPred_eq, List.getElem?_append_right (Nat.le_add_right _ _), Nat.add_sub_cancel_left, List.getElem?_cons_succ] at hk
  exact hys (List.mem_of_getElem? hk)

/-- A list is split at the last occurrence of an element. -/
theorem exists_last {α : Type} [DecidableEq α] {x : α} {xs : List α} (h : x ∈ xs) : ∃ ys zs, xs = ys ++ x :: zs ∧ x ∉ zs := by
  obtain ⟨as, bs, hsplit, has⟩ := List.eq_append_cons_of_mem (List.mem_reverse.mpr h)
  refine ⟨bs.reverse, as.reverse, ?_, fun hmem => has (List.mem_reverse.mp hmem)⟩
  rw [← List.reverse_reverse xs, hsplit, List.reverse_append, List.reverse_cons, List.append_assoc, List.singleton_append]

/-- A character of the text. -/
theorem findsLast_of_mem (hs : 0#8 ∉ s) (hch : ch ≠ 0#8) (hmem : ch ∈ s) (hlen : s.length + 1 < 2 ^ 32) : FindsLast s ch := by
  obtain ⟨xs, ys, rfl, hlast⟩ := exists_last hmem
  rw [List.mem_append, not_or, List.mem_cons, not_or] at hs
  rw [List.length_append, List.length_cons] at hlen
  have hend : ch ∉ ys ++ [0#8] := by simpa [hch] using hlast
  have hassoc : xs ++ ch :: ys ++ [0#8] = xs ++ ch :: (ys ++ [0#8]) := by simp
  rw [FindsLast, hassoc]
  refine ⟨some xs.length, fun w p hreads => ?_, fun i => ⟨?_, fun hi => ?_⟩, ?_⟩
  · exact run_strrchr_last hreads hs.1 hch hs.2.2 hlast (by omega)
  · rintro ⟨⟩
    exact isGreatest_position hend
  · exact congrArg some ((isGreatest_position hend).unique hi)
  · simp

/-- A character that is not in the text. -/
theorem findsLast_of_notMem (hs : 0#8 ∉ s) (hch : ch ≠ 0#8) (hmem : ch ∉ s) (hlen : s.length + 1 < 2 ^ 32) : FindsLast s ch := by
  have hend : ch ∉ s ++ [0#8] := by simpa [hch] using hmem
  refine ⟨none, fun w p hreads => ?_, fun i => ⟨?_, fun hi => ?_⟩, iff_of_true rfl hend⟩
  · exact run_strrchr_absent hreads hs hch hmem (by omega)
  · rintro ⟨⟩
  · exact absurd (List.mem_of_getElem? hi.1) hend

/-- The zero. -/
theorem not_findsLast_zero (hs : 0#8 ∉ s) (hlen : s.length + 1 < 2 ^ 32) : ¬ FindsLast s 0#8 := by
  rintro ⟨o, hreads, -⟩
  have hend : (s ++ [0#8]).length = s.length + 1 := by simp
  have hpast := byteAt?_single_end (hend ▸ hlen : (s ++ [0#8]).length < 2 ^ 32)
  rw [hend] at hpast
  exact hreads.not_strays (by omega) (strays_strrchr_zero (reads_single (by omega)) hs (by omega) hpast)

/-- **`Strrchr`**: in a text it finds the last occurrence of a character, or that there is none, without reading past the
end, exactly when the character is not the zero. -/
theorem strrchr_finds_last_iff (s : List (BitVec 8)) (ch : BitVec 8) (hs : 0#8 ∉ s) (hlen : s.length + 1 < 2 ^ 32) :
    FindsLast s ch ↔ ch ≠ 0#8 := by
  constructor
  · rintro h rfl
    exact not_findsLast_zero hs hlen h
  · intro hch
    by_cases hmem : ch ∈ s
    · exact findsLast_of_mem hs hch hmem hlen
    · exact findsLast_of_notMem hs hch hmem hlen

/-- The last `a` of `aba`, and its zero. -/
theorem strrchr_finds_last_iff_aba : FindsLast [0x61#8, 0x62#8, 0x61#8] 0x61#8 ∧ ¬ FindsLast [0x61#8, 0x62#8, 0x61#8] 0#8 :=
  ⟨(strrchr_finds_last_iff _ 0x61#8 (by decide) (by decide)).mpr (by decide),
    mt (strrchr_finds_last_iff _ 0#8 (by decide) (by decide)).mp (by decide)⟩

/-- The empty text: `Strrchr` does not return where the zero is, or reads past it. -/
theorem strrchr_of_empty : ¬ FindsLast [] 0#8 ∧ Strays (.single [0#8]) (strrchr ⟨.block 0, 0⟩ 0#8) :=
  ⟨not_findsLast_zero (by decide) (by decide),
    strays_strrchr_zero (reads_single (by decide)) List.not_mem_nil (by decide) (byteAt?_single_end (by decide))⟩

end

end EagleOS.ESTD.CString
