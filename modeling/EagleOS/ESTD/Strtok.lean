import EagleOS.ESTD.CString
import EagleOS.Foundations.Segments

/-!
# `Strtok_r`

A text is cut at delimiters, one token with each call: the delimiter after the token becomes a zero, and `saveptr` is
where the next call goes on.

## The model

`strtok_r` takes what `saveptr` points to, and returns it as it leaves it. Null pointers are what the source tests for:
pointers that point nowhere.

## What is proved

* `run_strchr`, `run_strspn`, `run_strcspn` — the scanning loops.
* `run_strtok_r_none`, `run_strtok_r_token`, `run_strtok_r_cut` — one call.
* `strtok_tokenises` — any number of calls.
-/

namespace EagleOS.ESTD.CString

open Foundations Buffers

/-- The loop of `Strchr`. -/
def strchrLoop (ch : BitVec 8) : ℕ → Pointer → Action Pointer
  | 0, _ => .hang
  | fuel + 1, str => do
    if (← load str) = ch then pure str
    else if (← load str) ≠ 0#8 then strchrLoop ch fuel (str + 1)
    else pure .null

/-- `Strchr`. -/
def strchr (str : Pointer) (ch : BitVec 8) : Action Pointer := strchrLoop ch (2 ^ 32) str

/-- The loop of `Strspn` and `Strcspn`: it goes on where `Strchr` finds the character, or where it does not. -/
def spanLoop (str2 : Pointer) (found : Bool) : ℕ → Pointer → ℕ → Action SizeT
  | 0, _, _ => .hang
  | fuel + 1, str1, len => do
    if (← load str1) ≠ 0#8 then
      if decide ((← strchr str2 (← load str1)).base ≠ .null) = found then spanLoop str2 found fuel (str1 + 1) (len + 1)
      else pure (BitVec.ofNat 32 len)
    else pure (BitVec.ofNat 32 len)

/-- `Strspn`. -/
def strspn (str1 str2 : Pointer) : Action SizeT :=
  if str1.base = .null ∨ str2.base = .null then pure 0#32 else spanLoop str2 true (2 ^ 32) str1 0

/-- `Strcspn`. -/
def strcspn (str1 str2 : Pointer) : Action SizeT :=
  if str1.base = .null ∨ str2.base = .null then pure 0#32 else spanLoop str2 false (2 ^ 32) str1 0

/-- `Strtok_r`: the token, and `*saveptr`. -/
def strtok_r (str delim saveptr : Pointer) : Action (Pointer × Pointer) := do
  let str := if str.base = .null then saveptr else str
  if (← load str) = 0#8 then return (.null, str)
  let str := str + (← strspn str delim).toNat
  if (← load str) = 0#8 then return (.null, str)
  let last := str + (← strcspn str delim).toNat
  if (← load last) = 0#8 then return (str, last)
  store last 0#8
  return (str, last + 1)

/-- `n` calls of `Strtok_r`, the first with `str` and the others with a null pointer. -/
def strtokCalls (delim : Pointer) : ℕ → Pointer → Pointer → Action (List Pointer)
  | 0, _, _ => pure []
  | n + 1, str, saveptr => do
    let r ← strtok_r str delim saveptr
    return r.1 :: (← strtokCalls delim n .null r.2)

/-! ### The scanning loops -/

section

variable {w : Buffers} {p q : Pointer} {ch y : BitVec 8} {d xs : List (BitVec 8)}

/-- The loop of `Strchr` goes past bytes that are neither the character nor zero. -/
theorem run_strchrLoop_skip {fuel : ℕ} (hreads : w.Reads q xs) (hxs : ∀ x ∈ xs, x ≠ ch ∧ x ≠ 0#8) :
    (strchrLoop ch (fuel + xs.length) q).run w = (strchrLoop ch fuel (q + xs.length)).run w := by
  induction xs generalizing q with
  | nil => rfl
  | cons x xs ih =>
    obtain ⟨hx, hrest⟩ := reads_cons.mp hreads
    rw [List.forall_mem_cons] at hxs
    have hload := run_load hx
    have hnext := ih hrest hxs.2
    rw [Pointer.add_add, Nat.add_comm 1] at hnext
    rw [List.length_cons, ← Nat.add_assoc, strchrLoop, Action.run_bind, hload, Option.bind_eq_bind, Option.bind_some,
      if_neg hxs.1.1, Action.run_bind, hload, Option.bind_eq_bind, Option.bind_some, if_pos hxs.1.2, hnext]

/-- `Strchr` stops at the first byte that is the character. -/
theorem run_strchr_found (hreads : w.Reads q (xs ++ [ch])) (hxs : ∀ x ∈ xs, x ≠ ch ∧ x ≠ 0#8) (hlen : xs.length < 2 ^ 32) :
    (strchr q ch).run w = some (q + xs.length, w) := by
  obtain ⟨hskip, hlast⟩ := reads_append.mp hreads
  obtain ⟨k, hk⟩ : ∃ k, 2 ^ 32 = k + 1 + xs.length := ⟨2 ^ 32 - 1 - xs.length, by omega⟩
  have hload := run_load (reads_cons.mp hlast).1
  rw [strchr, hk, run_strchrLoop_skip hskip hxs, strchrLoop, Action.run_bind, hload, Option.bind_eq_bind, Option.bind_some,
    if_pos rfl]
  rfl

/-- `Strchr` finds nothing before the zero that ends a text. -/
theorem run_strchr_absent (hreads : w.Reads q (xs ++ [0#8])) (hxs : ∀ x ∈ xs, x ≠ ch ∧ x ≠ 0#8) (hch : ch ≠ 0#8)
    (hlen : xs.length < 2 ^ 32) : (strchr q ch).run w = some (.null, w) := by
  obtain ⟨hskip, hlast⟩ := reads_append.mp hreads
  obtain ⟨k, hk⟩ : ∃ k, 2 ^ 32 = k + 1 + xs.length := ⟨2 ^ 32 - 1 - xs.length, by omega⟩
  have hload := run_load (reads_cons.mp hlast).1
  rw [strchr, hk, run_strchrLoop_skip hskip hxs, strchrLoop, Action.run_bind, hload, Option.bind_eq_bind, Option.bind_some,
    if_neg (Ne.symm hch), Action.run_bind, hload, Option.bind_eq_bind, Option.bind_some, if_neg (not_not.mpr rfl)]
  rfl

/-- A part of a text that the character is not in. -/
theorem ne_of_notMem (hch : ch ∉ xs) (h0 : 0#8 ∉ xs) : ∀ x ∈ xs, x ≠ ch ∧ x ≠ 0#8 :=
  fun _ hx => ⟨fun h => hch (h ▸ hx), fun h => h0 (h ▸ hx)⟩

/-- `Strchr` of a character tells whether it is in a text. -/
theorem run_strchr (h : w.IsText q d) (hch : ch ≠ 0#8) :
    ∃ r, (strchr q ch).run w = some (r, w) ∧ (r.base ≠ .null ↔ ch ∈ d) := by
  have hfits := h.fits
  by_cases hmem : ch ∈ d
  · obtain ⟨xs, ys, rfl, hxs⟩ := List.eq_append_cons_of_mem hmem
    have hreads := h.reads
    rw [List.append_assoc, List.cons_append, List.append_cons] at hreads
    rw [List.length_append] at hfits
    have h0 : 0#8 ∉ xs := fun h0 => h.nonzero (List.mem_append_left _ h0)
    exact ⟨q + xs.length, run_strchr_found (reads_append.mp hreads).1 (ne_of_notMem hxs h0) (by omega),
      iff_of_true (by simpa using h.base_ne_null) hmem⟩
  · exact ⟨.null, run_strchr_absent h.reads (ne_of_notMem hmem h.nonzero) hch (by omega), iff_of_false (not_not.mpr rfl) hmem⟩

/-- One round of the loop of `Strspn` and `Strcspn`. -/
theorem run_spanLoop_succ {found : Bool} {fuel len : ℕ} (hd : w.IsText q d) (hload : w.byteAt? p = some y) (hy : y ≠ 0#8) :
    (spanLoop q found (fuel + 1) p len).run w =
      if decide (y ∈ d) = found then (spanLoop q found fuel (p + 1) (len + 1)).run w else some (BitVec.ofNat 32 len, w) := by
  obtain ⟨r, hrun, hr⟩ := run_strchr hd hy
  have hfound : decide (r.base ≠ .null) = decide (y ∈ d) := decide_eq_decide.mpr hr
  rw [spanLoop, Action.run_bind, run_load hload, Option.bind_eq_bind, Option.bind_some, if_pos hy, Action.run_bind,
    run_load hload, Option.bind_eq_bind, Option.bind_some, Action.run_bind, hrun, Option.bind_eq_bind, Option.bind_some,
    hfound]
  split <;> rfl

/-- The loop ends at a zero. -/
theorem run_spanLoop_zero {found : Bool} {fuel len : ℕ} (hload : w.byteAt? p = some 0#8) :
    (spanLoop q found (fuel + 1) p len).run w = some (BitVec.ofNat 32 len, w) := by
  rw [spanLoop, Action.run_bind, run_load hload, Option.bind_eq_bind, Option.bind_some, if_neg (not_not.mpr rfl)]
  rfl

/-- The loop counts characters that are in the text `d`, or not in it, up to the first one that is otherwise. -/
theorem run_spanLoop {found : Bool} {fuel len : ℕ} (hd : w.IsText q d) (hreads : w.Reads p xs)
    (hxs : ∀ x ∈ xs, x ≠ 0#8 ∧ decide (x ∈ d) = found) (hend : w.byteAt? (p + xs.length) = some y)
    (hy : y ≠ 0#8 → decide (y ∈ d) ≠ found) (hfuel : xs.length < fuel) :
    (spanLoop q found fuel p len).run w = some (BitVec.ofNat 32 (len + xs.length), w) := by
  induction xs generalizing fuel p len with
  | nil =>
    obtain ⟨fuel, rfl⟩ : ∃ n, fuel = n + 1 := Nat.exists_eq_succ_of_ne_zero (Nat.ne_of_gt hfuel)
    rw [List.length_nil, Pointer.add_zero] at hend
    by_cases hzero : y = 0#8
    · rw [run_spanLoop_zero (hzero ▸ hend)]
      rfl
    · rw [run_spanLoop_succ hd hend hzero, if_neg (hy hzero)]
      rfl
  | cons x xs ih =>
    obtain ⟨fuel, rfl⟩ : ∃ n, fuel = n + 1 := Nat.exists_eq_succ_of_ne_zero (by omega)
    obtain ⟨hx, hrest⟩ := reads_cons.mp hreads
    rw [List.forall_mem_cons] at hxs
    have hnext := @ih (p + 1) fuel (len + 1) hrest hxs.2 (by rwa [Pointer.add_add, Nat.add_comm 1]) (Nat.lt_of_succ_lt_succ hfuel)
    rw [Nat.add_right_comm, Nat.add_assoc] at hnext
    rw [run_spanLoop_succ hd hx hxs.1.1, if_pos hxs.1.2, hnext]
    rfl

/-- The pointers that are scanned are not null. -/
theorem not_null (hd : w.IsText q d) (hend : w.byteAt? (p + xs.length) = some y) : ¬ (p.base = .null ∨ q.base = .null) := by
  have hp : p.base ≠ .null := by simpa using base_ne_null hend
  exact not_or.mpr ⟨hp, hd.base_ne_null⟩

/-- `Strspn`. -/
theorem run_strspn (hd : w.IsText q d) (hreads : w.Reads p xs) (hxs : ∀ x ∈ xs, x ≠ 0#8 ∧ x ∈ d)
    (hend : w.byteAt? (p + xs.length) = some y) (hy : y ≠ 0#8 → y ∉ d) (hlen : xs.length < 2 ^ 32) :
    (strspn p q).run w = some (BitVec.ofNat 32 xs.length, w) := by
  have hrun := @run_spanLoop _ _ _ _ _ _ true (2 ^ 32) 0 hd hreads (by simpa using hxs) hend (by simpa using hy) hlen
  rw [Nat.zero_add] at hrun
  rw [strspn, if_neg (not_null hd hend), hrun]

/-- `Strcspn`. -/
theorem run_strcspn (hd : w.IsText q d) (hreads : w.Reads p xs) (hxs : ∀ x ∈ xs, x ≠ 0#8 ∧ x ∉ d)
    (hend : w.byteAt? (p + xs.length) = some y) (hy : y ≠ 0#8 → y ∈ d) (hlen : xs.length < 2 ^ 32) :
    (strcspn p q).run w = some (BitVec.ofNat 32 xs.length, w) := by
  have hrun := @run_spanLoop _ _ _ _ _ _ false (2 ^ 32) 0 hd hreads (by simpa using hxs) hend (by simpa using hy) hlen
  rw [Nat.zero_add] at hrun
  rw [strcspn, if_neg (not_null hd hend), hrun]

/-! ### One call -/

theorem toNat_length {xs : List (BitVec 8)} (h : xs.length < 2 ^ 32) : (BitVec.ofNat 32 xs.length).toNat = xs.length := by
  rw [BitVec.toNat_ofNat, Nat.mod_eq_of_lt h]

variable {str save : Pointer} {lead token rest : List (BitVec 8)} {t : BitVec 8}

/-- Where no character is left but delimiters, there is no token, and the text is done with. -/
theorem run_strtok_r_none (hstr : (if str.base = .null then save else str) = p) (hd : w.IsText q d)
    (htext : w.IsText p lead) (hlead : ∀ x ∈ lead, x ∈ d) :
    (strtok_r str q save).run w = some ((.null, p + lead.length), w) := by
  have hfits := htext.fits
  obtain ⟨hreads, hzero⟩ := reads_append.mp htext.reads
  have hlast := (reads_cons.mp hzero).1
  rw [strtok_r, hstr]
  cases hcases : lead with
  | nil =>
    rw [hcases, List.length_nil, Pointer.add_zero] at hlast
    rw [Action.run_bind, run_load hlast, Option.bind_eq_bind, Option.bind_some, if_pos rfl]
    rfl
  | cons x xs =>
    rw [hcases] at hreads
    have hx := (reads_cons.mp hreads).1
    have hnonzero : ∀ y ∈ lead, y ≠ 0#8 ∧ y ∈ d := fun y hy => ⟨fun h => htext.nonzero (h ▸ hy), hlead y hy⟩
    have hne : x ≠ 0#8 := (hnonzero x (by simp [hcases])).1
    have hspan := run_strspn hd (hcases ▸ hreads) hnonzero hlast (fun h => absurd rfl h) (by omega)
    rw [Action.run_bind, run_load hx, Option.bind_eq_bind, Option.bind_some, if_neg hne, Action.run_bind, hspan,
      Option.bind_eq_bind, Option.bind_some, toNat_length (by omega), Action.run_bind, run_load hlast, Option.bind_eq_bind,
      Option.bind_some, if_pos rfl, hcases]
    rfl

/-- A token: how the call goes on depends on the character after it. -/
theorem run_strtok_r_token (hstr : (if str.base = .null then save else str) = p) (hd : w.IsText q d)
    (htext : w.IsText p (lead ++ (token ++ rest))) (hlead : ∀ x ∈ lead, x ∈ d) (htoken : ∀ x ∈ token, x ∉ d)
    (hne : token ≠ []) (hlast : w.byteAt? (p + (lead.length + token.length)) = some y) (hy : y ≠ 0#8 → y ∈ d) :
    (strtok_r str q save).run w = if y = 0#8 then some ((p + lead.length, p + (lead.length + token.length)), w) else
      ((do store (p + (lead.length + token.length)) 0#8
           return (p + lead.length, p + (lead.length + token.length + 1)) : Action (Pointer × Pointer)).run w) := by
  have hfits := htext.fits
  rw [List.length_append, List.length_append] at hfits
  have hnonzero : ∀ x ∈ lead ++ (token ++ rest), x ≠ 0#8 := fun x hx h => htext.nonzero (h ▸ hx)
  have hreads := (reads_append.mp htext.reads).1
  obtain ⟨hleadReads, hrest⟩ := reads_append.mp hreads
  have htokenReads := (reads_append.mp hrest).1
  obtain ⟨t, ts, hcases⟩ := List.exists_cons_of_ne_nil hne
  have ht : w.byteAt? (p + lead.length) = some t := (reads_cons.mp (hcases ▸ htokenReads)).1
  have htne : t ≠ 0#8 := hnonzero t (by simp [hcases])
  obtain ⟨x, xs, hx⟩ := List.exists_cons_of_ne_nil (show lead ++ (token ++ rest) ≠ [] by simp [hcases])
  have hfirst : w.byteAt? p = some x := (reads_cons.mp (hx ▸ hreads)).1
  have hxne : x ≠ 0#8 := hnonzero x (by simp [hx])
  have hspan := run_strspn hd hleadReads (fun x hx => ⟨hnonzero x (by simp [hx]), hlead x hx⟩) ht
    (fun _ => htoken t (by simp [hcases])) (by omega)
  have hcspan := run_strcspn hd htokenReads (fun x hx => ⟨hnonzero x (by simp [hx]), htoken x hx⟩)
    (by rwa [Pointer.add_add]) hy (by omega)
  rw [strtok_r, hstr, Action.run_bind, run_load hfirst, Option.bind_eq_bind, Option.bind_some, if_neg hxne, Action.run_bind,
    hspan, Option.bind_eq_bind, Option.bind_some, toNat_length (by omega), Action.run_bind, run_load ht, Option.bind_eq_bind,
    Option.bind_some, if_neg htne, Action.run_bind, hcspan, Option.bind_eq_bind, Option.bind_some, toNat_length (by omega),
    Pointer.add_add, Action.run_bind, run_load hlast, Option.bind_eq_bind, Option.bind_some, Pointer.add_add]
  split <;> rfl

/-! ### Many calls -/

/-- A text with a zero after each of these tokens, where there is a character. -/
def cut (tokens : List (ℕ × ℕ)) (s : List (BitVec 8)) : List (BitVec 8) :=
  tokens.foldl (fun s t => s.set (t.1 + t.2) 0#8) s

@[simp] theorem cut_nil (s : List (BitVec 8)) : cut [] s = s := rfl

@[simp] theorem cut_cons (t : ℕ × ℕ) (tokens : List (ℕ × ℕ)) (s : List (BitVec 8)) :
    cut (t :: tokens) s = cut tokens (s.set (t.1 + t.2) 0#8) := rfl

theorem length_cut (tokens : List (ℕ × ℕ)) : ∀ s : List (BitVec 8), (cut tokens s).length = s.length := by
  induction tokens with
  | nil => exact fun s => rfl
  | cons t tokens ih => exact fun s => (ih _).trans List.length_set

/-- The characters that are not after a token stay what they are. -/
theorem getElem?_cut_of_ne {tokens : List (ℕ × ℕ)} {s : List (BitVec 8)} {k : ℕ} (h : ∀ t ∈ tokens, t.1 + t.2 ≠ k) :
    (cut tokens s)[k]? = s[k]? := by
  induction tokens generalizing s with
  | nil => rfl
  | cons t tokens ih =>
    rw [List.forall_mem_cons] at h
    exact (ih h.2).trans (List.getElem?_set_ne h.1)

/-- The others are zeros. -/
theorem getElem?_cut_of_mem {tokens : List (ℕ × ℕ)} {s : List (BitVec 8)} {t : ℕ × ℕ} (h : t ∈ tokens)
    (hlt : t.1 + t.2 < s.length) :
    (cut tokens s)[t.1 + t.2]? = some 0#8 := by
  induction tokens generalizing s t with
  | nil => cases h
  | cons u tokens ih =>
    by_cases hu : ∃ v ∈ tokens, v.1 + v.2 = t.1 + t.2
    · obtain ⟨v, hv, heq⟩ := hu
      have hlt' : v.1 + v.2 < (s.set (u.1 + u.2) 0#8).length := by rw [List.length_set, heq]; exact hlt
      have hzero := ih hv hlt'
      rwa [heq] at hzero
    · have hother : ∀ v ∈ tokens, v.1 + v.2 ≠ t.1 + t.2 := fun v hv heq => hu ⟨v, hv, heq⟩
      obtain rfl := (List.mem_cons.mp h).resolve_right fun hmem => hother t hmem rfl
      exact (getElem?_cut_of_ne hother).trans (List.getElem?_set_self hlt)

/-- `delim` points to the text `d`, and none of its bytes is a character between these places of a block. -/
structure Delimiters (w : Buffers) (id lo hi : ℕ) (delim : Pointer) (d : List (BitVec 8)) : Prop where
  /-- The text. -/
  text : w.IsText delim d
  /-- Its bytes are elsewhere. -/
  apart : delim.base = .block id → ∀ i ≤ d.length, ¬ (lo ≤ (delim.offset + i) % 2 ^ 32 ∧ (delim.offset + i) % 2 ^ 32 < hi)

/-- The delimiters stay what they are when a character of the text is written. -/
theorem Delimiters.put {id lo hi : ℕ} {bs bs' : List (BitVec 8)} (h : Delimiters w id lo hi q d) (hid : w.Has id bs)
    (hsame : ∀ k, ¬ (lo ≤ k ∧ k < hi) → bs'[k]? = bs[k]?) : Delimiters (w.put id bs') id lo hi q d := by
  refine ⟨⟨fun i hi' => ?_, h.text.nonzero, h.text.fits⟩, h.apart⟩
  have hlen : i ≤ d.length := by simpa using Nat.le_of_lt_succ (by simpa using hi')
  rw [← h.text.reads i hi']
  exact byteAt?_put_of_same hid fun hbase => hsame _ (h.apart hbase i hlen)

/-- What is around a part of a list does not depend on it. -/
theorem getElem?_around {pre ys ys' post : List (BitVec 8)} {k : ℕ} (hlen : ys'.length = ys.length)
    (hk : ¬ (pre.length ≤ k ∧ k < pre.length + ys.length)) : (pre ++ ys' ++ post)[k]? = (pre ++ ys ++ post)[k]? := by
  rcases Nat.lt_or_ge k pre.length with hlt | hge
  · rw [List.append_assoc, List.append_assoc, List.getElem?_append_left hlt, List.getElem?_append_left hlt]
  · rw [List.getElem?_append_right (by rw [List.length_append]; omega),
      List.getElem?_append_right (by rw [List.length_append]; omega), List.length_append, List.length_append, hlen]

/-- What is left of a text is a text. -/
theorem isText_rest {id : ℕ} {pre done post : List (BitVec 8)} (hid : w.Has id (pre ++ (done ++ rest) ++ 0#8 :: post))
    (hrest : 0#8 ∉ rest) (hroom : pre.length + (done ++ rest).length + 1 < 2 ^ 32) :
    w.IsText ((⟨.block id, pre.length⟩ : Pointer) + done.length) rest := by
  rw [List.length_append] at hroom
  have hsplit : w.Has id ((pre ++ done) ++ (rest ++ [0#8]) ++ post) := by simpa using hid
  have hreads := hsplit.reads_range (by simp; omega)
  rw [List.length_append] at hreads
  exact ⟨hreads, hrest, by omega⟩

/-- What `n` calls return: pointers to these tokens of the text at `p`, and then null pointers. -/
def answers (p : Pointer) (tokens : List (ℕ × ℕ)) (n : ℕ) : List Pointer :=
  (tokens.map (fun t => p + t.1) ++ List.replicate n Pointer.null).take n

@[simp] theorem answers_zero (p : Pointer) (tokens : List (ℕ × ℕ)) : answers p tokens 0 = [] := rfl

@[simp] theorem answers_nil (p : Pointer) (n : ℕ) : answers p [] n = List.replicate n .null := by simp [answers]

@[simp] theorem answers_cons (p : Pointer) (t : ℕ × ℕ) (tokens : List (ℕ × ℕ)) (n : ℕ) :
    answers p (t :: tokens) (n + 1) = (p + t.1) :: answers p tokens n := by
  simp [answers, List.take_append, List.take_replicate]
  omega

theorem run_strtokCalls_succ {n : ℕ} {w' w'' : Buffers} {r save' : Pointer} {rs : List Pointer}
    (hcall : (strtok_r str q save).run w = some ((r, save'), w'))
    (hnext : (strtokCalls q n .null save').run w' = some (rs, w'')) :
    (strtokCalls q (n + 1) str save).run w = some (r :: rs, w'') := by
  rw [strtokCalls, Action.run_bind, hcall, Option.bind_eq_bind, Option.bind_some, Action.run_bind, hnext]
  rfl

/-- The character after a token becomes a zero. -/
theorem set_delimiter (done lead token after : List (BitVec 8)) (c : BitVec 8) :
    (done ++ (lead ++ (token ++ c :: after))).set (done.length + lead.length + token.length) 0#8 =
      done ++ (lead ++ (token ++ [0#8])) ++ after := by
  have hlen : done.length + lead.length + token.length = (done ++ (lead ++ token)).length := by
    simp only [List.length_append]
    omega
  have happend : done ++ (lead ++ (token ++ c :: after)) = (done ++ (lead ++ token)) ++ c :: after := by simp
  rw [happend, hlen, List.set_append_right _ _ (Nat.le_refl _), Nat.sub_self, List.set_cons_zero]
  simp

/-- A token in a block, and a delimiter after it. -/
theorem run_strtok_r_cut {id : ℕ} {pre post done after : List (BitVec 8)} {c : BitVec 8}
    (hid : w.Has id (pre ++ (done ++ (lead ++ (token ++ c :: after))) ++ post))
    (hroom : pre.length + (done ++ (lead ++ (token ++ c :: after))).length + 1 < 2 ^ 32) (hd : w.IsText q d)
    (htext : w.IsText ((⟨.block id, pre.length⟩ : Pointer) + done.length) (lead ++ (token ++ c :: after)))
    (hstr : (if str.base = .null then save else str) = (⟨.block id, pre.length⟩ : Pointer) + done.length)
    (hlead : ∀ x ∈ lead, x ∈ d) (htoken : ∀ x ∈ token, x ∉ d) (hne : token ≠ []) (hc : c ∈ d) :
    (strtok_r str q save).run w = some (((⟨.block id, pre.length⟩ : Pointer) + (done.length + lead.length),
        (⟨.block id, pre.length⟩ : Pointer) + (done.length + (lead.length + token.length + 1))),
      w.put id (pre ++ (done ++ (lead ++ (token ++ [0#8])) ++ after) ++ post)) := by
  have hc0 : c ≠ 0#8 := fun h => htext.nonzero (by simp [h])
  have hlast : w.byteAt? ((⟨.block id, pre.length⟩ : Pointer) + done.length + (lead.length + token.length)) = some c := by
    have hreads := (reads_append.mp (reads_append.mp (reads_append.mp htext.reads).1).2).2
    have hbyte := (reads_cons.mp hreads).1
    rwa [Pointer.add_add] at hbyte
  have hsplit : w.Has id ((pre ++ (done ++ (lead ++ token))) ++ c :: (after ++ post)) := by simpa using hid
  have hstore := run_store hsplit (p := (⟨.block id, pre.length⟩ : Pointer) + done.length + (lead.length + token.length))
    (by simp only [List.length_append, List.length_cons] at hroom ⊢; omega) rfl
    (by simp only [Pointer.offset_add, List.length_append]; omega) 0#8
  have hblock : (pre ++ (done ++ (lead ++ token))) ++ 0#8 :: (after ++ post) =
      pre ++ (done ++ (lead ++ (token ++ [0#8])) ++ after) ++ post := by simp
  rw [hblock] at hstore
  rw [run_strtok_r_token hstr hd htext hlead htoken hne hlast fun _ => hc, if_neg hc0, Action.run_bind, hstore,
    Option.bind_eq_bind, Option.bind_some, Pointer.add_add, Pointer.add_add]
  rfl

/-- A call with a null pointer goes on from what `saveptr` points to. -/
theorem resume (p : Pointer) : (if Pointer.null.base = .null then p else .null) = p := rfl

/-- Any number of calls, from a place in a text on: they return the tokens that are left, and then null pointers. -/
theorem run_strtokCalls {id : ℕ} {pre post : List (BitVec 8)} (n : ℕ) : ∀ {w : Buffers} {done rest : List (BitVec 8)}
    {str save : Pointer}, w.Has id (pre ++ (done ++ rest) ++ 0#8 :: post) → 0#8 ∉ rest →
    pre.length + (done ++ rest).length + 1 < 2 ^ 32 →
    Delimiters w id pre.length (pre.length + (done ++ rest).length) q d →
    (if str.base = .null then save else str) = (⟨.block id, pre.length⟩ : Pointer) + done.length →
    (strtokCalls q n str save).run w = some
      (answers ⟨.block id, pre.length⟩ (segments (· ∉ d) done.length none rest) n,
        w.put id (pre ++ cut ((segments (· ∉ d) done.length none rest).take n) (done ++ rest) ++ 0#8 :: post)) := by
  induction n with
  | zero =>
    intro w done rest str save hid _ _ _ _
    rw [answers_zero, List.take_zero, cut_nil, hid.put_self]
    rfl
  | succ n ih =>
    intro w done rest str save hid hrest hroom hd hstr
    have htext := isText_rest hid hrest hroom
    obtain ⟨lead, tail, rfl, hlead, htail⟩ := exists_span (· ∈ d) rest
    have hlead' : ∀ x ∈ lead, ¬ x ∉ d := fun x hx => not_not.mpr (hlead x hx)
    by_cases hnone : tail = []
    · -- there is no token left
      subst hnone
      rw [List.append_nil] at hid hrest hroom hd htext ⊢
      have hcall := run_strtok_r_none hstr hd.text htext hlead
      have hsegments : segments (· ∉ d) done.length none lead = [] := by
        have happend : segments (· ∉ d) done.length none (lead ++ []) = _ := segments_append_of_none hlead'
        rwa [List.append_nil] at happend
      have hnext := @ih w (done ++ lead) [] .null ((⟨.block id, pre.length⟩ : Pointer) + done.length + lead.length)
        (by rwa [List.append_nil]) List.not_mem_nil (by rwa [List.append_nil]) (by rwa [List.append_nil])
        (by rw [resume, Pointer.add_add, List.length_append])
      rw [List.append_nil] at hnext
      refine (run_strtokCalls_succ hcall hnext).trans ?_
      rw [hsegments, answers_nil, segments, answers_nil, List.take_nil, List.take_nil, List.replicate_succ]
    · obtain ⟨token, after, rfl, htoken, hafter⟩ := exists_span (· ∉ d) tail
      have hne : token ≠ [] := by
        rintro rfl
        obtain ⟨t, ts, rfl⟩ := List.exists_cons_of_ne_nil hnone
        exact hafter t rfl (htail t rfl)
      have hlength : done.length + lead.length + token.length - (done.length + lead.length) = token.length := by omega
      have hsegments : segments (· ∉ d) done.length none (lead ++ (token ++ after)) = _ :=
        segments_append_append hlead' htoken hne
      cases after with
      | nil =>
        -- the text ends after the token
        have hlast : w.byteAt? ((⟨.block id, pre.length⟩ : Pointer) + done.length + (lead.length + token.length)) = some 0#8 := by
          have hzero := (reads_cons.mp (reads_append.mp htext.reads).2).1
          rwa [List.append_nil, List.length_append] at hzero
        have hcall := run_strtok_r_token hstr hd.text htext hlead htoken hne hlast fun h => absurd rfl h
        rw [if_pos rfl, Pointer.add_add] at hcall
        rw [List.append_nil] at hid hrest hroom hd
        have hnext := @ih w (done ++ (lead ++ token)) [] .null
          ((⟨.block id, pre.length⟩ : Pointer) + done.length + (lead.length + token.length))
          (by rwa [List.append_nil]) List.not_mem_nil (by rwa [List.append_nil]) (by rwa [List.append_nil])
          (by rw [resume, Pointer.add_add, List.length_append, List.length_append])
        rw [List.append_nil] at hnext
        have hset : (done ++ (lead ++ token)).set (done.length + lead.length + token.length) 0#8 = done ++ (lead ++ token) := by
          rw [List.set_eq_of_length_le]
          simp only [List.length_append]
          omega
        refine (run_strtokCalls_succ hcall hnext).trans ?_
        rw [hsegments, segments, segments, hlength, answers_cons, List.take_succ_cons, cut_cons, List.append_nil, hset]
      | cons c after =>
        have hc : c ∈ d := not_not.mp (hafter c rfl)
        have hcall := run_strtok_r_cut hid hroom hd.text htext hstr hlead htoken hne hc
        have hlen : (done ++ (lead ++ (token ++ [0#8])) ++ after).length = (done ++ (lead ++ (token ++ c :: after))).length := by
          simp only [List.length_append, List.length_cons, List.length_nil]
          omega
        have hd₁ := hd.put hid fun k hk => @getElem?_around pre _ _ (0#8 :: post) k hlen hk
        rw [← hlen] at hroom hd₁
        have hafter0 : 0#8 ∉ after := fun h => hrest (by simp [h])
        have hnext := @ih _ (done ++ (lead ++ (token ++ [0#8]))) after .null
          ((⟨.block id, pre.length⟩ : Pointer) + (done.length + (lead.length + token.length + 1))) (hid.put _) hafter0 hroom hd₁
          (by rw [resume]; simp only [List.length_append, List.length_cons, List.length_nil]; congr 1)
        rw [put_put] at hnext
        refine (run_strtokCalls_succ hcall hnext).trans ?_
        have hcount : (done ++ (lead ++ (token ++ [0#8]))).length = done.length + lead.length + token.length + 1 := by
          simp only [List.length_append, List.length_cons, List.length_nil]
          omega
        rw [hsegments, segments, if_neg (not_not.mpr hc), hlength, answers_cons, List.take_succ_cons, cut_cons, set_delimiter,
          hcount]

/-- In the text with zeros after tokens, each of these tokens is there, and a zero after it. -/
theorem getElem?_token {s : List (BitVec 8)} {tokens : List (ℕ × ℕ)} {a n i : ℕ}
    (htokens : ∀ t ∈ tokens, IsSegment (· ∉ d) s t.1 t.2)
    (hmem : (a, n) ∈ tokens) (hi : i ≤ n) (post : List (BitVec 8)) :
    (cut tokens s ++ 0#8 :: post)[a + i]? = ((s.drop a).take n ++ [0#8])[i]? := by
  have hseg := htokens _ hmem
  have hlen := hseg.le_length
  have htoken : ((s.drop a).take n).length = n := by
    rw [List.length_take, List.length_drop]
    omega
  rcases Nat.lt_or_eq_of_le hi with hlt | heq
  · -- no token ends inside another one
    have hother : ∀ t ∈ tokens, t.1 + t.2 ≠ a + i := by
      intro t ht heq
      obtain ⟨x, hx, hp⟩ := hseg.inside (a + i) (by omega) (by omega)
      exact (htokens t ht).right x (by rw [heq]; exact hx) hp
    rw [List.getElem?_append_left (by rw [length_cut]; omega), getElem?_cut_of_ne hother, List.getElem?_append_left (by omega),
      List.getElem?_take_of_lt hlt, List.getElem?_drop]
  · have hzero : ((s.drop a).take n ++ [0#8])[n]? = some 0#8 := by
      rw [List.getElem?_append_right (Nat.le_of_eq htoken), htoken, Nat.sub_self, List.getElem?_cons_zero]
    rw [heq, hzero]
    rcases Nat.lt_or_eq_of_le hlen with hlt | hend
    · rw [List.getElem?_append_left (by rw [length_cut]; exact hlt)]
      exact getElem?_cut_of_mem hmem hlt
    · rw [hend, List.getElem?_append_right (Nat.le_of_eq (length_cut tokens s)), length_cut, Nat.sub_self, List.getElem?_cons_zero]

/-- `Strtok_r` tokenises exactly: any number of calls return pointers to the maximal runs of characters that are not
delimiters, from left to right, and then null pointers. They change the one character after each token that has been
returned, where there is one, and leave each of these tokens as a text. What follows the text is arbitrary, and may be
the end of the block: nothing there is read. -/
theorem strtok_tokenises (w : Buffers) (id : ℕ) (pre s post d : List (BitVec 8)) (delim save : Pointer)
    (hid : w.Has id (pre ++ s ++ 0#8 :: post)) (hs : 0#8 ∉ s) (hroom : pre.length + s.length + 1 < 2 ^ 32)
    (hd : Delimiters w id pre.length (pre.length + s.length) delim d) :
    ∃ tokens : List (ℕ × ℕ), (∀ a n, (a, n) ∈ tokens ↔ IsSegment (· ∉ d) s a n) ∧
      tokens.Pairwise (fun t u => t.1 + t.2 < u.1) ∧
      ∀ n, ∃ w', (strtokCalls delim n ⟨.block id, pre.length⟩ save).run w =
          some (answers ⟨.block id, pre.length⟩ tokens n, w') ∧
        w' = w.put id (pre ++ cut (tokens.take n) s ++ 0#8 :: post) ∧
        ∀ t ∈ tokens.take n, w'.IsText ((⟨.block id, pre.length⟩ : Pointer) + t.1) ((s.drop t.1).take t.2) := by
  refine ⟨segments (· ∉ d) 0 none s, fun a n => mem_segments, segments_ordered none (fun a ha => by cases ha), fun n => ?_⟩
  have hrun := @run_strtokCalls _ _ id pre post n w [] s ⟨.block id, pre.length⟩ save hid hs hroom hd rfl
  refine ⟨_, hrun, rfl, fun t ht => ?_⟩
  have htokens : ∀ t ∈ (segments (· ∉ d) 0 none s).take n, IsSegment (· ∉ d) s t.1 t.2 :=
    fun t ht => mem_segments.mp (List.mem_of_mem_take ht)
  have hseg := htokens t ht
  have hlen := hseg.le_length
  have htoken : ((s.drop t.1).take t.2).length = t.2 := by
    rw [List.length_take, List.length_drop]
    omega
  refine ⟨fun i hi => ?_, fun hmem => hs (List.mem_of_mem_drop (List.mem_of_mem_take hmem)), by rw [htoken]; omega⟩
  rw [List.length_append, htoken, List.length_singleton] at hi
  rw [(hid.put _).byteAt? rfl (by simp only [Pointer.offset_add]; omega), List.append_assoc]
  simp only [Pointer.offset_add, List.nil_append]
  rw [Nat.add_assoc, List.getElem?_append_right (Nat.le_add_right _ _), Nat.add_sub_cancel_left]
  exact getElem?_token htokens ht (Nat.le_of_lt_succ hi) post

/-- A block with the text ` a,b`. -/
def twoTokens : Buffers := ⟨[[0x20#8, 0x61#8, 0x2C#8, 0x62#8, 0#8]], [], 0, fun _ => 0#8, fun _ _ => 0#8⟩

/-- Blanks and commas delimit its tokens. -/
theorem twoTokens_delimiters : Delimiters twoTokens 0 0 4 ⟨.text [0x20#8, 0x2C#8], 0⟩ [0x20#8, 0x2C#8] :=
  ⟨isText_text (by decide) (by decide), by decide⟩

theorem strtok_tokenises_twoTokens : ∃ tokens : List (ℕ × ℕ), (1, 1) ∈ tokens ∧ (3, 1) ∈ tokens ∧
    tokens.Pairwise (fun t u => t.1 + t.2 < u.1) ∧
    ∀ n, ∃ w', (strtokCalls ⟨.text [0x20#8, 0x2C#8], 0⟩ n ⟨.block 0, 0⟩ .null).run twoTokens =
        some (answers ⟨.block 0, 0⟩ tokens n, w') := by
  obtain ⟨tokens, hmem, hordered, hcalls⟩ := strtok_tokenises twoTokens 0 [] [0x20#8, 0x61#8, 0x2C#8, 0x62#8] []
    [0x20#8, 0x2C#8] ⟨.text [0x20#8, 0x2C#8], 0⟩ .null ⟨by decide, rfl⟩ (by decide) (by decide) twoTokens_delimiters
  refine ⟨tokens, (hmem 1 1).mpr ⟨by decide, fun k hle hlt => ?_, fun k x hk hx => ?_, by decide⟩,
    (hmem 3 1).mpr ⟨by decide, fun k hle hlt => ?_, fun k x hk hx => ?_, by decide⟩, hordered, fun n => ?_⟩
  · obtain rfl : k = 1 := by omega
    exact ⟨0x61#8, rfl, by decide⟩
  · obtain rfl : k = 0 := by omega
    cases hx
    decide
  · obtain rfl : k = 3 := by omega
    exact ⟨0x62#8, rfl, by decide⟩
  · obtain rfl : k = 2 := by omega
    cases hx
    decide
  · obtain ⟨w', hrun, -⟩ := hcalls n
    exact ⟨w', hrun⟩

end

end EagleOS.ESTD.CString
