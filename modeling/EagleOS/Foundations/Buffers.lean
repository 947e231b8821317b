import Mathlib.Algebra.Group.Nat.Defs
import Mathlib.Data.List.Basic
import EagleOS.Foundations.Actions

/-!
# A memory of fresh blocks

Blocks are handed out one after the other, so that a new block is apart from all that have been handed out before, whether they
have been deleted or not. When no bytes are asked for, no block is handed out.

## The model

`Buffers` counts the accesses that are outside of what their pointer points into, and those to deleted blocks:
what such a load finds is arbitrary, and such a store is not made. What is in a block when it is handed out is
arbitrary too.

## What is proved

* `run_load`, `run_store`, `run_store_next` — accesses inside.
* `HandsOut.bind` — how many blocks an action hands out, step by step.
* `keeps_of_accesses` — loads and stores change neither which blocks there are nor how long they are.
* `strays_le`, `Strays.bind`, `strays_bind`, `ReadsOnly.not_strays` — accesses outside stay counted; an action that must make one
  reads more than it is given.
* `Simulation.run` — a memory whose commands do what they do here runs every program as it is run here.
-/

namespace EagleOS.Foundations

/-- The blocks. -/
structure Buffers where
  /-- The contents of every block that has been handed out. -/
  blocks : List (List (BitVec 8))
  /-- The blocks that have been deleted, the last first. -/
  deleted : List ℕ
  /-- How many accesses were outside. -/
  strays : ℕ
  /-- What those accesses find. -/
  outside : ℕ → BitVec 8
  /-- What is in the blocks when they are handed out. -/
  fresh : ℕ → ℕ → BitVec 8

/-- Nothing has been handed out. -/
def Buffers.empty (outside : ℕ → BitVec 8) (fresh : ℕ → ℕ → BitVec 8) : Buffers := ⟨[], [], 0, outside, fresh⟩

namespace Buffers

/-- What a pointer can point to. -/
def bytes (w : Buffers) : Base → Option (List (BitVec 8))
  | .null => none
  | .text chars => some (chars ++ [0#8])
  | .block id => if id ∈ w.deleted then none else w.blocks[id]?

/-- The byte that a pointer points to, if it points to one. -/
def byteAt? (w : Buffers) (p : Pointer) : Option (BitVec 8) := (w.bytes p.base).bind fun bs => bs[p.offset % 2 ^ 32]?

/-- The blocks when one of them has been written to. -/
def put (w : Buffers) (id : ℕ) (bs : List (BitVec 8)) : Buffers := { w with blocks := w.blocks.set id bs }

/-- The blocks with one more. -/
def grow (w : Buffers) (bs : List (BitVec 8)) : Buffers := { w with blocks := w.blocks ++ [bs] }

end Buffers

instance : BlockMemory Buffers where
  load p w :=
    match w.byteAt? p with
    | some b => (b, w)
    | none => (w.outside w.strays, { w with strays := w.strays + 1 })
  store p b w :=
    match w.byteAt? p, p.base with
    | some _, .block id => { w with blocks := w.blocks.modify id (·.set (p.offset % 2 ^ 32) b) }
    | _, _ => { w with strays := w.strays + 1 }
  newArray n w :=
    if n = 0#32 then some (.null, w)
    else some (⟨.block w.blocks.length, 0⟩, w.grow ((List.range n.toNat).map (w.fresh w.blocks.length)))
  deleteArray p w :=
    match p.base with
    | .block id => { w with deleted := id :: w.deleted }
    | _ => w

/-! ### Accesses inside -/

namespace Buffers

variable {w : Buffers} {p : Pointer} {id : ℕ} {b : BitVec 8} {bs xs ys zs : List (BitVec 8)}

theorem run_load (h : w.byteAt? p = some b) : (load p).run w = some (b, w) := by
  simp only [Action.run_load, BlockMemory.load, h]

/-- The block `id`, which is not deleted, has these contents. -/
structure Has (w : Buffers) (id : ℕ) (bs : List (BitVec 8)) : Prop where
  /-- It is not deleted. -/
  kept : id ∉ w.deleted
  /-- Its contents. -/
  contents : w.blocks[id]? = some bs

theorem Has.put (h : w.Has id xs) (ys : List (BitVec 8)) : (w.put id ys).Has id ys := by
  refine ⟨h.kept, ?_⟩
  have hlt : id < w.blocks.length := (List.getElem?_eq_some_iff.mp h.contents).1
  simp [Buffers.put, hlt]

/-- The bytes of the block. -/
theorem Has.byteAt? (h : w.Has id bs) (hbase : p.base = .block id) (hlt : p.offset < 2 ^ 32) : w.byteAt? p = bs[p.offset]? := by
  simp only [Buffers.byteAt?, bytes, hbase, if_neg h.kept, h.contents, Option.bind_some, Nat.mod_eq_of_lt hlt]

theorem Has.put_self (h : w.Has id xs) : w.put id xs = w := by
  obtain ⟨hlt, hxs⟩ := List.getElem?_eq_some_iff.mp h.contents
  rw [Buffers.put, ← hxs, List.set_getElem_self]

/-- A byte of a block is stored. -/
theorem run_store (h : w.Has id (xs ++ b :: ys)) (hlen : xs.length < 2 ^ 32) (hbase : p.base = .block id)
    (hoffset : p.offset = xs.length) (c : BitVec 8) : (store p c).run w = some ((), w.put id (xs ++ c :: ys)) := by
  have hbyte : w.byteAt? p = some b := by
    rw [h.byteAt? hbase (by omega), hoffset]
    simp
  have hmod : w.blocks.modify id (·.set (xs.length % 2 ^ 32) c) = w.blocks.set id (xs ++ c :: ys) := by
    rw [List.modify_eq_set_getElem?, h.contents, Nat.mod_eq_of_lt hlen]
    simp
  simp only [Action.run_store, BlockMemory.store, hbyte, hbase, hoffset, hmod]
  rfl

/-- A range of a block is stored byte by byte, from its start: one byte of it. -/
theorem run_store_next (h : w.Has id (xs ++ b :: ys ++ zs)) (hlen : xs.length < 2 ^ 32) (hbase : p.base = .block id)
    (hoffset : p.offset = xs.length) (c : BitVec 8) :
    (store p c).run w = some ((), w.put id (xs ++ [c] ++ ys ++ zs)) ∧
      (w.put id (xs ++ [c] ++ ys ++ zs)).Has id (xs ++ [c] ++ ys ++ zs) := by
  have hsplit : w.Has id (xs ++ b :: (ys ++ zs)) := by simpa using h
  have hstore := run_store hsplit hlen hbase hoffset c
  have happend : xs ++ c :: (ys ++ zs) = xs ++ [c] ++ ys ++ zs := by simp
  rw [happend] at hstore
  exact ⟨hstore, h.put _⟩

/-- A byte of a block is loaded. -/
theorem Has.run_load (h : w.Has id (xs ++ b :: ys)) (hlen : xs.length < 2 ^ 32) (hbase : p.base = .block id)
    (hoffset : p.offset = xs.length) : (load p).run w = some (b, w) := by
  refine Buffers.run_load ?_
  rw [h.byteAt? hbase (by omega), hoffset, List.getElem?_append_right (Nat.le_refl _), Nat.sub_self, List.getElem?_cons_zero]

@[simp] theorem length_grow : (w.grow bs).blocks.length = w.blocks.length + 1 := by simp [grow]

theorem put_put : (w.put id xs).put id ys = w.put id ys := by simp [put]

/-- What a pointer to elsewhere points to is as it was. -/
theorem byteAt?_put (h : p.base ≠ .block id) : (w.put id bs).byteAt? p = w.byteAt? p := by
  unfold byteAt? bytes
  cases hp : p.base with
  | null => rfl
  | text => rfl
  | block j =>
    have hj : id ≠ j := fun e => h (by rw [hp, e])
    simp [put, List.getElem?_set_ne hj]

/-- So it is where the bytes that are written are those that were there. -/
theorem byteAt?_put_of_same (hid : w.Has id xs) (h : p.base = .block id → ys[p.offset % 2 ^ 32]? = xs[p.offset % 2 ^ 32]?) :
    (w.put id ys).byteAt? p = w.byteAt? p := by
  by_cases hp : p.base = .block id
  · simp only [byteAt?, bytes, hp, if_neg hid.kept, if_neg (hid.put ys).kept, hid.contents, (hid.put ys).contents,
      Option.bind_some, h hp]
  · exact byteAt?_put hp

/-- A pointer that points to a byte points into something. -/
theorem base_ne_null (h : w.byteAt? p = some b) : p.base ≠ .null := by
  intro hp
  simp [byteAt?, bytes, hp] at h

/-- So it is when there is one block more. -/
theorem bytes_grow {base : Base} (h : w.bytes base = some xs) : (w.grow bs).bytes base = some xs := by
  cases base with
  | null => exact h
  | text => exact h
  | block j =>
    simp only [bytes] at h
    split at h
    · cases h
    · rename_i hj
      have hj' : j ∉ (w.grow bs).deleted := hj
      have hlt : j < w.blocks.length := (List.getElem?_eq_some_iff.mp h).1
      rw [bytes, if_neg hj', ← h]
      exact List.getElem?_append_left hlt

theorem byteAt?_grow (h : w.byteAt? p = some b) : (w.grow bs).byteAt? p = some b := by
  obtain ⟨xs, hxs, hb⟩ := Option.bind_eq_some_iff.mp h
  exact Option.bind_eq_some_iff.mpr ⟨xs, bytes_grow hxs, hb⟩

/-- The new block, written to. -/
theorem put_grow : (w.grow xs).put w.blocks.length ys = w.grow ys := by simp [put, grow]

/-- What is handed out is not deleted. -/
theorem has_grow (h : ∀ id ∈ w.deleted, id < w.blocks.length) : (w.grow bs).Has w.blocks.length bs :=
  ⟨fun hid => Nat.lt_irrefl _ (h _ hid), by simp [grow]⟩

/-- A block stays what it is when there is one more. -/
theorem Has.grow (h : w.Has id xs) : (w.grow bs).Has id xs := by
  have hlt : id < w.blocks.length := (List.getElem?_eq_some_iff.mp h.contents).1
  exact ⟨h.kept, (List.getElem?_append_left hlt).trans h.contents⟩

/-- The block that is handed out next has no bytes yet. -/
theorem base_ne_next (h : w.byteAt? p = some b) : p.base ≠ .block w.blocks.length := by
  intro hp
  simp [byteAt?, bytes, hp] at h

/-- A new block has as many bytes as were asked for. -/
theorem run_newArray (w : Buffers) {n : BitVec 32} (hn : n ≠ 0#32) : ∃ bs, bs.length = n.toNat ∧
    (newArray n).run w = some (⟨.block w.blocks.length, 0⟩, w.grow bs) := by
  refine ⟨(List.range n.toNat).map (w.fresh w.blocks.length), by simp, ?_⟩
  rw [Action.run_newArray]
  exact if_neg hn

/-- No bytes are at the null pointer. -/
theorem run_newArray_zero (w : Buffers) : (newArray 0#32).run w = some (.null, w) := rfl

/-! ### Texts -/

/-- A pointer points to these bytes, one after the other. -/
def Reads (w : Buffers) (p : Pointer) (xs : List (BitVec 8)) : Prop := ∀ i < xs.length, w.byteAt? (p + i) = xs[i]?

theorem reads_nil : w.Reads p [] := fun _ hi => absurd hi (Nat.not_lt_zero _)

theorem reads_cons : w.Reads p (b :: xs) ↔ w.byteAt? p = some b ∧ w.Reads (p + 1) xs := by
  constructor
  · intro h
    refine ⟨h 0 (Nat.succ_pos _), fun i hi => ?_⟩
    rw [Pointer.add_add, Nat.add_comm]
    exact h (i + 1) (Nat.succ_lt_succ hi)
  · rintro ⟨h0, h⟩ i hi
    cases i with
    | zero => exact h0
    | succ i =>
      have := h i (Nat.lt_of_succ_lt_succ hi)
      rwa [Pointer.add_add, Nat.add_comm] at this

theorem reads_append : w.Reads p (xs ++ ys) ↔ w.Reads p xs ∧ w.Reads (p + xs.length) ys := by
  induction xs generalizing p with
  | nil => simp [reads_nil]
  | cons x xs ih =>
    rw [List.cons_append, reads_cons, reads_cons, ih, Pointer.add_add, List.length_cons, Nat.add_comm 1, and_assoc]

theorem Reads.put (h : w.Reads p xs) (hp : p.base ≠ .block id) : (w.put id bs).Reads p xs := fun i hi => by
  rw [byteAt?_put (by simpa using hp)]
  exact h i hi

theorem Reads.grow (h : w.Reads p xs) : (w.grow bs).Reads p xs := fun i hi => by
  have hb := h i hi
  rw [List.getElem?_eq_getElem hi] at hb ⊢
  exact byteAt?_grow hb

/-- A block is read from its start. -/
theorem Has.reads (h : w.Has id bs) (hlen : bs.length ≤ 2 ^ 32) : w.Reads ⟨.block id, 0⟩ bs := by
  intro i hi
  rw [h.byteAt? rfl (by simp only [Pointer.offset_add]; omega), Pointer.offset_add, Nat.zero_add]

/-- A range of a block is read from its start. -/
theorem Has.reads_range (h : w.Has id (xs ++ ys ++ zs)) (hlen : xs.length + ys.length ≤ 2 ^ 32) :
    w.Reads ⟨.block id, xs.length⟩ ys := by
  intro i hi
  rw [h.byteAt? rfl (by simp only [Pointer.offset_add]; omega), Pointer.offset_add, List.append_assoc,
    List.getElem?_append_right (Nat.le_add_right _ _), Nat.add_sub_cancel_left, List.getElem?_append_left hi]

/-- A pointer points to a text without zeros, and the zero that ends it. -/
structure IsText (w : Buffers) (p : Pointer) (chars : List (BitVec 8)) : Prop where
  /-- The characters and the zero. -/
  reads : w.Reads p (chars ++ [0#8])
  /-- No character is zero. -/
  nonzero : 0#8 ∉ chars
  /-- The text fits in the address space. -/
  fits : chars.length + 1 < 2 ^ 32

/-- What is left of a text is a text. -/
theorem IsText.append_right (h : w.IsText p (xs ++ ys)) : w.IsText (p + xs.length) ys := by
  have hreads := h.reads
  have hfits := h.fits
  rw [List.append_assoc] at hreads
  rw [List.length_append] at hfits
  exact ⟨(reads_append.mp hreads).2, fun hmem => h.nonzero (List.mem_append_right _ hmem), by omega⟩

theorem IsText.tail (h : w.IsText p (b :: xs)) : w.IsText (p + 1) xs := @IsText.append_right w p [b] xs h

/-- The first character of a text. -/
theorem IsText.head (h : w.IsText p (b :: xs)) : w.byteAt? p = some b ∧ b ≠ 0#8 :=
  ⟨(reads_cons.mp h.reads).1, fun h0 => h.nonzero (h0 ▸ List.mem_cons_self)⟩

theorem IsText.base_ne_null (h : w.IsText p xs) : p.base ≠ .null := by
  have hzero := (reads_append.mp h.reads).2
  simpa using Buffers.base_ne_null (reads_cons.mp hzero).1

theorem byteAt?_text {i : ℕ} (hi : i < 2 ^ 32) : w.byteAt? ((⟨.text xs, 0⟩ : Pointer) + i) = (xs ++ [0#8])[i]? := by
  simp only [Buffers.byteAt?, bytes, Pointer.offset_add, Nat.zero_add, Option.bind_some, Nat.mod_eq_of_lt hi]

/-- A pointer to the start of a text that is not written to. -/
theorem isText_text (h0 : 0#8 ∉ xs) (hfits : xs.length + 1 < 2 ^ 32) : w.IsText ⟨.text xs, 0⟩ xs := by
  refine ⟨fun i hi => byteAt?_text ?_, h0, hfits⟩
  rw [List.length_append, List.length_singleton] at hi
  omega

/-- A text lies in a block that has been handed out. -/
theorem IsText.base_ne_next (h : w.IsText p xs) : p.base ≠ .block w.blocks.length := by
  have hzero := (reads_append.mp h.reads).2
  have hbase := Buffers.base_ne_next (reads_cons.mp hzero).1
  simpa using hbase

/-- A text stays a text when another block is deleted. -/
theorem IsText.delete (h : w.IsText p xs) (hp : p.base ≠ .block id) :
    { w with deleted := id :: w.deleted }.IsText p xs := by
  refine ⟨fun i hi => ?_, h.nonzero, h.fits⟩
  rw [← h.reads i hi]
  unfold byteAt? bytes
  cases hbase : p.base with
  | null => rfl
  | text => rfl
  | block j =>
    have hne : j ≠ id := fun e => hp (by rw [hbase, e])
    simp [hne]

theorem IsText.grow (h : w.IsText p xs) : (w.grow bs).IsText p xs := ⟨h.reads.grow, h.nonzero, h.fits⟩

end Buffers

/-! ### What actions hand out -/

section

variable {α β : Type} {k l : ℕ} {R : ℕ → α → Prop} {S : ℕ → β → Prop} {a : Action α} {f : α → Action β} {w w' : Buffers} {v : α}

/-- Loads and stores change neither which blocks there are, nor how long they are. -/
theorem keeps_of_accesses (ha : a.Only Command.IsAccess) (h : a.run w = some (v, w')) :
    w'.blocks.map List.length = w.blocks.map List.length ∧ w'.deleted = w.deleted := by
  induction a generalizing w with
  | ret v =>
    cases h
    exact ⟨rfl, rfl⟩
  | hang => cases h
  | load p next ih =>
    have hload : (BlockMemory.load p w).2.blocks = w.blocks ∧ (BlockMemory.load p w).2.deleted = w.deleted := by
      simp only [BlockMemory.load]
      split <;> exact ⟨rfl, rfl⟩
    rw [← hload.1, ← hload.2]
    exact ih _ (ha.2 _) h
  | store p b next ih =>
    have hstore : (BlockMemory.store p b w).blocks.map List.length = w.blocks.map List.length ∧
        (BlockMemory.store p b w).deleted = w.deleted := by
      simp only [BlockMemory.store]
      split
      · rename_i id _ _
        refine ⟨List.ext_getElem? fun i => ?_, rfl⟩
        simp only [List.getElem?_map, List.getElem?_modify]
        cases w.blocks[i]? with
        | none => rfl
        | some bs => by_cases hi : id = i <;> simp [hi]
      · exact ⟨rfl, rfl⟩
    rw [← hstore.1, ← hstore.2]
    exact ih ha.2 h
  | newArray n next => exact absurd ha.1 not_false
  | deleteArray p next => exact absurd ha.1 not_false

/-- With `k` blocks handed out, the action deletes none, if it returns; and `R` is a relation between how many it leaves and what
it returns. -/
def HandsOut (k : ℕ) (R : ℕ → α → Prop) (a : Action α) : Prop :=
  ∀ (w : Buffers) (v : α) (w' : Buffers), w.blocks.length = k → a.run w = some (v, w') → w'.deleted = w.deleted ∧ R w'.blocks.length v

theorem handsOut_pure (hv : R k v) : HandsOut k R (pure v) := by
  rintro w v' w' rfl h
  cases h
  exact ⟨rfl, hv⟩

theorem HandsOut.bind (ha : HandsOut k R a) (hf : ∀ l v, R l v → HandsOut l S (f v)) : HandsOut k S (a >>= f) := by
  rintro w v w' hw h
  obtain ⟨u, w₁, hu, hv⟩ := Action.run_bind_eq_some.mp h
  obtain ⟨hdel, hR⟩ := ha w u w₁ hw hu
  obtain ⟨hdel', hS⟩ := hf _ u hR w₁ v w' rfl hv
  exact ⟨hdel'.trans hdel, hS⟩

/-- Loads and stores first. -/
theorem handsOut_access (ha : a.Only Command.IsAccess) (hf : ∀ v, HandsOut k S (f v)) : HandsOut k S (a >>= f) := by
  refine HandsOut.bind (R := fun l _ => l = k) ?_ fun l v hl => hl ▸ hf v
  rintro w v w' rfl h
  obtain ⟨hsizes, hdel⟩ := keeps_of_accesses ha h
  exact ⟨hdel, by simpa using congrArg List.length hsizes⟩

/-- With `k` blocks handed out, `new[]` leaves `l` and returns the null pointer, or the start of the new block. -/
def Fresh (k l : ℕ) (p : Pointer) : Prop := p = .null ∧ l = k ∨ p = ⟨.block k, 0⟩ ∧ l = k + 1

theorem Fresh.le {p : Pointer} (h : Fresh k l p) : k ≤ l := by
  rcases h with ⟨-, rfl⟩ | ⟨-, rfl⟩
  · exact Nat.le_refl _
  · exact Nat.le_succ _

/-- How many blocks are handed out when `n` bytes are asked for. -/
def blocksFor (n : BitVec 32) : ℕ := if n = 0#32 then 0 else 1

theorem handsOut_newArray (n : BitVec 32) : HandsOut k (fun l p => l = k + blocksFor n ∧ Fresh k l p) (newArray n) := by
  rintro w v w' rfl h
  by_cases hn : n = 0#32
  · subst hn
    cases h
    exact ⟨rfl, rfl, .inl ⟨rfl, rfl⟩⟩
  · obtain ⟨bs, -, hnew⟩ := Buffers.run_newArray w hn
    cases hnew.symm.trans h
    refine ⟨rfl, ?_, .inr ⟨rfl, Buffers.length_grow⟩⟩
    rw [blocksFor, if_neg hn, Buffers.length_grow]

end

/-! ### How long blocks are -/

/-- Past the end of its block a pointer points to nothing. -/
theorem byteAt?_past_end {w : Buffers} {p : Pointer} {id n : ℕ} (hsize : (w.blocks.map List.length)[id]? = some n)
    (hp : p.base = .block id) (hoffset : n ≤ p.offset) (hlt : p.offset < 2 ^ 32) : w.byteAt? p = none := by
  rw [List.getElem?_map, Option.map_eq_some_iff] at hsize
  obtain ⟨bs, hbs, rfl⟩ := hsize
  simp only [Buffers.byteAt?, Buffers.bytes, hp, Nat.mod_eq_of_lt hlt]
  split
  · rfl
  · simp [hbs, hoffset]

/-! ### Accesses outside -/

section

variable {α β : Type} {w w' : Buffers} {p : Pointer} {a : Action α} {f : α → Action β} {v : α}

theorem run_load_outside (h : w.byteAt? p = none) :
    (load p).run w = some (w.outside w.strays, { w with strays := w.strays + 1 }) := by
  simp only [Action.run_load, BlockMemory.load, h]

theorem run_store_outside (h : w.byteAt? p = none) (b : BitVec 8) :
    (store p b).run w = some ((), { w with strays := w.strays + 1 }) := by
  simp only [Action.run_store, BlockMemory.store, h]

/-- No program takes an access outside back. -/
theorem strays_le (h : a.run w = some (v, w')) : w.strays ≤ w'.strays := by
  induction a generalizing w with
  | ret v =>
    cases h
    exact Nat.le_refl _
  | hang => cases h
  | load p next ih =>
    refine Nat.le_trans ?_ (ih _ h)
    simp only [BlockMemory.load]
    split
    · exact Nat.le_refl _
    · exact Nat.le_succ _
  | store p b next ih =>
    refine Nat.le_trans ?_ (ih h)
    simp only [BlockMemory.store]
    split
    · exact Nat.le_refl _
    · exact Nat.le_succ _
  | newArray n next ih =>
    obtain ⟨⟨p, w₁⟩, hnew, hnext⟩ := Option.bind_eq_some_iff.mp h
    refine Nat.le_trans (Nat.le_of_eq ?_) (ih _ hnext)
    simp only [BlockMemory.newArray] at hnew
    split at hnew <;> cases hnew <;> rfl
  | deleteArray p next ih =>
    refine Nat.le_trans (Nat.le_of_eq ?_) (ih h)
    simp only [BlockMemory.deleteArray]
    split <;> rfl

/-- If the action returns, it has made an access outside. -/
def Strays (w : Buffers) (a : Action α) : Prop := ∀ v w', a.run w = some (v, w') → w.strays < w'.strays

theorem strays_load (h : w.byteAt? p = none) : Strays w (load p) := by
  intro v w' hrun
  cases (run_load_outside h).symm.trans hrun
  exact Nat.lt_succ_self _

theorem strays_store (h : w.byteAt? p = none) (b : BitVec 8) : Strays w (store p b) := by
  intro v w' hrun
  cases (run_store_outside h b).symm.trans hrun
  exact Nat.lt_succ_self _

/-- The first action has made one. -/
theorem Strays.bind (ha : Strays w a) : Strays w (a >>= f) := by
  intro v w' h
  obtain ⟨u, w₁, hu, hv⟩ := Action.run_bind_eq_some.mp h
  exact Nat.lt_of_lt_of_le (ha u w₁ hu) (strays_le hv)

/-- The second action makes one, after whatever the first does. -/
theorem strays_bind (hf : ∀ v w', a.run w = some (v, w') → Strays w' (f v)) : Strays w (a >>= f) := by
  intro v w' h
  obtain ⟨u, w₁, hu, hv⟩ := Action.run_bind_eq_some.mp h
  exact Nat.lt_of_le_of_lt (strays_le hu) (hf u w₁ hu v w' hv)

/-- The second action makes one, where what the first does is known. -/
theorem strays_after (hrun : a.run w = some (v, w')) (hf : Strays w' (f v)) : Strays w (a >>= f) := by
  refine strays_bind fun u w₁ hu => ?_
  cases hrun.symm.trans hu
  exact hf

end

/-! ### What is read -/

section

variable {α : Type} {a : Pointer → Action α} {r : Pointer → α} {xs : List (BitVec 8)}

/-- The action reads these bytes, from its pointer on, and nothing else, and returns what `r` says: it does so wherever
the bytes are, and whether or not there is anything beside them. -/
def ReadsOnly (a : Pointer → Action α) (xs : List (BitVec 8)) (r : Pointer → α) : Prop :=
  ∀ (w : Buffers) (p : Pointer), w.Reads p xs → (a p).run w = some (r p, w)

/-- Nothing but one block. -/
def Buffers.single (xs : List (BitVec 8)) : Buffers := ⟨[xs], [], 0, fun _ => 0#8, fun _ _ => 0#8⟩

theorem Buffers.reads_single (hlen : xs.length ≤ 2 ^ 32) : (single xs).Reads ⟨.block 0, 0⟩ xs :=
  Has.reads ⟨List.not_mem_nil, rfl⟩ hlen

/-- After the block there is nothing. -/
theorem Buffers.byteAt?_single_end (hlen : xs.length < 2 ^ 32) :
    (single xs).byteAt? ((⟨.block 0, 0⟩ : Pointer) + xs.length) = none :=
  byteAt?_past_end rfl rfl (by simp) (by simpa using hlen)

/-- Where there is nothing but what the action reads, it makes no access outside. -/
theorem ReadsOnly.not_strays (h : ReadsOnly a xs r) (hlen : xs.length ≤ 2 ^ 32) : ¬ Strays (.single xs) (a ⟨.block 0, 0⟩) :=
  fun hstrays => Nat.lt_irrefl _ (hstrays _ _ (h _ _ (Buffers.reads_single hlen)))

end

/-! ### Other memories -/

section

variable {α σ : Type} [BlockMemory σ] {R : σ → Buffers → Prop} {ok : σ → Command → Prop} {m : σ} {w : Buffers}
  {f g : ℕ → ℕ → BitVec 8}

/-- The blocks, with something else in those that are handed out from now on. -/
def Buffers.withFresh (w : Buffers) (f : ℕ → ℕ → BitVec 8) : Buffers := { w with fresh := f }

theorem load_withFresh (p : Pointer) (f : ℕ → ℕ → BitVec 8) :
    BlockMemory.load p (w.withFresh f) = ((BlockMemory.load p w).1, (BlockMemory.load p w).2.withFresh f) := by
  simp only [BlockMemory.load, show (w.withFresh f).byteAt? p = w.byteAt? p from rfl]
  split <;> rfl

theorem store_withFresh (p : Pointer) (b : BitVec 8) (f : ℕ → ℕ → BitVec 8) :
    BlockMemory.store p b (w.withFresh f) = (BlockMemory.store p b w).withFresh f := by
  simp only [BlockMemory.store, show (w.withFresh f).byteAt? p = w.byteAt? p from rfl]
  split <;> rfl

theorem deleteArray_withFresh (p : Pointer) (f : ℕ → ℕ → BitVec 8) :
    BlockMemory.deleteArray p (w.withFresh f) = (BlockMemory.deleteArray p w).withFresh f := by
  simp only [BlockMemory.deleteArray]
  split <;> rfl

/-- What is in a block when it is handed out matters from then on only. -/
theorem run_withFresh (a : Action α) (h : ∀ id, w.blocks.length ≤ id → f id = g id) :
    a.run (w.withFresh f) = (a.run (w.withFresh g)).map fun r => (r.1, r.2.withFresh f) := by
  induction a generalizing w with
  | ret v => rfl
  | hang => rfl
  | load p next ih =>
    have hlen : (BlockMemory.load p w).2.blocks.length = w.blocks.length := by
      simp only [BlockMemory.load]
      split <;> rfl
    simp only [Action.run, load_withFresh]
    exact ih _ (hlen ▸ h)
  | store p b next ih =>
    have hlen : (BlockMemory.store p b w).blocks.length = w.blocks.length := by
      simp only [BlockMemory.store]
      split
      · exact List.length_modify _ _ _
      · rfl
    simp only [Action.run, store_withFresh]
    exact ih (hlen ▸ h)
  | newArray n next ih =>
    simp only [Action.run, BlockMemory.newArray]
    by_cases hn : n = 0#32
    · simp only [if_pos hn, Option.bind_some]
      exact ih _ h
    · simp only [if_neg hn, Option.bind_some, Buffers.withFresh, h w.blocks.length (Nat.le_refl _)]
      refine @ih _ (w.grow ((List.range n.toNat).map (g w.blocks.length))) fun id hid => h id ?_
      rw [Buffers.length_grow] at hid
      omega
  | deleteArray p next ih =>
    have hlen : (BlockMemory.deleteArray p w).blocks.length = w.blocks.length := by
      simp only [BlockMemory.deleteArray]
      split <;> rfl
    simp only [Action.run, deleteArray_withFresh]
    exact ih (hlen ▸ h)

/-- The commands do in another memory what they do here, as far as `R` tells, where they are run as `ok` says. -/
structure Simulation (R : σ → Buffers → Prop) (ok : σ → Command → Prop) : Prop where
  /-- What is in the blocks that are not handed out yet is open. -/
  fresh : ∀ {m w} (f : ℕ → ℕ → BitVec 8), R m w → R m (w.withFresh f)
  /-- A load finds the same. -/
  load : ∀ {m w} (p : Pointer), R m w →
    (BlockMemory.load p m).1 = (BlockMemory.load p w).1 ∧ R (BlockMemory.load p m).2 (BlockMemory.load p w).2
  /-- So does a load after a store. -/
  store : ∀ {m w} (p : Pointer) (b : BitVec 8), R m w → R (BlockMemory.store p b m) (BlockMemory.store p b w)
  /-- A new block is handed out, of as many bytes as are asked for, if any are. -/
  newArray : ∀ {m w} (n : BitVec 32), R m w → ok m (.newArray n) →
    ∃ m', n = 0#32 ∧ BlockMemory.newArray n m = some (.null, m') ∧ R m' w ∨ n ≠ 0#32 ∧ ∃ bs, bs.length = n.toNat ∧
      BlockMemory.newArray n m = some (⟨.block w.blocks.length, 0⟩, m') ∧ R m' (w.grow bs)
  /-- A block is deleted. -/
  deleteArray : ∀ {m w} (p : Pointer), R m w → ok m (.deleteArray p) →
    R (BlockMemory.deleteArray p m) (BlockMemory.deleteArray p w)

/-- Then every program whose commands are all run as `ok` says returns what it returns here, for some contents of the blocks that
are handed out, and the memories are related again. -/
theorem Simulation.run (h : Simulation R ok) (a : Action α) (hR : R m w) (ha : a.Always ok m) : ∃ f : ℕ → ℕ → BitVec 8,
    Option.Rel (fun r r' => r.1 = r'.1 ∧ R r.2 r'.2) (a.run m) (a.run (w.withFresh f)) := by
  induction a generalizing m w with
  | ret v => exact ⟨w.fresh, .some ⟨rfl, hR⟩⟩
  | hang => exact ⟨w.fresh, .none⟩
  | load p next ih =>
    obtain ⟨hv, hnext⟩ := h.load p hR
    obtain ⟨f, hf⟩ := ih _ hnext ha.2
    refine ⟨f, ?_⟩
    simp only [Action.run, load_withFresh, ← hv]
    exact hf
  | store p b next ih =>
    obtain ⟨f, hf⟩ := ih (h.store p b hR) ha.2
    refine ⟨f, ?_⟩
    simp only [Action.run, store_withFresh]
    exact hf
  | newArray n next ih =>
    obtain ⟨m', ⟨rfl, hnew, hR'⟩ | ⟨hn, bs, hlen, hnew, hR'⟩⟩ := h.newArray n hR ha.1
    · obtain ⟨f, hf⟩ := ih _ hR' (ha.2 _ _ hnew)
      refine ⟨f, ?_⟩
      simp only [Action.run, hnew, Option.bind_some]
      exact hf
    · obtain ⟨f, hf⟩ := ih _ hR' (ha.2 _ _ hnew)
      -- the new block has what is found there, and the later ones what they have from there on
      have hbytes : (List.range n.toNat).map (fun i => bs.getD i 0#8) = bs := by
        refine List.ext_getElem (by simp [hlen]) fun i hi hi' => ?_
        simp [hi']
      have hlater : ∀ id, (w.grow bs).blocks.length ≤ id → Function.update f w.blocks.length (fun i => bs.getD i 0#8) id = f id := by
        intro id hid
        rw [Buffers.length_grow] at hid
        exact Function.update_of_ne (by omega) _ _
      refine ⟨Function.update f w.blocks.length fun i => bs.getD i 0#8, ?_⟩
      have hnew' : BlockMemory.newArray n (w.withFresh (Function.update f w.blocks.length fun i => bs.getD i 0#8)) =
          some (⟨.block w.blocks.length, 0⟩,
            (w.grow bs).withFresh (Function.update f w.blocks.length fun i => bs.getD i 0#8)) := by
        simp only [BlockMemory.newArray, if_neg hn, Buffers.withFresh, Function.update_self, hbytes]
        rfl
      simp only [Action.run, hnew, hnew', Option.bind_some, run_withFresh _ hlater]
      generalize (next ⟨.block w.blocks.length, 0⟩).run m' = r at hf ⊢
      generalize (next ⟨.block w.blocks.length, 0⟩).run ((w.grow bs).withFresh f) = r' at hf ⊢
      cases hf with
      | none => exact .none
      | some hrel => exact .some ⟨hrel.1, h.fresh _ hrel.2⟩
  | deleteArray p next ih =>
    obtain ⟨f, hf⟩ := ih (h.deleteArray p hR ha.1) ha.2
    refine ⟨f, ?_⟩
    simp only [Action.run, deleteArray_withFresh]
    exact hf

end

end EagleOS.Foundations
