import EagleOS.ESTD.String
import EagleOS.Foundations.Ownership
import EagleOS.Foundations.Run

/-!
# Who owns the buffers of the strings

Every call on strings moves buffers between objects in a way that does not depend on what is in them, nor on where they lie: a buffer
is what one `new[]` has returned. The step relation of the program simulates the moves of `Foundations.Ownership`.

## What is proved

* `Strings.call_effect` — what a call does to the ownership of the buffers.
* `buffers_have_one_owner` — after any calls no buffer has two owners, is deleted twice, or is owned and deleted.
* `nothing_leaks_iff` — when the objects are gone, all buffers are deleted if and only if no call was a leak.
-/

namespace EagleOS.ESTD

open Foundations Buffers CString Ownership

namespace Strings

/-- The ownership of the buffers. -/
def ownership (s : Strings Buffers) : Ownership ℕ :=
  ⟨fun x => (s.objects x).bind fun str => str.data.block?, s.buffers.blocks.length, s.buffers.deleted⟩

/-- How many buffers `y + z` makes and forgets. -/
def sumBuffers (s : Strings Buffers) (y z : ℕ) : ℕ :=
  match s.objects y, s.objects z with
  | some lhs, some rhs => blocksFor (lhs.size + rhs.size + 1#32)
  | _, _ => 0

/-- How many buffers `y + ch` makes and forgets. -/
def charBuffers (s : Strings Buffers) (y : ℕ) : ℕ := (s.objects y).elim 0 fun lhs => blocksFor (lhs.size + 2#32)

/-- What is moved when `n` buffers are forgotten, and `x` becomes a string that has been made: what `x` kept is forgotten, too. -/
def taken (t : Strings Buffers) (n x : ℕ) : List (Ownership.Move ℕ) :=
  List.replicate n .spill ++ [if t.ownership.holds x = none then .give x x else .take x]

/-- What a call moves that leads from `s` to `t`. -/
def effect (s t : Strings Buffers) : StringCall → List (Ownership.Move ℕ)
  | .construct x => t.taken 0 x
  | .constructText x _ => t.taken 0 x
  | .constructPrefix x _ _ => t.taken 0 x
  | .constructFilled x _ _ => t.taken 0 x
  | .copy x _ => t.taken 0 x
  | .move x y => [.give y x]
  | .assign x _ => t.taken 0 x
  | .moveAssign x y => [.give y x]
  | .equal _ _ => []
  | .notEqual _ _ => []
  -- the buffer of the sum, if there is one, is copied and forgotten
  | .add x y z => t.taken (s.sumBuffers y z) x
  | .addChar x y _ => t.taken (s.charBuffers y) x
  | .append x y => t.taken (s.sumBuffers x y) x
  | .appendChar x _ => t.taken (s.charBuffers x) x
  | .substr x _ _ len => t.taken (blocksFor len) x
  | .destroy x => [.release x]

/-- The objects point to the start of a block, or nowhere. -/
def Plain (s : Strings Buffers) : Prop :=
  ∀ x str, s.objects x = some str → str.data = .null ∨ ∃ id, str.data = ⟨.block id, 0⟩

end Strings

/-! ### What the member functions hand out -/

section

variable {k n : ℕ} {a : Action String}

/-- With `k` blocks handed out, the action hands out `n` that nobody keeps and then the buffer of the string that it
returns, if it has one. -/
def Yields (k n : ℕ) (a : Action String) : Prop := HandsOut k (fun l str => Fresh (k + n) l str.data) a

theorem yields_empty : Yields k 0 (pure String.empty) := handsOut_pure (.inl ⟨rfl, rfl⟩)

theorem yields_ofText (str : Pointer) : Yields k 0 (String.ofText str) :=
  (handsOut_strdup k str).bind fun _ _ hdata => handsOut_access (accesses_strlen str) fun _ => handsOut_pure hdata

theorem yields_ofPrefix (str : Pointer) (size : SizeT) : Yields k 0 (String.ofPrefix str size) :=
  (handsOut_strndup k str size).bind fun _ _ hdata => handsOut_pure hdata

theorem yields_filled (size : SizeT) (ch : BitVec 8) : Yields k 0 (String.filled size ch) :=
  (handsOut_newArray size).bind fun _ _ hdata => handsOut_access (accesses_memset ch _ _) fun _ => handsOut_pure hdata.2

theorem yields_copy (rhs : String) : Yields k 0 (String.copy rhs) :=
  (handsOut_strdup k _).bind fun _ _ hdata => handsOut_pure hdata

theorem yields_assign (rhs : String) : Yields k 0 (String.assign rhs) :=
  (handsOut_strdup k _).bind fun _ _ hdata => handsOut_pure hdata

theorem yields_add (str rhs : String) : Yields k (blocksFor (str.size + rhs.size + 1#32)) (str.add rhs) := by
  refine (handsOut_newArray _).bind fun l buf hbuf => handsOut_access (accesses_memcpy _ _ _) fun _ => ?_
  refine handsOut_access (accesses_memcpy _ _ _) fun _ => handsOut_access (Action.accesses_store _ _) fun _ => ?_
  exact hbuf.1 ▸ yields_ofText buf

theorem yields_addChar (str : String) (ch : BitVec 8) : Yields k (blocksFor (str.size + 2#32)) (str.addChar ch) := by
  refine (handsOut_newArray _).bind fun l buf hbuf => handsOut_access (accesses_memcpy _ _ _) fun _ => ?_
  refine handsOut_access (Action.accesses_store _ _) fun _ => handsOut_access (Action.accesses_store _ _) fun _ => ?_
  exact hbuf.1 ▸ yields_ofText buf

theorem yields_substr (str : String) (pos len : SizeT) : Yields k (blocksFor len) (str.substr pos len) := by
  refine (handsOut_newArray _).bind fun l buf hbuf => handsOut_access (accesses_memcpy _ _ _) fun _ => ?_
  exact handsOut_access (Action.accesses_store _ _) fun _ => hbuf.1 ▸ yields_ofText buf

/-- The temporary holds nothing when it is destroyed. -/
theorem yields_become (h : Yields k n a) : Yields k n (String.become a) :=
  h.bind fun _ _ hdata => handsOut_access (Action.only_pure ()) fun _ => handsOut_pure hdata

theorem accesses_equal (str rhs : String) : (str.equal rhs).Only Command.IsAccess :=
  (accesses_strncmp _ _ _).bind fun _ => Action.only_pure _

theorem accesses_notEqual (str rhs : String) : (str.notEqual rhs).Only Command.IsAccess :=
  (accesses_strncmp _ _ _).bind fun _ => Action.only_pure _

end

/-! ### What a call moves -/

namespace Strings

section

variable {s t : Strings Buffers} {x y : ℕ} {str : String} {a : Action String} {n : ℕ}

theorem foldl_spill (n : ℕ) (o : Ownership ℕ) :
    (List.replicate n Ownership.Move.spill).foldl Ownership.apply o = { o with next := o.next + n } := by
  induction n generalizing o with
  | zero => rfl
  | succ n ih =>
    rw [List.replicate_succ, List.foldl_cons, ih, Ownership.apply, Nat.add_right_comm]
    rfl

theorem holds_update (w : Buffers) (objects : ℕ → Option String) (o : Option String) :
    (⟨w, Function.update objects x o⟩ : Strings Buffers).ownership =
      ⟨Function.update (⟨w, objects⟩ : Strings Buffers).ownership.holds x (o.bind fun str => str.data.block?), w.blocks.length,
        w.deleted⟩ := by
  have hholds : (⟨w, Function.update objects x o⟩ : Strings Buffers).ownership.holds =
      Function.update (⟨w, objects⟩ : Strings Buffers).ownership.holds x (o.bind fun str => str.data.block?) := by
    funext z
    simp only [ownership, Function.update_apply]
    split <;> rfl
  rw [← hholds]
  rfl

theorem Plain.update (h : s.Plain) {w : Buffers} {o : Option String}
    (ho : ∀ str, o = some str → str.data = .null ∨ ∃ id, str.data = ⟨.block id, 0⟩) :
    (⟨w, Function.update s.objects x o⟩ : Strings Buffers).Plain := by
  intro y str hy
  simp only [Function.update_apply] at hy
  split at hy
  · exact ho str hy
  · exact h y str hy

/-- An object that becomes what an action returns. -/
theorem ownership_set (ha : Yields s.buffers.blocks.length n a) (h : s.set x a = some t) :
    t.ownership = (t.taken n x).foldl Ownership.apply s.ownership ∧ (s.Plain → t.Plain) := by
  obtain ⟨⟨str, w⟩, hrun, rfl⟩ := Option.map_eq_some_iff.mp h
  obtain ⟨hdel, hfresh⟩ := ha s.buffers str w rfl hrun
  have hholds : (⟨w, Function.update s.objects x (some str)⟩ : Strings Buffers).ownership.holds x = str.data.block? := by
    simp [ownership]
  rw [taken, List.foldl_append, foldl_spill, List.foldl_cons, List.foldl_nil]
  rcases hfresh with ⟨hdata, hlen⟩ | ⟨hdata, hlen⟩
  · rw [hdata] at hholds
    refine ⟨?_, fun hplain => hplain.update fun _ he => .inl (Option.some.inj he ▸ hdata)⟩
    rw [if_pos (show _ = none from hholds), holds_update]
    simp only [Ownership.apply, ownership, Option.bind_some, hdata, hlen, hdel, Function.update_idem]
    rfl
  · rw [hdata] at hholds
    refine ⟨?_, fun hplain => hplain.update fun _ he => .inr ⟨s.buffers.blocks.length + n, Option.some.inj he ▸ hdata⟩⟩
    rw [if_neg (by rw [hholds]; exact Option.some_ne_none _), holds_update]
    simp only [Ownership.apply, ownership, Option.bind_some, hdata, hlen, hdel]
    rfl

theorem ownership_create (ha : Yields s.buffers.blocks.length n a) (h : s.create x a = some t) :
    t.ownership = (t.taken n x).foldl Ownership.apply s.ownership ∧ (s.Plain → t.Plain) := by
  unfold create at h
  split at h
  · exact ownership_set ha h
  · cases h

theorem ownership_compare {a : Action Bool} (ha : a.Only Command.IsAccess) (h : s.compare a = some t) :
    t.ownership = s.ownership ∧ (s.Plain → t.Plain) := by
  obtain ⟨⟨b, w⟩, hrun, rfl⟩ := Option.map_eq_some_iff.mp h
  obtain ⟨hsizes, hdel⟩ := keeps_of_accesses ha hrun
  have hlen : w.blocks.length = s.buffers.blocks.length := by simpa using congrArg List.length hsizes
  exact ⟨by simp only [ownership, hlen, hdel], id⟩

/-- What is left of a string that was moved from holds nothing. -/
theorem ownership_give {rhs : String} (hy : s.objects y = some rhs) :
    (⟨s.buffers, Function.update (Function.update s.objects x (some rhs.move.1)) y (some rhs.move.2)⟩ : Strings Buffers).ownership =
        s.ownership.apply (.give y x) ∧
      (s.Plain →
        (⟨s.buffers, Function.update (Function.update s.objects x (some rhs.move.1)) y (some rhs.move.2)⟩ : Strings Buffers).Plain) := by
  constructor
  · have hholds : s.ownership.holds y = rhs.data.block? := by simp [ownership, hy]
    rw [holds_update, holds_update, Ownership.apply, hholds]
    rfl
  · intro hplain
    refine Plain.update (s := ⟨s.buffers, Function.update s.objects x (some rhs.move.1)⟩) (hplain.update ?_) ?_
    · intro str h
      cases h
      exact hplain y rhs hy
    · intro str h
      cases h
      exact .inl rfl

/-- The buffer of a string that is destroyed is deleted. -/
theorem ownership_destroy {w : Buffers} {u : Unit} (hx : s.objects x = some str)
    (h : str.destroy.run s.buffers = some (u, w)) :
    (⟨w, Function.update s.objects x none⟩ : Strings Buffers).ownership = s.ownership.apply (.release x) := by
  have hholds : s.ownership.holds x = str.data.block? := by simp [ownership, hx]
  have hw : w.blocks.length = s.buffers.blocks.length ∧ w.deleted = str.data.block?.toList ++ s.buffers.deleted := by
    unfold String.destroy at h
    cases hbase : str.data.base with
    | null =>
      simp [hbase, Action.run_pure] at h
      simp [Pointer.block?, hbase, ← h]
    | text =>
      simp [hbase, Action.run_deleteArray, BlockMemory.deleteArray] at h
      simp [Pointer.block?, hbase, ← h]
    | block id =>
      simp [hbase, Action.run_deleteArray, BlockMemory.deleteArray] at h
      simp [Pointer.block?, hbase, ← h]
  rw [holds_update, Ownership.apply, hholds, hw.1, hw.2]
  rfl

theorem sumBuffers_eq {lhs rhs : String} (hy : s.objects y = some lhs) (hz : s.objects x = some rhs) :
    s.sumBuffers y x = blocksFor (lhs.size + rhs.size + 1#32) := by simp only [sumBuffers, hy, hz]

theorem charBuffers_eq {lhs : String} (hy : s.objects y = some lhs) : s.charBuffers y = blocksFor (lhs.size + 2#32) := by
  simp only [charBuffers, hy, Option.elim_some]

/-- **The effect of a call** on the ownership of the buffers. -/
theorem call_effect {c : StringCall} (h : s.call c = some t) :
    t.ownership = (effect s t c).foldl Ownership.apply s.ownership ∧ (s.Plain → t.Plain) := by
  cases c with
  | construct x => exact ownership_create yields_empty h
  | constructText x p => exact ownership_create (yields_ofText p) h
  | constructPrefix x p size => exact ownership_create (yields_ofPrefix p size) h
  | constructFilled x size ch => exact ownership_create (yields_filled size ch) h
  | copy x y =>
    obtain ⟨rhs, -, h⟩ := Option.bind_eq_some_iff.mp h
    exact ownership_create (yields_copy rhs) h
  | move x y =>
    obtain ⟨rhs, hy, h⟩ := Option.bind_eq_some_iff.mp h
    split at h
    · cases h
      exact ownership_give hy
    · cases h
  | assign x y =>
    obtain ⟨-, -, h⟩ := Option.bind_eq_some_iff.mp h
    obtain ⟨rhs, -, h⟩ := Option.bind_eq_some_iff.mp h
    exact ownership_set (yields_assign rhs) h
  | moveAssign x y =>
    obtain ⟨-, -, h⟩ := Option.bind_eq_some_iff.mp h
    obtain ⟨rhs, hy, h⟩ := Option.bind_eq_some_iff.mp h
    cases h
    exact ownership_give hy
  | equal x y =>
    obtain ⟨lhs, -, h⟩ := Option.bind_eq_some_iff.mp h
    obtain ⟨rhs, -, h⟩ := Option.bind_eq_some_iff.mp h
    exact ownership_compare (accesses_equal lhs rhs) h
  | notEqual x y =>
    obtain ⟨lhs, -, h⟩ := Option.bind_eq_some_iff.mp h
    obtain ⟨rhs, -, h⟩ := Option.bind_eq_some_iff.mp h
    exact ownership_compare (accesses_notEqual lhs rhs) h
  | add x y z =>
    obtain ⟨lhs, hy, h⟩ := Option.bind_eq_some_iff.mp h
    obtain ⟨rhs, hz, h⟩ := Option.bind_eq_some_iff.mp h
    rw [effect, sumBuffers_eq hy hz]
    exact ownership_create (yields_add lhs rhs) h
  | addChar x y ch =>
    obtain ⟨lhs, hy, h⟩ := Option.bind_eq_some_iff.mp h
    rw [effect, charBuffers_eq hy]
    exact ownership_create (yields_addChar lhs ch) h
  | append x y =>
    obtain ⟨lhs, hx, h⟩ := Option.bind_eq_some_iff.mp h
    obtain ⟨rhs, hy, h⟩ := Option.bind_eq_some_iff.mp h
    rw [effect, sumBuffers_eq hx hy]
    exact ownership_set (yields_become (yields_add lhs rhs)) h
  | appendChar x ch =>
    obtain ⟨lhs, hx, h⟩ := Option.bind_eq_some_iff.mp h
    rw [effect, charBuffers_eq hx]
    exact ownership_set (yields_become (yields_addChar lhs ch)) h
  | substr x y pos len =>
    obtain ⟨lhs, -, h⟩ := Option.bind_eq_some_iff.mp h
    exact ownership_create (yields_substr lhs pos len) h
  | destroy x =>
    obtain ⟨lhs, hx, h⟩ := Option.bind_eq_some_iff.mp h
    obtain ⟨⟨u, w⟩, hrun, h⟩ := Option.bind_eq_some_iff.mp h
    cases h
    exact ⟨ownership_destroy hx hrun, fun hplain => hplain.update fun _ h => by cases h⟩

/-! ### Owners -/

variable {outside : ℕ → BitVec 8} {fresh : ℕ → ℕ → BitVec 8}

theorem start_plain : (start outside fresh).Plain := fun _ _ h => by cases h

theorem start_ownership : (start outside fresh).ownership = Ownership.empty := rfl

/-- The invariant of all runs. -/
theorem ownership_inv (h : Runs Step (start outside fresh) s) : s.ownership.Inv ∧ s.Plain := by
  refine h.invariant (P := fun s => s.ownership.Inv ∧ s.Plain) ?_ ⟨inv_empty, start_plain⟩
  rintro s c t ⟨hinv, hplain⟩ - hcall
  obtain ⟨heffect, hkeep⟩ := call_effect hcall
  rw [heffect]
  exact ⟨hinv.foldl _, hkeep hplain⟩

theorem holds_eq_some {id : ℕ} (hx : s.objects x = some str) (hdata : str.data = ⟨.block id, 0⟩) :
    s.ownership.holds x = some id := by simp [ownership, hx, hdata, Pointer.block?]

/-- A string holds no buffer if and only if its pointer is null. -/
theorem Plain.holds_eq_none (h : s.Plain) : s.ownership.holds x = none ↔ ∀ str, s.objects x = some str → str.data = .null := by
  constructor
  · intro hnone str hx
    obtain hnull | ⟨id, hdata⟩ := h x str hx
    · exact hnull
    · rw [holds_eq_some hx hdata] at hnone
      cases hnone
  · intro hnull
    cases hx : s.objects x with
    | none => simp [ownership, hx]
    | some str => simp [ownership, hx, hnull str hx, Pointer.null, Pointer.block?]

end

/-- **Owners**: after any calls two strings never share a buffer, no buffer has been deleted twice, and no string
holds one that has been deleted. -/
theorem buffers_have_one_owner (outside : ℕ → BitVec 8) (fresh : ℕ → ℕ → BitVec 8) (s : Strings Buffers)
    (hrun : Runs Step (start outside fresh) s) :
    (∀ x y strx stry, s.objects x = some strx → s.objects y = some stry → strx.data ≠ .null → strx.data = stry.data → x = y) ∧
      s.buffers.deleted.Nodup ∧
      ∀ x str id, s.objects x = some str → str.data.base = .block id → id ∉ s.buffers.deleted := by
  obtain ⟨hinv, hplain⟩ := ownership_inv hrun
  refine ⟨fun x y strx stry hx hy hnull hdata => ?_, hinv.once, fun x str id hx hbase => ?_⟩
  · obtain hnull' | ⟨id, hid⟩ := hplain x strx hx
    · exact absurd hnull' hnull
    · exact hinv.unique (holds_eq_some hx hid) (holds_eq_some hy (hdata ▸ hid))
  · obtain hnull | ⟨id', hid⟩ := hplain x str hx
    · rw [hnull] at hbase
      cases hbase
    · rw [hid] at hbase
      cases hbase
      exact hinv.kept (holds_eq_some hx hid)

/-- Two texts, and what is done with them: one is assigned to itself, appended to, moved, and the other destroyed. -/
def mixedCalls : List StringCall :=
  [.constructText 0 ⟨.text [0x61#8, 0x62#8], 0⟩, .copy 1 0, .assign 0 0, .append 0 1, .move 2 0, .destroy 1]

/-- After these calls the buffer of the second string is deleted, and the third string holds the buffer of the sum. -/
theorem buffers_have_one_owner_mixedCalls :
    ∃ s, Runs Step (start (fun _ => 0#8) fun _ _ => 0#8) s ∧ s.buffers.deleted = [1] ∧
      (∃ str, s.objects 2 = some str ∧ str.data = ⟨.block 4, 0⟩) ∧
      (∀ x y strx stry, s.objects x = some strx → s.objects y = some stry → strx.data ≠ .null → strx.data = stry.data → x = y) ∧
      s.buffers.deleted.Nodup ∧
      ∀ x str id, s.objects x = some str → str.data.base = .block id → id ∉ s.buffers.deleted := by
  have heval : (mixedCalls.foldlM call (start (fun _ => 0#8) fun _ _ => 0#8)).map (fun s =>
      (s.buffers.deleted, (s.objects 2).map String.data)) = some ([1], some ⟨.block 4, 0⟩) := by decide +kernel
  obtain ⟨s, hs, hfacts⟩ := Option.map_eq_some_iff.mp heval
  simp only [Prod.mk.injEq, Option.map_eq_some_iff] at hfacts
  have hrun : Runs Step (start (fun _ => 0#8) fun _ _ => 0#8) s := runs_of_foldlM mixedCalls hs
  exact ⟨s, hrun, hfacts.1, hfacts.2, buffers_have_one_owner _ _ s hrun⟩

/-! ### Leaks -/

/-- The object has no buffer. -/
def Bare (s : Strings Buffers) (x : ℕ) : Prop := ∀ str, s.objects x = some str → str.data = .null

/-- The call leaks no buffer: what it is assigned to has none, and the buffer that it only copies is of no bytes. -/
def LeakFree (s : Strings Buffers) : StringCall → Prop
  | .assign x _ => s.Bare x
  | .moveAssign x _ => s.Bare x
  | .add _ y z => ∀ lhs rhs, s.objects y = some lhs → s.objects z = some rhs → lhs.size + rhs.size + 1#32 = 0#32
  | .addChar _ y _ => ∀ lhs, s.objects y = some lhs → lhs.size + 2#32 = 0#32
  | .append x y => (∀ lhs rhs, s.objects x = some lhs → s.objects y = some rhs → lhs.size + rhs.size + 1#32 = 0#32) ∧ s.Bare x
  | .appendChar x _ => (∀ lhs, s.objects x = some lhs → lhs.size + 2#32 = 0#32) ∧ s.Bare x
  | .substr _ _ _ len => len = 0#32
  | _ => True

/-- No call of the list leaks a buffer. -/
def Thrifty (s : Strings Buffers) : List StringCall → Prop
  | [] => True
  | c :: calls => s.LeakFree c ∧ ∀ t, s.call c = some t → t.Thrifty calls

section

variable {s t : Strings Buffers} {x y z : ℕ} {a : Action String} {n : ℕ}

theorem blocksFor_eq_zero {len : BitVec 32} : blocksFor len = 0 ↔ len = 0#32 := by simp [blocksFor]

theorem sumBuffers_eq_zero : s.sumBuffers y z = 0 ↔
    ∀ lhs rhs, s.objects y = some lhs → s.objects z = some rhs → lhs.size + rhs.size + 1#32 = 0#32 := by
  unfold sumBuffers
  cases s.objects y <;> cases s.objects z <;> simp [blocksFor_eq_zero]

theorem charBuffers_eq_zero : s.charBuffers y = 0 ↔ ∀ lhs, s.objects y = some lhs → lhs.size + 2#32 = 0#32 := by
  unfold charBuffers
  cases s.objects y <;> simp [blocksFor_eq_zero]

/-- Nothing is forgotten if no buffer is, and what becomes a new string kept none. -/
theorem thrifty_taken {o : Ownership ℕ} : o.Thrifty (t.taken n x) ↔ n = 0 ∧ o.holds x = none := by
  cases n with
  | zero =>
    rw [taken]
    split <;> simp [Ownership.Thrifty, Leaks]
  | succ n => simp [taken, List.replicate_succ, Ownership.Thrifty, Leaks]

theorem holds_of_create (h : s.create x a = some t) : s.ownership.holds x = none := by
  unfold create at h
  split at h
  · rename_i hnone
    simp [ownership, Option.isNone_iff_eq_none.mp hnone]
  · cases h

theorem thrifty_create (h : s.create x a = some t) : s.ownership.Thrifty (t.taken n x) ↔ n = 0 :=
  thrifty_taken.trans (and_iff_left (holds_of_create h))

/-- `LeakFree` is what it says. -/
theorem leakFree_iff {c : StringCall} (hplain : s.Plain) (h : s.call c = some t) :
    s.LeakFree c ↔ s.ownership.Thrifty (effect s t c) := by
  have hbare : ∀ x, s.Bare x ↔ s.ownership.holds x = none := fun x => hplain.holds_eq_none.symm
  cases c with
  | construct x => simp [LeakFree, effect, thrifty_create h]
  | constructText x p => simp [LeakFree, effect, thrifty_create h]
  | constructPrefix x p size => simp [LeakFree, effect, thrifty_create h]
  | constructFilled x size ch => simp [LeakFree, effect, thrifty_create h]
  | copy x y =>
    obtain ⟨rhs, -, h⟩ := Option.bind_eq_some_iff.mp h
    simp [LeakFree, effect, thrifty_create h]
  | move x y =>
    obtain ⟨rhs, -, h⟩ := Option.bind_eq_some_iff.mp h
    split at h
    · rename_i hnone
      simp [LeakFree, effect, Ownership.Thrifty, Leaks, ownership, Option.isNone_iff_eq_none.mp hnone]
    · cases h
  | assign x y => simp [LeakFree, effect, thrifty_taken, hbare]
  | moveAssign x y => simp [LeakFree, effect, Ownership.Thrifty, Leaks, hbare]
  | equal x y => simp [LeakFree, effect, Ownership.Thrifty]
  | notEqual x y => simp [LeakFree, effect, Ownership.Thrifty]
  | add x y z =>
    obtain ⟨lhs, -, h⟩ := Option.bind_eq_some_iff.mp h
    obtain ⟨rhs, -, h⟩ := Option.bind_eq_some_iff.mp h
    rw [LeakFree, effect, thrifty_create h, sumBuffers_eq_zero]
  | addChar x y ch =>
    obtain ⟨lhs, -, h⟩ := Option.bind_eq_some_iff.mp h
    rw [LeakFree, effect, thrifty_create h, charBuffers_eq_zero]
  | append x y => rw [LeakFree, effect, thrifty_taken, sumBuffers_eq_zero, hbare]
  | appendChar x ch => rw [LeakFree, effect, thrifty_taken, charBuffers_eq_zero, hbare]
  | substr x y pos len =>
    obtain ⟨lhs, -, h⟩ := Option.bind_eq_some_iff.mp h
    rw [LeakFree, effect, thrifty_create h, blocksFor_eq_zero]
  | destroy x => simp [LeakFree, effect, Ownership.Thrifty, Leaks]

/-- What a list of calls moves. -/
def effects (s : Strings Buffers) : List StringCall → List (Ownership.Move ℕ)
  | [] => []
  | c :: calls => (s.call c).elim [] fun t => effect s t c ++ t.effects calls

/-- What a list of calls does to the ownership, and whether it leaks. -/
theorem calls_effect (calls : List StringCall) (hplain : s.Plain) (h : calls.foldlM call s = some t) :
    t.ownership = (s.effects calls).foldl Ownership.apply s.ownership ∧
      (s.Thrifty calls ↔ s.ownership.Thrifty (s.effects calls)) := by
  induction calls generalizing s with
  | nil =>
    cases h
    exact ⟨rfl, Iff.rfl⟩
  | cons c calls ih =>
    rw [List.foldlM_cons] at h
    obtain ⟨u, hu, hrest⟩ := Option.bind_eq_some_iff.mp h
    obtain ⟨heffect, hkeep⟩ := call_effect hu
    obtain ⟨hcalls, hthrifty⟩ := ih (hkeep hplain) hrest
    rw [effects, hu, Option.elim_some, List.foldl_append, thrifty_append, ← heffect, ← hthrifty, ← leakFree_iff hplain hu]
    refine ⟨hcalls, and_congr_right fun _ => ?_⟩
    exact ⟨fun hall => hall u hu, fun hu' v hv => Option.some.inj (hu.symm.trans hv) ▸ hu'⟩

end

/-- **Leaks**: when calls leave no object, they have deleted every buffer if and only if none of them leaked one. -/
theorem nothing_leaks_iff (outside : ℕ → BitVec 8) (fresh : ℕ → ℕ → BitVec 8) (calls : List StringCall) (s : Strings Buffers)
    (hrun : calls.foldlM call (start outside fresh) = some s) (hend : ∀ x, s.objects x = none) :
    (∀ id < s.buffers.blocks.length, id ∈ s.buffers.deleted) ↔ (start outside fresh).Thrifty calls := by
  obtain ⟨heffect, hthrifty⟩ := calls_effect calls start_plain hrun
  have hnone : ∀ x, s.ownership.holds x = none := fun x => by simp [ownership, hend x]
  refine (all_deleted_iff hnone).trans ?_
  rw [hthrifty, heffect, start_ownership, lost_foldl_iff inv_empty not_lost_empty, not_not]

/-- A text is moved and destroyed, and so is what it was moved to. -/
def movedCalls : List StringCall := [.constructText 0 ⟨.text [0x61#8, 0x62#8], 0⟩, .move 1 0, .destroy 0, .destroy 1]

theorem nothing_leaks_iff_movedCalls :
    ∃ s, movedCalls.foldlM call (start (fun _ => 0#8) fun _ _ => 0#8) = some s ∧ s.buffers.blocks.length = 1 ∧
      (start (fun _ => 0#8) fun _ _ => 0#8).Thrifty movedCalls ∧
      ∀ id < s.buffers.blocks.length, id ∈ s.buffers.deleted := by
  have heval : (movedCalls.foldlM call (start (fun _ => 0#8) fun _ _ => 0#8)).map (fun s =>
      (s.buffers.blocks.length, (s.objects 0).isNone, (s.objects 1).isNone)) = some (1, true, true) := by decide +kernel
  obtain ⟨s, hs, hfacts⟩ := Option.map_eq_some_iff.mp heval
  simp only [Prod.mk.injEq, Option.isNone_iff_eq_none] at hfacts
  have hend : ∀ x, s.objects x = none := by
    rintro (_ | _ | x)
    · exact hfacts.2.1
    · exact hfacts.2.2
    · exact objects_calls movedCalls hs (by simp [movedCalls, changes])
  have hthrifty : (start (fun _ => 0#8) fun _ _ => 0#8).Thrifty movedCalls := by simp [movedCalls, Thrifty, LeakFree]
  exact ⟨s, hs, hfacts.1, hthrifty, (nothing_leaks_iff _ _ movedCalls s hs hend).mpr hthrifty⟩

/-- Two texts, one of which is assigned to the other; then both are destroyed. -/
def assignCalls : List StringCall :=
  [.constructText 0 ⟨.text [0x61#8, 0x62#8], 0⟩, .constructText 1 ⟨.text [0x63#8], 0⟩, .assign 0 1, .destroy 0, .destroy 1]

/-- The buffer that the first text was in is never deleted. -/
theorem assignment_leaks :
    ∃ s, assignCalls.foldlM call (start (fun _ => 0#8) fun _ _ => 0#8) = some s ∧ (∀ x, s.objects x = none) ∧
      0 < s.buffers.blocks.length ∧ 0 ∉ s.buffers.deleted := by
  have heval : (assignCalls.foldlM call (start (fun _ => 0#8) fun _ _ => 0#8)).map (fun s =>
      (s.buffers.blocks.length, s.buffers.deleted, (s.objects 0).isNone, (s.objects 1).isNone)) =
      some (3, [1, 2], true, true) := by decide +kernel
  obtain ⟨s, hs, hfacts⟩ := Option.map_eq_some_iff.mp heval
  simp only [Prod.mk.injEq, Option.isNone_iff_eq_none] at hfacts
  obtain ⟨hlen, hdeleted, h0, h1⟩ := hfacts
  refine ⟨s, hs, ?_, by simp [hlen], by simp [hdeleted]⟩
  rintro (_ | _ | x)
  · exact h0
  · exact h1
  · exact objects_calls assignCalls hs (by simp [assignCalls, changes])

end Strings

end EagleOS.ESTD
