import EagleOS.ESTD.StringContents
import EagleOS.ESTD.StringPrograms
import EagleOS.Memory.HeapBuffers

/-!
# Strings in buffers on the kernel's heap

The buffers of the strings are what `new[]` returns, so they lie on the kernel's heap, among what the rest of the kernel has there.

## The model

A `HeapStringCall` is a call on strings, or a call of the rest of the kernel on its heap; `HeapStrings.Sound` says what the runs are
that the theorem is about: sound calls on strings, where each `new[]` that they make finds room in the heap and no `delete[]` finds a
free neighbour, and careful calls of the others, which leave the buffers alone.

## What is proved

* `HeapStrings.Sound.step` — such a call on strings returns; and what holds of strings in fresh blocks holds of the strings on the
  heap again.
* `HeapStrings.strings_well_formed` — after such a run every string is well-formed, and nothing was accessed outside of the buffers.
* `HeapStrings.strings_ill_formed` — and what goes wrong at other calls, a merging `delete[]` among them.
-/

namespace EagleOS.Memory

open ESTD Boot Foundations HeapNode

/-- The buffers, as a memory of blocks. -/
def HeapBuffers.view (m : HeapBuffers) : Buffers :=
  ⟨m.blocks.map (contents m.client.heap.mem), m.deleted, m.strays, m.outside, fun _ _ => 0#8⟩

/-- A call on strings, or what the rest of the kernel does with the heap. -/
inductive HeapStringCall where
  /-- A call on strings. -/
  | string (c : StringCall)
  /-- A call of the others, or a write of theirs. -/
  | other (c : KMallocCall)

namespace HeapStrings

/-- No strings, and nothing on the heap. -/
def start (heap : Heap) (outside : ℕ → BitVec 8) : Strings HeapBuffers := ⟨⟨⟨heap, []⟩, [], [], 0, outside⟩, fun _ => none⟩

/-- What happens. -/
def step (s : Strings HeapBuffers) : HeapStringCall → Option (Strings HeapBuffers)
  | .string c => s.call c
  | .other c => (c.step s.buffers.client).map fun client => { s with buffers := { s.buffers with client } }

/-- The calls as a step relation. -/
def Step (s : Strings HeapBuffers) (c : HeapStringCall) (t : Strings HeapBuffers) : Prop := step s c = some t

/-- The call on strings is sound, has room for what it allocates, and merges nothing that it deletes; a call of the others has room and
merges nothing, and does not free a buffer or write to one. -/
def Sound (s : Strings HeapBuffers) : HeapStringCall → Prop
  | .string c => Strings.Sound ⟨s.buffers.view, s.objects⟩ c ∧ s.Always HeapBuffers.Careful c
  | .other c => c.Careful s.buffers.client ∧ ∀ id x, s.buffers.Holds id x → c.Spares x

/-- There are such strings in a memory of fresh blocks, which hold texts. -/
def Inv (s : Strings HeapBuffers) : Prop :=
  ∃ u : Strings Buffers, u.Inv ∧ u.objects = s.objects ∧ OnHeap s.buffers u.buffers

end HeapStrings

section

variable {m : HeapBuffers} {w : Buffers} {p : Pointer} {xs : List (BitVec 8)} {str : ESTD.String} {id : ℕ} {bs : List (BitVec 8)}

/-- What a pointer points to is the same in the memory of blocks. -/
theorem HeapBuffers.byteAt?_view (m : HeapBuffers) (p : Pointer) : m.view.byteAt? p = m.byteAt? p := by
  cases hp : p.base with
  | null => simp [byteAt?, address?, Buffers.byteAt?, Buffers.bytes, hp]
  | text chars => simp [byteAt?, Buffers.byteAt?, Buffers.bytes, hp]
  | block id =>
    simp only [byteAt?, address?, Buffers.byteAt?, Buffers.bytes, view, hp, List.getElem?_map]
    by_cases hid : id ∈ m.deleted
    · simp [hid]
    rw [if_neg hid, if_neg hid]
    cases m.blocks[id]? with
    | none => rfl
    | some x =>
      simp only [Option.map_some, Option.bind_some, getElem?_contents]
      split <;> rfl

/-- So are the texts. -/
theorem OnHeap.isText (h : OnHeap m w) (htext : m.view.IsText p xs) : w.IsText p xs := by
  refine ⟨fun i hi => ?_, htext.nonzero, htext.fits⟩
  rw [← h.byteAt?, ← m.byteAt?_view]
  exact htext.reads i hi

/-- And what is in a block. -/
theorem OnHeap.has_view (h : OnHeap m w) (hid : w.Has id bs) : m.view.Has id bs := by
  have hkept : id ∉ m.deleted := h.deleted ▸ hid.kept
  have hlt : id < m.blocks.length := h.length ▸ (List.getElem?_eq_some_iff.mp hid.contents).1
  obtain ⟨x, hx⟩ : ∃ x, m.blocks[id]? = some x := ⟨_, List.getElem?_eq_getElem hlt⟩
  refine ⟨hkept, ?_⟩
  have hsame := (h.contents ⟨hx, hkept⟩).symm.trans hid.contents
  simp only [HeapBuffers.view, List.getElem?_map, hx, Option.map_some]
  exact hsame

/-- A block that is there is on the heap. -/
theorem OnHeap.exists_holds (h : OnHeap m w) (hid : w.Has id bs) : ∃ x, m.Holds id x := by
  have hlt : id < m.blocks.length := h.length ▸ (List.getElem?_eq_some_iff.mp hid.contents).1
  exact ⟨_, List.getElem?_eq_getElem hlt, h.deleted ▸ hid.kept⟩

end

namespace HeapStrings

variable {s t : Strings HeapBuffers} {u : Strings Buffers} {c : StringCall}

/-- A call that is sound as far as the buffers on the heap tell is sound in the memory of fresh blocks. -/
theorem sound_of_view (h : OnHeap s.buffers u.buffers) (f : ℕ → ℕ → BitVec 8)
    (hc : Strings.Sound ⟨s.buffers.view, s.objects⟩ c) : Strings.Sound ⟨u.buffers.withFresh f, s.objects⟩ c := by
  cases c with
  | constructText x str =>
    obtain ⟨hx, xs, hxs⟩ := hc
    exact ⟨hx, xs, (heapBuffers_simulates.fresh f h).isText hxs⟩
  | constructPrefix x str size =>
    obtain ⟨hx, xs, hxs, hsize⟩ := hc
    exact ⟨hx, xs, (heapBuffers_simulates.fresh f h).isText hxs, hsize⟩
  | _ => exact hc

/-- What is in the blocks that are not handed out yet does not matter. -/
theorem inv_withFresh (h : u.Inv) (f : ℕ → ℕ → BitVec 8) : Strings.Inv ⟨u.buffers.withFresh f, u.objects⟩ := by
  refine ⟨h.owned, h.plain, fun hx => ?_, h.strays⟩
  obtain ⟨xs, hxs⟩ := h.content hx
  exact ⟨xs, hxs.mono fun id bs hid => ⟨hid.kept, hid.contents⟩⟩

/-- Of a careful call the commands are ready: what a destructor deletes is the buffer of its string. -/
theorem ready_of_careful (h : u.Inv) (hobjects : u.objects = s.objects) (hR : OnHeap s.buffers u.buffers)
    (hc : s.Always HeapBuffers.Careful c) : s.Always HeapBuffers.Ready c := by
  by_cases hdestroy : ∃ x, c = .destroy x
  · obtain ⟨x, rfl⟩ := hdestroy
    intro a ha
    have hcareful := hc a ha
    obtain ⟨str, hx, ha⟩ := Option.bind_eq_some_iff.mp ha
    cases ha
    have hxu : u.objects x = some str := hobjects ▸ hx
    rcases h.plain x str hxu with hnull | ⟨id, hid⟩
    · simp only [ESTD.String.destroy, hnull]
      trivial
    · simp only [ESTD.String.destroy, hid] at hcareful ⊢
      obtain ⟨xs, hxs⟩ := h.content hxu
      rcases hxs.data with ⟨hnull, -⟩ | ⟨id', hid', hhas⟩
      · cases hid.symm.trans hnull
      · cases hid.symm.trans hid'
        obtain ⟨y, hy⟩ := hR.exists_holds hhas
        exact ⟨⟨id, y, rfl, hy, hcareful.1 id y rfl hy⟩, trivial⟩
  · intro a ha
    refine (Strings.keepsBlocks_program ha fun x hx => hdestroy ⟨x, hx⟩).always (hc a ha) fun m command hkeeps hcareful => ?_
    cases command with
    | load p => trivial
    | store p b => trivial
    | newArray n => exact hcareful
    | deleteArray p => exact absurd hkeeps not_false

/-- A sound call on strings returns. -/
theorem Sound.step (hc : Sound s (.string c)) (h : Inv s) : ∃ t, Step s (.string c) t ∧ Inv t := by
  obtain ⟨u, hu, hobjects, hR⟩ := h
  obtain ⟨f, hf⟩ := Strings.call_simulates heapBuffers_simulates hR (ready_of_careful hu hobjects hR hc.2)
  obtain ⟨v, hv, hinv⟩ := (sound_of_view hR f hc.1).step (hobjects ▸ inv_withFresh hu f)
  rw [hv] at hf
  cases ht : s.call c with
  | none =>
    rw [ht] at hf
    cases hf
  | some t =>
    rw [ht] at hf
    cases hf with
    | some hrel => exact ⟨t, ht, v, hinv, hrel.1.symm, hrel.2⟩

/-- One step. -/
theorem Inv.step (h : Inv s) {c : HeapStringCall} (hc : Sound s c) (hstep : Step s c t) : Inv t := by
  cases c with
  | string c =>
    obtain ⟨t', ht', hinv⟩ := hc.step h
    exact Option.some.inj (ht'.symm.trans hstep) ▸ hinv
  | other c =>
    obtain ⟨u, hu, hobjects, hR⟩ := h
    obtain ⟨client, hclient, rfl⟩ := Option.map_eq_some_iff.mp hstep
    exact ⟨u, hu, hobjects, hR.kmalloc_step hc.1 hc.2 hclient⟩

/-- What the strings hold is in the buffers on the heap. -/
theorem Inv.wellFormed (h : Inv s) {x : ℕ} {str : ESTD.String} (hx : s.objects x = some str) : ESTD.WellFormed s.buffers.view str := by
  obtain ⟨u, hu, hobjects, hR⟩ := h
  obtain ⟨xs, hxs⟩ := hu.content (hobjects ▸ hx : u.objects x = some str)
  exact (hxs.mono fun id bs hid => hR.has_view hid).wellFormed

section

variable {util : MemoryUtil} {k k' : Kernel} {mem : Foundations.Memory} {sizeBytes : SizeT} {heap : Heap}

theorem inv_start (hinit : Heap.init util k mem sizeBytes = (some heap, k')) (outside : ℕ → BitVec 8) : Inv (start heap outside) := by
  refine ⟨Strings.start outside fun _ _ => 0#8, ⟨Ownership.inv_empty, Strings.start_plain, ?_, rfl⟩, rfl,
    onHeap_start (HeapClient.inv_init hinit) _ _⟩
  intro x str h
  cases h

/-- **Strings**: after `Init`, in every run of sound calls every string is well-formed, and nothing has been read or written outside of
the buffers; and every sound call on strings returns. -/
theorem strings_well_formed (hinit : Heap.init util k mem sizeBytes = (some heap, k')) (outside : ℕ → BitVec 8)
    (s : Strings HeapBuffers) (hrun : RunsWhere Step Sound (start heap outside) s) :
    (∀ x str, s.objects x = some str → ESTD.WellFormed s.buffers.view str) ∧ s.buffers.strays = 0 ∧
      ∀ c, Sound s (.string c) → ∃ t, Step s (.string c) t := by
  have hinv : Inv s := hrun.invariant (P := Inv) (fun _ _ _ h hc hstep => h.step hc hstep) (inv_start hinit outside)
  refine ⟨fun x str hx => hinv.wellFormed hx, ?_, fun c hc => ?_⟩
  · obtain ⟨u, hu, -, hR⟩ := hinv
    exact hR.strays.symm.trans hu.strays
  · obtain ⟨t, ht, -⟩ := hc.step hinv
    exact ⟨t, ht⟩

end

/-! ### On the heap of one page -/

/-- The text `ab`. -/
def textAb : Pointer := ⟨.text [0x61#8, 0x62#8], 0⟩

theorem isText_textAb (w : Buffers) : w.IsText textAb [0x61#8, 0x62#8] := Buffers.isText_text (by decide) (by decide)

/-- The call on strings has room, and merges nothing. -/
def carefulCheck (s : Strings HeapBuffers) (c : StringCall) : Bool :=
  (Strings.program s.objects c).all fun a => a.check HeapBuffers.carefulCheck s.buffers

theorem always_careful_of_check (h : carefulCheck s c = true) : s.Always HeapBuffers.Careful c := by
  intro a ha
  rw [carefulCheck, ha, Option.all_some] at h
  exact Action.always_of_check HeapBuffers.careful_of_check h

/-- Some sound calls, as a check that can be computed. -/
def soundCheck (s : Strings HeapBuffers) : HeapStringCall → Bool
  | .string (.constructText x str) => (s.objects x).isNone && str == textAb && carefulCheck s (.constructText x str)
  | .string (.copy x y) => (s.objects x).isNone && ((s.objects y).any fun rhs => rhs.data != .null) && carefulCheck s (.copy x y)
  | .string (.append x y) => ((s.objects x).any fun lhs => (s.objects y).any fun rhs =>
      decide (lhs.size.toNat + rhs.size.toNat + 1 < 2 ^ 32)) && carefulCheck s (.append x y)
  | .string (.destroy x) => (s.objects x).isSome && carefulCheck s (.destroy x)
  | .other (.kMalloc n) => decide (RoomAtEnd s.buffers.client.heap n)
  | .other (.kZAlloc n) => decide (RoomAtEnd s.buffers.client.heap n)
  | _ => false

theorem sound_of_check (s : Strings HeapBuffers) (c : HeapStringCall) (h : soundCheck s c = true) : Sound s c := by
  unfold soundCheck at h
  split at h
  · rename_i x str
    simp only [Bool.and_eq_true, Option.isNone_iff_eq_none, beq_iff_eq] at h
    exact ⟨⟨h.1.1, _, h.1.2 ▸ isText_textAb _⟩, always_careful_of_check h.2⟩
  · rename_i x y
    simp only [Bool.and_eq_true, Option.isNone_iff_eq_none, Option.any_eq_true, bne_iff_ne] at h
    exact ⟨h.1, always_careful_of_check h.2⟩
  · rename_i x y
    simp only [Bool.and_eq_true, Option.any_eq_true, decide_eq_true_eq] at h
    obtain ⟨⟨lhs, hx, rhs, hy, hsize⟩, hcareful⟩ := h
    exact ⟨⟨lhs, rhs, hx, hy, hsize⟩, always_careful_of_check hcareful⟩
  · rename_i x
    simp only [Bool.and_eq_true, Option.isSome_iff_exists] at h
    exact ⟨h.1, always_careful_of_check h.2⟩
  · exact ⟨⟨.inr (.inr (of_decide_eq_true h)), trivial⟩, fun _ _ _ => trivial⟩
  · exact ⟨⟨.inr (.inr (of_decide_eq_true h)), trivial⟩, fun _ _ _ => trivial⟩
  · cases h

/-- Between allocations of others a string is made from the text and copied, the copy is appended to it and destroyed: what is left is
well-formed. -/
theorem strings_well_formed_abab :
    ∃ s, RunsWhere Step Sound (start HeapClient.heap4096 fun _ => 0#8) s ∧
      (∃ str, s.objects 0 = some str ∧ str.size = 4#32 ∧ ESTD.WellFormed s.buffers.view str) ∧ s.buffers.strays = 0 ∧
      ∀ c, Sound s (.string c) → ∃ t, Step s (.string c) t := by
  obtain ⟨k, k', hinit⟩ := HeapClient.exists_init_heap4096
  have heval : ([HeapStringCall.other (.kMalloc 30#32), .string (.constructText 0 textAb), .string (.copy 1 0),
      .string (.append 0 1), .string (.destroy 1), .other (.kZAlloc 3#32)].foldlM
        (fun s c => if soundCheck s c then step s c else none) (start HeapClient.heap4096 fun _ => 0#8)).map
      (fun s => (s.objects 0).map ESTD.String.size) = some (some 4#32) := by decide +kernel
  obtain ⟨s, hs, hsize⟩ := Option.map_eq_some_iff.mp heval
  obtain ⟨str, hx, hstr⟩ := Option.map_eq_some_iff.mp hsize
  have hrun : RunsWhere Step Sound (start HeapClient.heap4096 fun _ => 0#8) s := runsWhere_of_foldlM sound_of_check _ hs
  obtain ⟨hwell, hrest⟩ := strings_well_formed hinit _ s hrun
  exact ⟨s, hrun, ⟨str, hx, hstr, hwell 0 str hx⟩, hrest⟩

/-- A text of `n` letters. -/
def textOf (n : ℕ) : Pointer := ⟨.text (List.replicate n 0x61#8), 0⟩

/-- A string of one character `a` has no terminator; a string that has been moved from keeps its size; a copy of the empty string reads
from the null pointer; and when the second and then the first of three strings of 19 characters are destroyed, a string of 39
characters is made in a buffer that overlaps that of the third, whose text ends after six characters then. -/
theorem strings_ill_formed :
    (∃ k k', Heap.init (MemoryUtil.init bootInfo512) k (fun _ => 0#8) 4096#32 = (some HeapClient.heap4096, k')) ∧
    (∃ s str, [StringCall.constructFilled 0 1#32 0x61#8].foldlM Strings.call (start HeapClient.heap4096 fun _ => 0#8) = some s ∧
      s.objects 0 = some str ∧ ¬ ESTD.WellFormed s.buffers.view str) ∧
    (∃ s str, [StringCall.constructText 0 textAb, .move 1 0].foldlM Strings.call (start HeapClient.heap4096 fun _ => 0#8) = some s ∧
      s.objects 0 = some str ∧ ¬ ESTD.WellFormed s.buffers.view str) ∧
    (∃ s, [StringCall.construct 0, .copy 1 0].foldlM Strings.call (start HeapClient.heap4096 fun _ => 0#8) = some s ∧
      0 < s.buffers.strays) ∧
    ∃ s str, [StringCall.constructText 0 (textOf 19), .constructText 1 (textOf 19), .constructText 2 (textOf 19), .destroy 1,
      .destroy 0, .constructText 3 (textOf 39)].foldlM Strings.call (start HeapClient.heap4096 fun _ => 0#8) = some s ∧
      s.objects 2 = some str ∧ str.size = 19#32 ∧ ¬ ESTD.WellFormed s.buffers.view str := by
  refine ⟨HeapClient.exists_init_heap4096, ?_, ?_, ?_, ?_⟩
  · have heval : ([StringCall.constructFilled 0 1#32 0x61#8].foldlM Strings.call (start HeapClient.heap4096 fun _ => 0#8)).map
        (fun s => ((s.objects 0).map fun str => (str.data, str.size), s.buffers.view.blocks[0]?)) =
          some (some (⟨.block 0, 0⟩, 1#32), some [0x61#8]) := by decide +kernel
    obtain ⟨s, hs, hfacts⟩ := Option.map_eq_some_iff.mp heval
    rw [Prod.mk.injEq, Option.map_eq_some_iff] at hfacts
    obtain ⟨⟨str, hx, hstr⟩, hbytes⟩ := hfacts
    obtain ⟨hdata, hsize⟩ := Prod.mk.inj hstr
    refine ⟨s, str, hs, hx, fun h => ?_⟩
    have hzero := (h.zero hdata hbytes).1
    rw [hsize] at hzero
    cases hzero
  · have heval : ([StringCall.constructText 0 textAb, .move 1 0].foldlM Strings.call (start HeapClient.heap4096 fun _ => 0#8)).map
        (fun s => ((s.objects 0).map fun str => (str.data, str.size))) = some (some (.null, 2#32)) := by decide +kernel
    obtain ⟨s, hs, hfacts⟩ := Option.map_eq_some_iff.mp heval
    obtain ⟨str, hx, hstr⟩ := Option.map_eq_some_iff.mp hfacts
    obtain ⟨hdata, hsize⟩ := Prod.mk.inj hstr
    refine ⟨s, str, hs, hx, ?_⟩
    rintro (⟨-, hnone⟩ | ⟨id, xs, rest, hid, -⟩)
    · rw [hsize] at hnone
      cases hnone
    · rw [hdata] at hid
      cases hid
  · have heval : ([StringCall.construct 0, .copy 1 0].foldlM Strings.call (start HeapClient.heap4096 fun _ => 0#8)).map
        (fun s => decide (0 < s.buffers.strays)) = some true := by decide +kernel
    obtain ⟨s, hs, hfacts⟩ := Option.map_eq_some_iff.mp heval
    exact ⟨s, hs, of_decide_eq_true hfacts⟩
  · have heval : ([StringCall.constructText 0 (textOf 19), .constructText 1 (textOf 19), .constructText 2 (textOf 19), .destroy 1,
        .destroy 0, .constructText 3 (textOf 39)].foldlM Strings.call (start HeapClient.heap4096 fun _ => 0#8)).map
        (fun s => ((s.objects 2).map fun str => (str.data, str.size), s.buffers.view.blocks[2]?)) =
          some (some (⟨.block 2, 0⟩, 19#32), some (List.replicate 6 0x61#8 ++ 0#8 :: List.replicate 12 0x61#8 ++ [0#8])) := by
      decide +kernel
    obtain ⟨s, hs, hfacts⟩ := Option.map_eq_some_iff.mp heval
    rw [Prod.mk.injEq, Option.map_eq_some_iff] at hfacts
    obtain ⟨⟨str, hx, hstr⟩, hbytes⟩ := hfacts
    obtain ⟨hdata, hsize⟩ := Prod.mk.inj hstr
    refine ⟨s, str, hs, hx, hsize, fun h => ?_⟩
    have hnone := (h.zero hdata hbytes).2
    rw [hsize] at hnone
    exact hnone (by decide)

end HeapStrings

end EagleOS.Memory
