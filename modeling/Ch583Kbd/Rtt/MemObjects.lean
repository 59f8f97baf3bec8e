/-
Ch583Kbd.Rtt.MemObjects — what the heap is for.

The clients of the heap have objects: a pointer, and the bytes behind it.
`Objects.after` says what a request makes of them, and there is no heap in
it. `Keeps` ties the objects to the blocks in use: every block in use has
an object in it, and the memory has the object's bytes.

The lemmas come in three kinds. `Keeps.drop` forgets an object, `Keeps.add`
puts one into a block and `Keeps.frame` says that the others do not notice.
-/
import Ch583Kbd.Rtt.MemAlloc

namespace Ch583Kbd.Rtt

open Ch583Kbd.Lib BlockList

/-- The objects of the clients, by their pointers. -/
abbrev Objects := Nat → Option (List (BitVec 8))

/-- What the rest of the program does: it calls the heap, it writes a byte of
an object, or it changes memory that is not the heap's. -/
inductive Request
  | malloc (size : Nat)
  | calloc (count size : Nat)
  | realloc (rmem newsize : Nat)
  | free (rmem : Nat)
  | write (rmem i : Nat) (v : BitVec 8)
  | elsewhere (memory : Memory)

/-- The result, and the heap afterwards. -/
def Heap.serve (h : Heap) : Request → Option (Nat × Heap)
  | .malloc size => h.rtMalloc size
  | .calloc count size => h.rtCalloc count size
  | .realloc rmem newsize => h.rtRealloc rmem newsize
  | .free rmem => some (0, h.rtFree rmem)
  | .write rmem i v => some (0, { h with memory := Function.update h.memory (rmem + i) v })
  | .elsewhere memory => some (0, { h with memory := memory })

/-- The rules for clients. A size that cannot be rounded up is not asked for,
only objects are given back, and they are written within their bounds. -/
def Request.Allowed (h : Heap) (objs : Objects) : Request → Prop
  | .malloc size => size ≤ 2 ^ 32 - rtAlignSize
  | .calloc count size => count * size ≤ 2 ^ 32 - rtAlignSize
  | .realloc rmem newsize => (rmem = 0 ∨ (objs rmem).isSome) ∧ newsize ≤ 2 ^ 32 - rtAlignSize
  | .free rmem => rmem = 0 ∨ (objs rmem).isSome
  | .write rmem i _ => ∃ l, objs rmem = some l ∧ i < l.length
  | .elsewhere memory =>
    ∀ x, h.heapPtr ≤ x → x < h.heapPtr + h.heapEnd + 12 → memory x = h.memory x

namespace Objects

def empty : Objects := fun _ => none

/-- What a request makes of the objects when it has returned `r`. The bytes
that no client has written are those that the memory has. -/
def after (objs : Objects) (memory : Memory) (r : Nat) : Request → Objects
  | .malloc size => if r = 0 then objs else Function.update objs r (some (memory.peek r size))
  | .calloc count size =>
    if r = 0 then objs else Function.update objs r (some (List.replicate (count * size) 0))
  | .realloc rmem newsize =>
    if newsize = 0 then Function.update objs rmem none
    else if r = 0 then objs
    else
      let old := (objs rmem).getD []
      Function.update (Function.update objs rmem none) r
        (some (old.take newsize ++ memory.peek (r + old.length) (newsize - old.length)))
  | .free rmem => Function.update objs rmem none
  | .write rmem i v => Function.update objs rmem ((objs rmem).map (·.set i v))
  | .elsewhere _ => objs

end Objects

namespace Heap

variable {h h' : Heap} {us us' os : List (Nat × Nat)} {objs : Objects} {s n m : Nat}
variable {l : List (BitVec 8)}

/-- The blocks `us` are those that have objects in them. -/
structure Keeps (h : Heap) (us : List (Nat × Nat)) (objs : Objects) : Prop where
  block : ∀ p l, objs p = some l → ∃ a ∈ us, p = h.heapPtr + a.1 + 12 ∧ l ≠ [] ∧
    l.length + 12 ≤ a.2 ∧ h.memory.peek p l.length = l
  object : ∀ a ∈ us, (objs (h.heapPtr + a.1 + 12)).isSome

/-- `us` is `os` and one more block. -/
structure OneMore (s n : Nat) (os us : List (Nat × Nat)) : Prop where
  mem_iff : ∀ a, a ∈ us ↔ a = (s, n) ∨ a ∈ os
  fresh : ∀ a ∈ os, a.1 ≠ s

/-- Objects are kept while the data of their blocks does not change. -/
theorem Keeps.frame (hk : Keeps h os objs) (hptr : h'.heapPtr = h.heapPtr)
    (hdata : ∀ a ∈ os, ∀ x, h.heapPtr + a.1 + 12 ≤ x → x < h.heapPtr + a.1 + a.2 →
      h'.memory x = h.memory x) : Keeps h' os objs where
  block p l hl := by
    obtain ⟨a, ha, hp, hne, hlen, hpeek⟩ := hk.block p l hl
    refine ⟨a, ha, hptr ▸ hp, hne, hlen, ?_⟩
    rw [← hpeek, Memory.length_peek]
    refine Memory.peek_congr fun i hi => hdata a ha _ ?_ ?_ <;> omega
  object a ha := hptr ▸ hk.object a ha

/-- Freeing a block drops its object and keeps the others. -/
theorem Keeps.drop (hk : Keeps h us objs) (hmore : OneMore s n os us) :
    Keeps h os (Function.update objs (h.heapPtr + s + 12) none) where
  block p l hl := by
    by_cases hp : p = h.heapPtr + s + 12
    · rw [hp, Function.update_self] at hl
      exact absurd hl nofun
    · rw [Function.update_of_ne hp] at hl
      obtain ⟨a, ha, hpa, hrest⟩ := hk.block p l hl
      rcases (hmore.mem_iff a).mp ha with rfl | ha
      · exact absurd hpa hp
      · exact ⟨a, ha, hpa, hrest⟩
  object a ha := by
    have hne := hmore.fresh a ha
    rw [Function.update_of_ne (by omega)]
    exact hk.object a ((hmore.mem_iff a).mpr (.inr ha))

/-- A new block whose data is written holds a new object beside the others. -/
theorem Keeps.add (hk : Keeps h os objs) (hmore : OneMore s n os us) (hne : l ≠ [])
    (hlen : l.length + 12 ≤ n) (hpeek : h.memory.peek (h.heapPtr + s + 12) l.length = l) :
    Keeps h us (Function.update objs (h.heapPtr + s + 12) (some l)) where
  block p l' hl' := by
    by_cases hp : p = h.heapPtr + s + 12
    · rw [hp, Function.update_self] at hl'
      obtain rfl := Option.some.inj hl'
      exact ⟨(s, n), (hmore.mem_iff _).mpr (.inl rfl), hp, hne, hlen, hp ▸ hpeek⟩
    · rw [Function.update_of_ne hp] at hl'
      obtain ⟨a, ha, hrest⟩ := hk.block p l' hl'
      exact ⟨a, (hmore.mem_iff a).mpr (.inr ha), hrest⟩
  object a ha := by
    rcases (hmore.mem_iff a).mp ha with rfl | ha
    · rw [Function.update_self]
      rfl
    · have hne := hmore.fresh a ha
      rw [Function.update_of_ne (by omega)]
      exact hk.object a ha

/-- Every object has a block in use, and its pointer is behind the header of
that block. -/
theorem Keeps.exists_block (hk : Keeps h us objs) {p : Nat} (hp : (objs p).isSome) :
    ∃ a ∈ us, p = h.heapPtr + a.1 + 12 := by
  obtain ⟨l, hl⟩ := Option.isSome_iff_exists.mp hp
  obtain ⟨a, ha, hpa, -⟩ := hk.block p l hl
  exact ⟨a, ha, hpa⟩

/-- The objects are where the blocks in use are. -/
theorem Keeps.isSome_iff (hk : Keeps h us objs) (p : Nat) :
    (objs p).isSome ↔ ∃ a ∈ us, p = h.heapPtr + a.1 + 12 :=
  ⟨hk.exists_block, fun ⟨a, ha, hp⟩ => hp ▸ hk.object a ha⟩

variable {bs pre mid post : List Blk}

/-! ## The blocks at a cut -/

/-- Marking one block as used adds it to those in use. -/
theorem Tiled.oneMore (ht : Tiled h (pre ++ ⟨n, true⟩ :: post)) :
    OneMore (BlockList.extent pre) n (usedBlocks 0 (pre ++ ⟨n, false⟩ :: post))
      (usedBlocks 0 (pre ++ ⟨n, true⟩ :: post)) where
  mem_iff a := by
    simp only [usedBlocks_middle, Nat.zero_add, List.mem_append, if_true,
      Bool.false_eq_true, if_false,
      List.mem_singleton, List.not_mem_nil, false_or]
    exact or_left_comm
  fresh a ha := by
    have hn : 16 ≤ n := (ht.sizes ⟨n, true⟩ (by simp)).1
    simp only [usedBlocks_middle, Nat.zero_add, List.mem_append, Bool.false_eq_true, if_false,
      List.not_mem_nil, false_or] at ha
    rcases ha with ha | ha
    · obtain ⟨xs, ys, hpre, -⟩ := mem_usedBlocks.mp ha
      have ha2 : 16 ≤ a.2 := (ht.sizes ⟨a.2, true⟩ (by simp [hpre])).1
      have hle := (usedBlocks_within ha).2
      omega
    · have hle := (usedBlocks_within ha).1
      omega

/-- An object has a block in use in the list, which is cut there. -/
theorem Keeps.exists_cut (hk : Keeps h (usedBlocks 0 bs) objs) {p : Nat} (hp : (objs p).isSome) :
    ∃ pre n post, bs = pre ++ ⟨n, true⟩ :: post ∧ p = h.heapPtr + BlockList.extent pre + 12 := by
  obtain ⟨a, ha, hpa⟩ := hk.exists_block hp
  obtain ⟨pre, post, hbs, hs⟩ := mem_usedBlocks.mp ha
  rw [Nat.zero_add] at hs
  exact ⟨pre, a.2, post, hbs, hs ▸ hpa⟩

/-- Changes of the memory that leave the headers alone. -/
theorem Repr.of_headers (hr : Repr h bs) {memory : Memory}
    (hheader : ∀ q, q ∈ starts 0 bs ∨ q = h.heapEnd → ∀ i, i < 12 →
      memory (h.heapPtr + q + i) = h.memory (h.heapPtr + q + i)) :
    Repr { h with memory := memory } bs := by
  have hload : ∀ q, q ∈ starts 0 bs ∨ q = h.heapEnd → ∀ off n, off + n ≤ 12 →
      memory.load (h.heapPtr + q + off) n = h.memory.load (h.heapPtr + q + off) n := by
    intro q hq off n hle
    refine Memory.load_congr fun i hi => ?_
    rw [Nat.add_assoc]
    exact hheader q hq (off + i) (by omega)
  refine ⟨⟨hr.tiled.tiles.congr fun q hq => ?_, hr.tiled.extent, hr.tiled.sizes, ?_,
    hr.tiled.heapEnd, hr.tiled.fits⟩, hr.compact, hr.lfree, hr.usedMem, hr.maxMem⟩
  · simp only [header, used, next, prev]
    rw [hload q (.inl hq) 2 2 (by omega), hload q (.inl hq) 4 4 (by omega),
      hload q (.inl hq) 8 4 (by omega)]
  · have hsentinel := hr.tiled.sentinel
    simp only [used] at hsentinel ⊢
    rwa [hload _ (.inr rfl) 2 2 (by omega)]

/-- Writing within the data of one block keeps the heap right. -/
theorem Repr.writeData (hr : Repr h (pre ++ ⟨n, true⟩ :: post)) {memory : Memory}
    (hmemory : ∀ x, (x < h.heapPtr + BlockList.extent pre + 12 ∨
      h.heapPtr + BlockList.extent pre + n ≤ x) → memory x = h.memory x) :
    Repr { h with memory := memory } (pre ++ ⟨n, true⟩ :: post) := by
  refine hr.of_headers fun q hq i hi => hmemory _ ?_
  have hend := hr.tiled.extent_le
  rw [extent_cons] at hend
  dsimp only at hend
  rcases hq with hq | rfl
  · have hapart := apart_of_mem_starts hr.tiled.size_le hq
    dsimp only at hapart
    omega
  · omega

/-- Writing within the data of one block keeps the objects of the others. -/
theorem Keeps.writeData (hr : Repr h (pre ++ ⟨n, true⟩ :: post)) {memory : Memory}
    (hk : Keeps h (usedBlocks 0 (pre ++ ⟨n, true⟩ :: post)) objs)
    (hmemory : ∀ x, (x < h.heapPtr + BlockList.extent pre + 12 ∨
      h.heapPtr + BlockList.extent pre + n ≤ x) → memory x = h.memory x)
    (hne : l ≠ []) (hlen : l.length + 12 ≤ n)
    (hpeek : memory.peek (h.heapPtr + BlockList.extent pre + 12) l.length = l) :
    Keeps { h with memory := memory } (usedBlocks 0 (pre ++ ⟨n, true⟩ :: post))
      (Function.update objs (h.heapPtr + BlockList.extent pre + 12) (some l)) := by
  have hmore := hr.tiled.oneMore
  have hothers : Keeps { h with memory := memory } (usedBlocks 0 (pre ++ ⟨n, false⟩ :: post))
      (Function.update objs (h.heapPtr + BlockList.extent pre + 12) none) := by
    refine (hk.drop hmore).frame rfl fun a ha x hlo hhi => hmemory x ?_
    have hin := (hmore.mem_iff a).mpr (.inr ha)
    have hthis := (hmore.mem_iff (BlockList.extent pre, n)).mpr (.inl rfl)
    have hne := hmore.fresh a ha
    rcases usedBlocks_apart hin hthis with rfl | hbefore | hbehind
    · exact absurd rfl hne
    · dsimp only at hbefore
      omega
    · dsimp only at hbehind
      omega
  have hadd := hothers.add hmore hne hlen hpeek
  rwa [Function.update_idem] at hadd

end Heap

end Ch583Kbd.Rtt
