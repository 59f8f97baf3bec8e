/-
Ch583Kbd.Rtt.MemBlocks — the heap as a list of blocks.

`Tiled h bs`: the headers in the memory chain the blocks `bs` from the start
of the heap to `heap_end`. `Repr h bs` adds what holds between two calls:
`lfree` is the lowest free block, no two free blocks are adjacent and
`used_mem` is the extent of the blocks in use. Every function of `mem.c`
edits headers only (`Edits`), and each has one lemma here that says which
list it leaves behind.
-/
import Ch583Kbd.Rtt.Mem
import Ch583Kbd.Lib.BlockList

namespace Ch583Kbd.Rtt

open Ch583Kbd.Lib BlockList

/-- A 32-bit difference that is not negative is the difference. -/
theorem sub32_eq {a b : Nat} (hle : b ≤ a) (hlt : a < 2 ^ 32) : sub32 a b = a - b := by
  unfold sub32
  omega

/-- Up to the last word of the address space `RT_ALIGN` rounds up to a multiple
of four. -/
theorem rtAlign_eq {size : Nat} (h : size ≤ 2 ^ 32 - rtAlignSize) :
    rtAlign size = (size + 3) / 4 * 4 := by
  have hlt : size + 3 < 2 ^ 32 := by
    simp only [rtAlignSize] at h
    omega
  show (size + 3) % 2 ^ 32 / 4 * 4 = _
  rw [Nat.mod_eq_of_lt hlt]

namespace Heap

/-- The header that the memory has at an offset. -/
def header (h : Heap) (p : Nat) : Header := ⟨h.used p != 0, h.next p, h.prev p⟩

variable {h h' h'' : Heap} {p q v : Nat} {ps qs : List Nat}

/-! ## One field -/

theorem header_setMagic : (h.setMagic p v).header p = h.header p := by
  simp only [header, used, next, prev, setMagic]
  rw [Memory.load_store_other (.inr (by omega)), Memory.load_store_other (.inr (by omega)),
    Memory.load_store_other (.inr (by omega))]

theorem header_setUsed (hv : v < 2 ^ 16) :
    (h.setUsed p v).header p = { h.header p with used := v != 0 } := by
  simp only [header, used, next, prev, setUsed]
  rw [Memory.load_store hv, Memory.load_store_other (.inr (by omega)),
    Memory.load_store_other (.inr (by omega))]

theorem header_setNext (hv : v < 2 ^ 32) :
    (h.setNext p v).header p = { h.header p with next := v } := by
  simp only [header, used, next, prev, setNext]
  rw [Memory.load_store hv, Memory.load_store_other (.inl (by omega)),
    Memory.load_store_other (.inr (by omega))]

theorem header_setPrev (hv : v < 2 ^ 32) :
    (h.setPrev p v).header p = { h.header p with prev := v } := by
  simp only [header, used, next, prev, setPrev]
  rw [Memory.load_store hv, Memory.load_store_other (.inl (by omega)),
    Memory.load_store_other (.inl (by omega))]

/-! ## Which bytes change -/

/-- Nothing but headers at `ps` has changed in the memory. -/
structure Edits (ps : List Nat) (h h' : Heap) : Prop where
  heapPtr : h'.heapPtr = h.heapPtr
  heapEnd : h'.heapEnd = h.heapEnd
  memSizeAligned : h'.memSizeAligned = h.memSizeAligned
  memory : ∀ x, (∀ p ∈ ps, x < h.heapPtr + p ∨ h.heapPtr + p + 12 ≤ x) → h'.memory x = h.memory x

namespace Edits

theorem refl (ps : List Nat) (h : Heap) : Edits ps h h := ⟨rfl, rfl, rfl, fun _ _ => rfl⟩

theorem trans (h1 : Edits ps h h') (h2 : Edits ps h' h'') : Edits ps h h'' where
  heapPtr := h2.heapPtr.trans h1.heapPtr
  heapEnd := h2.heapEnd.trans h1.heapEnd
  memSizeAligned := h2.memSizeAligned.trans h1.memSizeAligned
  memory x hx := (h2.memory x (h1.heapPtr ▸ hx)).trans (h1.memory x hx)

theorem mono (h1 : Edits ps h h') (hsub : ∀ p ∈ ps, p ∈ qs) : Edits qs h h' :=
  ⟨h1.heapPtr, h1.heapEnd, h1.memSizeAligned, fun x hx =>
    h1.memory x fun p hp => hx p (hsub p hp)⟩

/-- A header that lies apart from those edited is as it was. -/
theorem header (h1 : Edits ps h h') (hq : ∀ p ∈ ps, q + 12 ≤ p ∨ p + 12 ≤ q) :
    h'.header q = h.header q := by
  have hbyte : ∀ i, i < 12 → h'.memory (h.heapPtr + q + i) = h.memory (h.heapPtr + q + i) := by
    intro i hi
    refine h1.memory _ fun p hp => ?_
    have := hq p hp
    omega
  have hload : ∀ off n, off + n ≤ 12 →
      h'.memory.load (h.heapPtr + q + off) n = h.memory.load (h.heapPtr + q + off) n := by
    intro off n hle
    refine Memory.load_congr fun i hi => ?_
    rw [Nat.add_assoc]
    exact hbyte (off + i) (by omega)
  simp only [Heap.header, used, next, prev, h1.heapPtr]
  rw [hload 2 2 (by omega), hload 4 4 (by omega), hload 8 4 (by omega)]

end Edits

/-- Storing inside the 12 bytes of a header changes that header only. -/
theorem edits_store (off : Nat) {n : Nat} (hoff : off + n ≤ 12) (hp : p ∈ ps) :
    Edits ps h { h with memory := h.memory.store (h.heapPtr + p + off) n v } where
  heapPtr := rfl
  heapEnd := rfl
  memSizeAligned := rfl
  memory x hx := Memory.store_other (by have := hx p hp; omega)

theorem edits_setMagic (hp : p ∈ ps) : Edits ps h (h.setMagic p v) :=
  edits_store 0 (by omega) hp
theorem edits_setUsed (hp : p ∈ ps) : Edits ps h (h.setUsed p v) := edits_store 2 (by omega) hp
theorem edits_setNext (hp : p ∈ ps) : Edits ps h (h.setNext p v) := edits_store 4 (by omega) hp
theorem edits_setPrev (hp : p ∈ ps) : Edits ps h (h.setPrev p v) := edits_store 8 (by omega) hp

/-! ## The chain of blocks -/

/-- A block has a header and some data, and ends at an aligned offset. -/
def BlockSize (size : Nat) : Prop := 16 ≤ size ∧ 4 ∣ size

/-- Two blocks joined have a size a block may have. -/
theorem BlockSize.add {a c : Nat} (ha : BlockSize a) (hc : BlockSize c) : BlockSize (a + c) :=
  ⟨Nat.le_trans ha.1 (Nat.le_add_right a c), Nat.dvd_add ha.2 hc.2⟩

/-- The headers in the memory chain the blocks, from the start of the heap
to `heap_end`. -/
structure Tiled (h : Heap) (bs : List Blk) : Prop where
  tiles : Tiles h.header 0 0 bs
  extent : extent bs = h.heapEnd
  sizes : ∀ b ∈ bs, BlockSize b.size
  /-- "the last entry, always unused!" is marked as used. -/
  sentinel : h.used h.heapEnd ≠ 0
  heapEnd : h.heapEnd = h.memSizeAligned + 12
  fits : h.heapPtr + h.heapEnd + 12 ≤ 2 ^ 32

variable {bs pre mid mid' post xs ys : List Blk} {a : Nat} {b c : Blk}

theorem Tiled.size_le (ht : Tiled h bs) : ∀ b ∈ bs, 12 ≤ b.size := fun b hb =>
  Nat.le_trans (by decide) (ht.sizes b hb).1

/-- The chain depends on the memory and the bounds of the heap only. -/
theorem Tiled.of_memory (ht : Tiled h bs) (hmemory : h'.memory = h.memory)
    (hptr : h'.heapPtr = h.heapPtr) (hend : h'.heapEnd = h.heapEnd)
    (hsize : h'.memSizeAligned = h.memSizeAligned) : Tiled h' bs := by
  cases h
  cases h'
  cases hmemory
  cases hptr
  cases hend
  cases hsize
  exact ⟨ht.tiles, ht.extent, ht.sizes, ht.sentinel, ht.heapEnd, ht.fits⟩

/-- The header of a block says whether it is in use, where the next one starts
and where the one before. -/
theorem Tiled.header_eq (ht : Tiled h (pre ++ b :: post)) : h.header (BlockList.extent pre) =
    ⟨b.used, BlockList.extent pre + b.size, lastStart 0 0 pre⟩ := by
  have htiles := (tiles_append.mp ht.tiles).2
  rw [Nat.zero_add] at htiles
  exact htiles.1

theorem Tiled.next_eq (ht : Tiled h (pre ++ b :: post)) :
    h.next (BlockList.extent pre) = BlockList.extent pre + b.size :=
  congrArg Header.next ht.header_eq

theorem Tiled.prev_eq (ht : Tiled h (pre ++ b :: post)) :
    h.prev (BlockList.extent pre) = lastStart 0 0 pre :=
  congrArg Header.prev ht.header_eq

/-- The flag in the header is that of the block. -/
theorem Tiled.used_iff (ht : Tiled h (pre ++ b :: post)) :
    h.used (BlockList.extent pre) ≠ 0 ↔ b.used = true := by
  have hused := congrArg Header.used ht.header_eq
  simp only [header] at hused
  rw [← hused, bne_iff_ne]

/-- The blocks before and behind a cut make up the heap. -/
theorem Tiled.extent_le (ht : Tiled h (pre ++ post)) :
    BlockList.extent pre + BlockList.extent post = h.heapEnd := by
  rw [← ht.extent, extent_append]

/-- Some blocks are replaced by others of the same extent, by editing
headers from the first of them to the back link behind them. -/
theorem Tiled.splice (mid mid' : List Blk) (ht : Tiled h (pre ++ (mid ++ post)))
    (he : Edits ps h h')
    (hps : ∀ p ∈ ps, BlockList.extent pre ≤ p ∧ p ≤ BlockList.extent pre + BlockList.extent mid)
    (hextent : BlockList.extent mid' = BlockList.extent mid) (hsizes : ∀ b ∈ mid', BlockSize b.size)
    (hmid : Tiles h'.header (lastStart 0 0 pre) (BlockList.extent pre) mid')
    (hused : (h'.header (BlockList.extent pre + BlockList.extent mid)).used =
      (h.header (BlockList.extent pre + BlockList.extent mid)).used)
    (hback : post ≠ [] → h'.header (BlockList.extent pre + BlockList.extent mid) =
      { h.header (BlockList.extent pre + BlockList.extent mid) with
        prev := lastStart (lastStart 0 0 pre) (BlockList.extent pre) mid' }) :
    Tiled h' (pre ++ (mid' ++ post)) where
  tiles := by
    have hpost : ∀ b ∈ post, 12 ≤ b.size := fun b hb => ht.size_le b (by simp [hb])
    have hpre : ∀ b ∈ pre, 12 ≤ b.size := fun b hb => ht.size_le b (by simp [hb])
    refine Tiles.splice (by omega) hpost ht.tiles hextent ?_ ?_ (fun a ha => ?_) fun a ha hne => ?_
    · rwa [Nat.zero_add]
    · rwa [Nat.zero_add]
    · have hle := starts_add_le hpre ha
      refine he.header fun p hp => .inl ?_
      have := (hps p hp).1
      omega
    · -- behind the back link the headers are out of reach
      rw [Nat.zero_add] at ha hne
      cases post with
      | nil => simp [starts] at ha
      | cons c post =>
        have hc := hpost c List.mem_cons_self
        rw [starts, List.mem_cons] at ha
        have hle := starts_le (ha.resolve_left hne)
        refine he.header fun p hp => .inr ?_
        have := (hps p hp).2
        omega
  extent := by
    rw [he.heapEnd, ← ht.extent]
    simp [hextent]
  sizes b hb := by
    simp only [List.mem_append] at hb
    rcases hb with hb | hb | hb
    · exact ht.sizes b (by simp [hb])
    · exact hsizes b hb
    · exact ht.sizes b (by simp [hb])
  sentinel := by
    rw [he.heapEnd]
    have hend := ht.extent
    rw [extent_append, extent_append, ← Nat.add_assoc] at hend
    have hold : (h.header h.heapEnd).used = true := bne_iff_ne.mpr ht.sentinel
    refine bne_iff_ne.mp (?_ : (h'.header h.heapEnd).used = true)
    cases post with
    | nil =>
      rw [extent_nil, Nat.add_zero] at hend
      rw [← hend, hused, hend, hold]
    | cons c post =>
      have hc := ht.size_le c (by simp)
      rw [extent_cons] at hend
      rw [he.header fun p hp => .inr ?_, hold]
      have := (hps p hp).2
      omega
  heapEnd := by rw [he.heapEnd, he.memSizeAligned, ht.heapEnd]
  fits := by rw [he.heapPtr, he.heapEnd]; exact ht.fits

/-- The data of the blocks in use has not changed. -/
structure SameData (bs : List Blk) (h h' : Heap) : Prop where
  heapPtr : h'.heapPtr = h.heapPtr
  heapEnd : h'.heapEnd = h.heapEnd
  memSizeAligned : h'.memSizeAligned = h.memSizeAligned
  data : ∀ a ∈ usedBlocks 0 bs, ∀ x, h.heapPtr + a.1 + 12 ≤ x → x < h.heapPtr + a.1 + a.2 →
    h'.memory x = h.memory x

/-- The data of blocks in use before both changes survives both. -/
theorem SameData.trans {bs' : List Blk} (h1 : SameData bs h h') (h2 : SameData bs' h' h'')
    (hused : ∀ a ∈ usedBlocks 0 bs, a ∈ usedBlocks 0 bs') : SameData bs h h'' where
  heapPtr := h2.heapPtr.trans h1.heapPtr
  heapEnd := h2.heapEnd.trans h1.heapEnd
  memSizeAligned := h2.memSizeAligned.trans h1.memSizeAligned
  data a ha x hlo hhi := by
    rw [h2.data a (hused a ha) x (h1.heapPtr ▸ hlo) (h1.heapPtr ▸ hhi), h1.data a ha x hlo hhi]

/-- Editing headers of blocks, or the one of `heap_end`, changes no data. -/
theorem Edits.sameData (he : Edits ps h h') (hsizes : ∀ b ∈ bs, 12 ≤ b.size)
    (hextent : BlockList.extent bs = h.heapEnd)
    (hps : ∀ p ∈ ps, p ∈ starts 0 bs ∨ p = h.heapEnd) : SameData bs h h' where
  heapPtr := he.heapPtr
  heapEnd := he.heapEnd
  memSizeAligned := he.memSizeAligned
  data := by
    rintro ⟨s, n⟩ ha x hlo hhi
    obtain ⟨xs, ys, hbs, hs⟩ := mem_usedBlocks.mp ha
    dsimp only at hs hbs hlo hhi
    rw [Nat.zero_add] at hs
    refine he.memory x fun p hp => ?_
    rcases hps p hp with hstart | rfl
    · rw [hbs] at hstart hsizes
      have hcases := apart_of_mem_starts hsizes hstart
      dsimp only at hcases
      omega
    · rw [← hextent, hbs, extent_append, extent_cons]
      dsimp only
      omega

/-! ## `plug_holes` -/

/-- The two writes that make one block of two. -/
def joinAt (h : Heap) (p e : Nat) : Heap := (h.setNext p e).setPrev e p

/-- Joining two adjacent free blocks changes two headers and keeps the chain. -/
theorem Tiled.joinAt {c : Nat} (ht : Tiled h (pre ++ ⟨a, false⟩ :: ⟨c, false⟩ :: post)) :
    Tiled (h.joinAt (BlockList.extent pre) (BlockList.extent pre + (a + c)))
        (pre ++ ⟨a + c, false⟩ :: post) ∧
      Edits [BlockList.extent pre, BlockList.extent pre + (a + c)] h
        (h.joinAt (BlockList.extent pre) (BlockList.extent pre + (a + c))) := by
  generalize hp : BlockList.extent pre = p
  have ha := ht.sizes ⟨a, false⟩ (by simp)
  have hc := ht.sizes ⟨c, false⟩ (by simp)
  have hfirst := ht.header_eq
  have hend := ht.extent_le
  have hfits := ht.fits
  rw [hp] at hfirst hend
  simp only [extent_cons] at hend
  have ha16 : 16 ≤ a := ha.1
  have hedits : Edits [p, p + (a + c)] h (h.joinAt p (p + (a + c))) :=
    (edits_setNext (by simp)).trans (edits_setPrev (by simp))
  -- the header of the block that stays
  have hheader : (h.joinAt p (p + (a + c))).header p = { h.header p with next := p + (a + c) } := by
    have hapart : (h.joinAt p (p + (a + c))).header p = (h.setNext p (p + (a + c))).header p :=
      (edits_setPrev (List.mem_singleton.mpr rfl)).header fun q hq => by
        have := List.mem_singleton.mp hq
        omega
    rw [hapart, header_setNext (by omega)]
  -- the one behind it
  have hbehind : (h.joinAt p (p + (a + c))).header (p + (a + c)) =
      { h.header (p + (a + c)) with prev := p } := by
    have hapart : (h.setNext p (p + (a + c))).header (p + (a + c)) = h.header (p + (a + c)) :=
      (edits_setNext (List.mem_singleton.mpr rfl)).header fun q hq => by
        have := List.mem_singleton.mp hq
        omega
    rw [Heap.joinAt, header_setPrev (by omega), hapart]
  have hextent : BlockList.extent [⟨a, false⟩, ⟨c, false⟩] = a + c := by simp
  refine ⟨?_, hedits⟩
  refine Tiled.splice [⟨a, false⟩, ⟨c, false⟩] [⟨a + c, false⟩] (by simpa using ht) hedits
    (fun q hq => ?_) (by simp) (fun b hb => ?_) ⟨?_, trivial⟩ ?_ fun _ => ?_
  · rw [hp, hextent]
    simp only [List.mem_cons, List.not_mem_nil, or_false] at hq
    omega
  · rw [List.mem_singleton.mp hb]
    exact ha.add hc
  · rw [hp, hheader, hfirst]
  · rw [hp, hextent, hbehind]
  · rw [hp, hextent, hbehind]
    rfl

/-- What plugging holes leaves behind: a chain with the same blocks in use, and
their data. -/
structure Plugged (bs bs' : List Blk) (h h' : Heap) : Prop where
  tiled : Tiled h' bs'
  sameUse : SameUse bs bs'
  lfree : h'.lfree = h.lfree
  usedMem : h'.usedMem = h.usedMem
  maxMem : h'.maxMem = h.maxMem
  sameData : SameData bs h h'

theorem Tiled.plugged_refl (ht : Tiled h bs) : Plugged bs bs h h :=
  ⟨ht, .refl bs, rfl, rfl, rfl, (Edits.refl [] h).sameData ht.size_le ht.extent nofun⟩

theorem Plugged.trans {bs' bs'' : List Blk} (h1 : Plugged bs bs' h h')
    (h2 : Plugged bs' bs'' h' h'') : Plugged bs bs'' h h'' where
  tiled := h2.tiled
  sameUse := h1.sameUse.trans h2.sameUse
  lfree := h2.lfree.trans h1.lfree
  usedMem := h2.usedMem.trans h1.usedMem
  maxMem := h2.maxMem.trans h1.maxMem
  sameData := h1.sameData.trans h2.sameData fun _ ha => h1.sameUse.usedBlocks 0 ▸ ha

/-- A join changes neither what is in use nor its data. -/
theorem Tiled.plugged_joinAt {c : Nat} (ht : Tiled h (pre ++ ⟨a, false⟩ :: ⟨c, false⟩ :: post)) :
    Plugged (pre ++ ⟨a, false⟩ :: ⟨c, false⟩ :: post) (pre ++ ⟨a + c, false⟩ :: post) h
      (h.joinAt (BlockList.extent pre) (BlockList.extent pre + (a + c))) := by
  obtain ⟨htiled, hedits⟩ := ht.joinAt
  refine ⟨htiled, sameUse_join pre a c post, rfl, rfl, rfl, hedits.sameData ht.size_le ht.extent ?_⟩
  intro p hp
  simp only [List.mem_cons, List.not_mem_nil, or_false] at hp
  rw [← ht.extent]
  rcases hp with rfl | rfl
  · have hcut := cut_mem_starts 0 pre (⟨a, false⟩ :: ⟨c, false⟩ :: post)
    rwa [Nat.zero_add] at hcut
  · have hcut := cut_mem_starts 0 (pre ++ [⟨a, false⟩, ⟨c, false⟩]) post
    simpa using hcut

/-- Forward: the next block is in use, or it is joined. -/
theorem Tiled.plugForward (ht : Tiled h (pre ++ ⟨a, false⟩ :: post))
    (hlfree : h.lfree ≤ BlockList.extent pre) (hpost : Compact post) :
    ∃ a' post', Plugged (pre ++ ⟨a, false⟩ :: post) (pre ++ ⟨a', false⟩ :: post') h
        (h.plugForward (BlockList.extent pre)) ∧
      Compact post' ∧ ∀ c ∈ post'.head?, c.used = true := by
  have hnext : h.next (BlockList.extent pre) = BlockList.extent pre + a := ht.next_eq
  have ha : 16 ≤ a := (ht.sizes ⟨a, false⟩ (by simp)).1
  cases post with
  | nil =>
    have hend : BlockList.extent pre + a = h.heapEnd := by
      rw [← ht.extent_le]
      rfl
    -- the last block has the end of the heap behind it
    have hsame : h.plugForward (BlockList.extent pre) = h := by
      rw [Heap.plugForward, hnext, hend]
      exact if_neg fun hcond => hcond.2.2 rfl
    exact ⟨a, [], hsame.symm ▸ ht.plugged_refl, hpost, nofun⟩
  | cons c post =>
    obtain ⟨c, used⟩ := c
    have ht' : Tiled h ((pre ++ [⟨a, false⟩]) ++ ⟨c, used⟩ :: post) := by simpa using ht
    have hpos : BlockList.extent (pre ++ [⟨a, false⟩]) = BlockList.extent pre + a := by simp
    have husedIff := ht'.used_iff
    have hnextc := ht'.next_eq
    rw [hpos] at husedIff hnextc
    cases used with
    | true =>
      have hsame : h.plugForward (BlockList.extent pre) = h := by
        rw [Heap.plugForward, hnext]
        exact if_neg fun hcond => husedIff.mpr rfl hcond.2.1
      exact ⟨a, ⟨c, true⟩ :: post, hsame.symm ▸ ht.plugged_refl, hpost,
        fun d hd => Option.some.inj hd ▸ rfl⟩
    | false =>
      -- `lfree` is not the block that goes, so `plug_holes` leaves it
      have hlow : h.lfree ≠ BlockList.extent pre + a := by omega
      have hcond : BlockList.extent pre ≠ BlockList.extent pre + a ∧
          h.used (BlockList.extent pre + a) = 0 ∧ BlockList.extent pre + a ≠ h.heapEnd := by
        refine ⟨by omega, ?_, ?_⟩
        · by_contra hne
          exact absurd (husedIff.mp hne) Bool.false_ne_true
        · have hend := ht'.extent_le
          have hc := ht.size_le ⟨c, false⟩ (by simp)
          simp only [extent_append, extent_cons, extent_nil] at hend hc
          omega
      have hnextc : h.next (BlockList.extent pre + a) = BlockList.extent pre + (a + c) :=
        hnextc.trans (Nat.add_assoc _ _ _)
      have hheader : (h.setNext (BlockList.extent pre) (BlockList.extent pre + (a + c))).header
          (BlockList.extent pre + a) = h.header (BlockList.extent pre + a) :=
        (edits_setNext (List.mem_singleton.mpr rfl)).header fun q hq => by
          have := List.mem_singleton.mp hq
          omega
      have hnext2 : (h.setNext (BlockList.extent pre) (BlockList.extent pre + (a + c))).next
          (BlockList.extent pre + a) = BlockList.extent pre + (a + c) :=
        (congrArg Header.next hheader).trans hnextc
      have hjoin : h.plugForward (BlockList.extent pre) =
          h.joinAt (BlockList.extent pre) (BlockList.extent pre + (a + c)) := by
        rw [Heap.plugForward, hnext]
        simp only [if_pos hcond, if_neg hlow, hnextc, hnext2, Heap.joinAt]
      obtain ⟨hpost, hhead⟩ := compact_cons.mp hpost
      exact ⟨a + c, post, hjoin.symm ▸ ht.plugged_joinAt, hpost,
        hhead.resolve_left Bool.false_ne_true⟩

/-- Backward: the block before is in use, or it is joined. -/
theorem Tiled.plugBackward (ht : Tiled h (pre ++ ⟨a, false⟩ :: post))
    (hlfree : h.lfree = lowestFree 0 (pre ++ ⟨a, false⟩ :: post)) (hpre : Compact pre) :
    ∃ pre' a', Plugged (pre ++ ⟨a, false⟩ :: post) (pre' ++ ⟨a', false⟩ :: post) h
        (h.plugBackward (BlockList.extent pre)) ∧
      Compact pre' ∧ ∀ c ∈ pre'.getLast?, c.used = true := by
  have hprev : h.prev (BlockList.extent pre) = lastStart 0 0 pre := ht.prev_eq
  have hnext : h.next (BlockList.extent pre) = BlockList.extent pre + a := ht.next_eq
  rcases List.eq_nil_or_concat pre with rfl | ⟨pre, c, rfl⟩
  · -- the first block's back link points to itself
    have hsame : h.plugBackward (BlockList.extent []) = h := by
      rw [Heap.plugBackward, hprev]
      exact if_neg fun hcond => hcond.1 rfl
    exact ⟨[], a, hsame.symm ▸ ht.plugged_refl, hpre, nofun⟩
  · obtain ⟨c, used⟩ := c
    rw [List.concat_eq_append] at *
    have ht' : Tiled h (pre ++ ⟨c, used⟩ :: ⟨a, false⟩ :: post) := by simpa using ht
    have hlast : lastStart 0 0 (pre ++ [⟨c, used⟩]) = BlockList.extent pre := by
      rw [lastStart_append, Nat.zero_add]
      rfl
    have hpos : BlockList.extent (pre ++ [⟨c, used⟩]) = BlockList.extent pre + c := by simp
    have hc : 12 ≤ c := ht'.size_le ⟨c, used⟩ (by simp)
    rw [hlast] at hprev
    have husedIff := ht'.used_iff
    cases used with
    | true =>
      have hsame : h.plugBackward (BlockList.extent (pre ++ [⟨c, true⟩])) = h := by
        rw [Heap.plugBackward, hprev]
        exact if_neg fun hcond => husedIff.mpr rfl hcond.2
      refine ⟨_, a, hsame.symm ▸ ht.plugged_refl, hpre, fun d hd => ?_⟩
      rw [List.getLast?_concat] at hd
      exact Option.some.inj hd ▸ rfl
    | false =>
      rw [hpos] at hprev hnext ⊢
      -- `lfree` is at the block before or lower
      have hlow : h.lfree ≠ BlockList.extent pre + c := by
        have hle := lowestFree_le_of_free 0 pre (⟨a, false⟩ :: post) (b := ⟨c, false⟩) rfl
        rw [hlfree, List.append_assoc, List.singleton_append]
        omega
      have hcond : BlockList.extent pre ≠ BlockList.extent pre + c ∧
          h.used (BlockList.extent pre) = 0 := by
        refine ⟨by omega, ?_⟩
        by_contra hne
        exact absurd (husedIff.mp hne) Bool.false_ne_true
      have hheader : (h.setNext (BlockList.extent pre) (BlockList.extent pre + (c + a))).header
          (BlockList.extent pre + c) = h.header (BlockList.extent pre + c) :=
        (edits_setNext (List.mem_singleton.mpr rfl)).header fun q hq => by
          have := List.mem_singleton.mp hq
          omega
      rw [Nat.add_assoc] at hnext
      have hnext2 : (h.setNext (BlockList.extent pre) (BlockList.extent pre + (c + a))).next
          (BlockList.extent pre + c) = BlockList.extent pre + (c + a) :=
        (congrArg Header.next hheader).trans hnext
      have hjoin : h.plugBackward (BlockList.extent pre + c) =
          h.joinAt (BlockList.extent pre) (BlockList.extent pre + (c + a)) := by
        rw [Heap.plugBackward, hprev]
        simp only [if_pos hcond, if_neg hlow, hnext, hnext2, Heap.joinAt]
      obtain ⟨hpre, -, hlast⟩ := compact_middle.mp hpre
      refine ⟨pre, c + a, ?_, hpre, (hlast.resolve_left Bool.false_ne_true).1⟩
      rw [hjoin, List.append_assoc]
      exact ht'.plugged_joinAt

/-- What `plug_holes` leaves behind: the same blocks in use, and no two
adjacent free ones. -/
theorem Tiled.plugHoles (ht : Tiled h (pre ++ ⟨a, false⟩ :: post))
    (hlfree : h.lfree = lowestFree 0 (pre ++ ⟨a, false⟩ :: post)) (hpre : Compact pre)
    (hpost : Compact post) :
    ∃ bs', Plugged (pre ++ ⟨a, false⟩ :: post) bs' h (h.plugHoles (BlockList.extent pre)) ∧
      Compact bs' := by
  have hle : h.lfree ≤ BlockList.extent pre := by
    have hfree := lowestFree_le_of_free 0 pre post (b := ⟨a, false⟩) rfl
    omega
  obtain ⟨a1, post1, hforward, hpost1, hhead⟩ := ht.plugForward hle hpost
  have hlfree1 : (h.plugForward (BlockList.extent pre)).lfree =
      lowestFree 0 (pre ++ ⟨a1, false⟩ :: post1) := by
    rw [hforward.lfree, hlfree, hforward.sameUse.lowestFree]
  obtain ⟨pre2, a2, hbackward, hpre2, hlast⟩ := hforward.tiled.plugBackward hlfree1 hpre
  exact ⟨_, hforward.trans hbackward, compact_middle.mpr ⟨hpre2, hpost1, .inr ⟨hlast, hhead⟩⟩⟩

/-! ## Marking a block -/

/-- The header behind a block has its back link on that block. -/
theorem Tiled.header_behind (ht : Tiled h (pre ++ b :: post)) (hpost : post ≠ []) :
    h.header (BlockList.extent pre + b.size) =
      { h.header (BlockList.extent pre + b.size) with prev := BlockList.extent pre } := by
  obtain ⟨c, post, rfl⟩ := List.exists_cons_of_ne_nil hpost
  have ht' : Tiled h ((pre ++ [b]) ++ c :: post) := by simpa using ht
  have hheader := ht'.header_eq
  rw [lastStart_append, Nat.zero_add, extent_append] at hheader
  simp only [extent_cons, extent_nil, Nat.add_zero] at hheader
  rw [hheader]
  rfl

/-- Changing the flag in a header changes that of its block. -/
theorem Tiled.mark {u : Bool} (ht : Tiled h (pre ++ b :: post))
    (he : Edits [BlockList.extent pre] h h')
    (hheader : h'.header (BlockList.extent pre) =
    { h.header (BlockList.extent pre) with used := u }) :
    Tiled h' (pre ++ ⟨b.size, u⟩ :: post) := by
  have hb := ht.sizes b (by simp)
  have hb16 : 16 ≤ b.size := hb.1
  have hbehind : h'.header (BlockList.extent pre + b.size) =
      h.header (BlockList.extent pre + b.size) := by
    refine he.header fun q hq => ?_
    have := List.mem_singleton.mp hq
    omega
  have hextent : BlockList.extent [b] = b.size := by simp
  refine Tiled.splice [b] [⟨b.size, u⟩] (by simpa using ht) he (fun q hq => ?_)
    (by simp) (fun c hc => ?_) ⟨?_, trivial⟩ ?_ fun hpost => ?_
  · have := List.mem_singleton.mp hq
    omega
  · rw [List.mem_singleton.mp hc]
    exact hb
  · rw [hheader, ht.header_eq]
  · rw [hextent, hbehind]
  · rw [hextent, hbehind]
    exact ht.header_behind hpost

/-! ## `rt_free` -/

/-- **What holds between two calls**: the headers chain the blocks, no two free
ones are adjacent, `lfree` is the lowest free one, and the counters are right. -/
structure Repr (h : Heap) (bs : List Blk) : Prop where
  tiled : Tiled h bs
  compact : Compact bs
  lfree : h.lfree = lowestFree 0 bs
  usedMem : h.usedMem = usedTotal bs
  maxMem : h.usedMem ≤ h.maxMem

/-- What is in use fits 32 bits. -/
theorem Tiled.usedTotal_lt (ht : Tiled h bs) : usedTotal bs < 2 ^ 32 := by
  have hle := usedTotal_le bs
  have hfits := ht.fits
  rw [ht.extent] at hle
  omega

/-- `lfree` is lowered to a block that is freed below it. -/
theorem lowerFree_eq (h : Heap) (p : Nat) : h.lowerFree p = { h with lfree := min p h.lfree } := by
  unfold lowerFree
  split
  · rw [Nat.min_eq_left (by omega)]
  · rw [Nat.min_eq_right (by omega)]

/-- A block that has been marked as free joins the free ones around it. -/
theorem Tiled.release {n : Nat} (ht : Tiled h (pre ++ ⟨n, false⟩ :: post))
    (hlfree : h.lfree = lowestFree 0 (pre ++ ⟨n, true⟩ :: post))
    (husedMem : h.usedMem = usedTotal (pre ++ ⟨n, false⟩ :: post)) (hmaxMem : h.usedMem ≤ h.maxMem)
    (hpre : Compact pre) (hpost : Compact post) :
    ∃ bs', Repr ((h.lowerFree (BlockList.extent pre)).plugHoles (BlockList.extent pre)) bs' ∧
      usedBlocks 0 bs' = usedBlocks 0 (pre ++ ⟨n, false⟩ :: post) ∧
      SameData (pre ++ ⟨n, false⟩ :: post) h
        ((h.lowerFree (BlockList.extent pre)).plugHoles (BlockList.extent pre)) := by
  have hlow := lowerFree_eq h (BlockList.extent pre)
  have ht' : Tiled (h.lowerFree (BlockList.extent pre)) (pre ++ ⟨n, false⟩ :: post) := by
    refine ht.of_memory ?_ ?_ ?_ ?_ <;> rw [hlow]
  have hlfree' : (h.lowerFree (BlockList.extent pre)).lfree =
      lowestFree 0 (pre ++ ⟨n, false⟩ :: post) := by
    rw [hlow, lowestFree_release, Nat.zero_add, ← hlfree]
  obtain ⟨bs', hplugged, hcompact⟩ := ht'.plugHoles hlfree' hpre hpost
  have hused := hplugged.usedMem
  have hmax := hplugged.maxMem
  have hdata := hplugged.sameData
  rw [hlow] at hused hmax
  refine ⟨bs', ⟨hplugged.tiled, hcompact, ?_, ?_, ?_⟩, hplugged.sameUse.usedBlocks 0, ?_⟩
  · rw [hplugged.lfree, hplugged.sameUse.lowestFree, hlfree']
  · rw [hlow, hused, hplugged.sameUse.usedTotal]
    exact husedMem
  · rw [hlow, hused, hmax]
    exact hmaxMem
  · have hrefl : SameData (pre ++ ⟨n, false⟩ :: post) h (h.lowerFree (BlockList.extent pre)) := by
      rw [hlow]
      exact ⟨rfl, rfl, rfl, fun _ _ _ _ _ => rfl⟩
    exact hrefl.trans hdata fun _ ha => ha

/-- `rt_free` takes the address of a block for one of the heap, and finds the
header before it. -/
theorem Tiled.legal {n : Nat} {u : Bool} (ht : Tiled h (pre ++ ⟨n, u⟩ :: post)) :
    ¬ h.illegal (h.heapPtr + BlockList.extent pre + 12) ∧
      h.heapPtr + BlockList.extent pre + 12 - h.heapPtr - sizeofStructMem =
        BlockList.extent pre := by
  have hn : 16 ≤ n := (ht.sizes ⟨n, u⟩ (by simp)).1
  have hend := ht.extent_le
  rw [extent_cons] at hend
  simp only [illegal, sizeofStructMem]
  dsimp only at hend
  omega

/-- **`rt_free` of a block in use** frees it, joins it to the free blocks around
it, and leaves the others as they are. -/
theorem Repr.rtFree {n : Nat} (hr : Repr h (pre ++ ⟨n, true⟩ :: post)) :
    ∃ bs', Repr (h.rtFree (h.heapPtr + BlockList.extent pre + 12)) bs' ∧
      usedBlocks 0 bs' = usedBlocks 0 (pre ++ ⟨n, false⟩ :: post) ∧
      SameData (pre ++ ⟨n, false⟩ :: post) h
        (h.rtFree (h.heapPtr + BlockList.extent pre + 12)) := by
  obtain ⟨hlegal, hmem⟩ := hr.tiled.legal
  have hend := hr.tiled.extent_le
  have hfits := hr.tiled.fits
  have htotal := hr.tiled.usedTotal_lt
  rw [extent_cons] at hend
  dsimp only at hend
  generalize hp : BlockList.extent pre = p at *
  -- the block is marked as free
  have he1 : Edits [p] h ((h.setUsed p 0).setMagic p heapMagic) :=
    (edits_setUsed (by simp)).trans (edits_setMagic (by simp))
  have ht1 : Tiled ((h.setUsed p 0).setMagic p heapMagic) (pre ++ ⟨n, false⟩ :: post) := by
    refine hr.tiled.mark (hp ▸ he1) ?_
    rw [hp, header_setMagic, header_setUsed (by omega)]
    rfl
  have hnext : ((h.setUsed p 0).setMagic p heapMagic).next p = p + n := hp ▸ ht1.next_eq
  -- and its extent is taken from `used_mem`
  have husedMem : sub32 h.usedMem (sub32 (p + n) p) = usedTotal (pre ++ ⟨n, false⟩ :: post) := by
    have hsum : usedTotal (pre ++ ⟨n, true⟩ :: post) =
        usedTotal (pre ++ ⟨n, false⟩ :: post) + n := by
      simp only [usedTotal_append, usedTotal, if_true, Bool.false_eq_true, if_false]
      omega
    rw [sub32_eq (a := p + n) (by omega) (by omega), hr.usedMem, sub32_eq (by omega) htotal]
    omega
  obtain ⟨h2, hh2⟩ : ∃ h2 : Heap, h2 = { (h.setUsed p 0).setMagic p heapMagic with
    usedMem := sub32 h.usedMem (sub32 (p + n) p) } := ⟨_, rfl⟩
  have hfree : h.rtFree (h.heapPtr + p + 12) = (h2.lowerFree p).plugHoles p := by
    have hnext' : (((h.setUsed p 0).setMagic p heapMagic).lowerFree p).next p = p + n := by
      rw [lowerFree_eq]
      exact hnext
    rw [Heap.rtFree, if_neg (by omega), if_neg hlegal, hmem]
    dsimp only
    rw [hnext', lowerFree_eq, lowerFree_eq, hh2]
    rfl
  have ht2 : Tiled h2 (pre ++ ⟨n, false⟩ :: post) := by
    refine ht1.of_memory ?_ ?_ ?_ ?_ <;> rw [hh2]
  have hlfree2 : h2.lfree = h.lfree := by rw [hh2]; rfl
  have husedMem2 : h2.usedMem = usedTotal (pre ++ ⟨n, false⟩ :: post) := by rw [hh2]; exact husedMem
  have hmaxMem2 : h2.maxMem = h.maxMem := by rw [hh2]; rfl
  have hle : h2.usedMem ≤ h2.maxMem := by
    have hmax := hr.maxMem
    rw [hr.usedMem] at hmax
    simp only [usedTotal_append, usedTotal, if_true] at hmax
    rw [husedMem2, hmaxMem2]
    simp only [usedTotal_append, usedTotal, Bool.false_eq_true, if_false]
    omega
  obtain ⟨hpre, hpost, -⟩ := compact_middle.mp hr.compact
  obtain ⟨bs', hrepr, hused, hdata⟩ :=
    ht2.release (hlfree2.trans hr.lfree) husedMem2 hle hpre hpost
  rw [hfree, ← hp]
  refine ⟨bs', hrepr, hused, ?_⟩
  have hfirst : SameData (pre ++ ⟨n, false⟩ :: post) h h2 := by
    have he2 : Edits [p] h h2 := by
      rw [hh2]
      exact ⟨he1.heapPtr, he1.heapEnd, he1.memSizeAligned, he1.memory⟩
    refine he2.sameData ht1.size_le (ht1.extent.trans he1.heapEnd) fun q hq => .inl ?_
    rw [List.mem_singleton.mp hq, starts_cut, Nat.zero_add, hp]
    exact List.mem_append_right _ List.mem_cons_self
  exact hfirst.trans hdata fun _ ha => ha

/-! ## The two loops -/

/-- The heap is too small for more blocks than the fuel of the search. -/
theorem Tiled.length_lt (ht : Tiled h bs) (hroom : 12 ≤ h.memSizeAligned) :
    bs.length + 1 ≤ h.memSizeAligned := by
  have hlen : ∀ bs : List Blk, (∀ b ∈ bs, BlockSize b.size) → 16 * bs.length ≤
      BlockList.extent bs := by
    intro bs
    induction bs with
    | nil => simp
    | cons b bs ih =>
      intro hsizes
      have hb : 16 ≤ b.size := (hsizes b List.mem_cons_self).1
      have hrest := ih fun c hc => hsizes c (List.mem_cons_of_mem _ hc)
      rw [List.length_cons, extent_cons]
      omega
  have hlen := hlen bs ht.sizes
  rw [ht.extent, ht.heapEnd] at hlen
  omega

/-- The search of `rt_malloc` is a first fit among the blocks, with fuel for
those left. -/
theorem Tiled.findFree {size fuel : Nat} (ht : Tiled h (xs ++ ys)) (hsize : size ≤ h.memSizeAligned)
    (hfuel : ys.length < fuel) : h.findFree size fuel (BlockList.extent xs) =
      some (firstFit (h.memSizeAligned - size) (size + 12) (BlockList.extent xs) ys) := by
  have hfits := ht.fits
  have hheapEnd := ht.heapEnd
  induction ys generalizing xs fuel with
  | nil =>
    obtain ⟨fuel, rfl⟩ := Nat.exists_eq_succ_of_ne_zero (Nat.ne_of_gt hfuel)
    have hend := ht.extent_le
    rw [extent_nil] at hend
    rw [Heap.findFree, sub32_eq hsize (by omega), if_neg (by omega)]
    rfl
  | cons b ys ih =>
    obtain ⟨fuel, rfl⟩ := Nat.exists_eq_succ_of_ne_zero (Nat.ne_of_gt (Nat.zero_lt_of_lt hfuel))
    have hend := ht.extent_le
    have hb : 16 ≤ b.size := (ht.sizes b (by simp)).1
    rw [extent_cons] at hend
    rw [Heap.findFree, firstFit, sub32_eq hsize (by omega), ht.next_eq]
    split
    · have hfit : (h.used (BlockList.extent xs) = 0 ∧
          size ≤ sub32 (BlockList.extent xs + b.size) (BlockList.extent xs + sizeofStructMem)) ↔
          b.used = false ∧ size + 12 ≤ b.size := by
        rw [sub32_eq (by simp only [sizeofStructMem]; omega) (by omega), ← Bool.not_eq_true,
          ← ht.used_iff, not_not]
        simp only [sizeofStructMem]
        omega
      have hnext : BlockList.extent (xs ++ [b]) = BlockList.extent xs + b.size := by simp
      have ht' : Tiled h ((xs ++ [b]) ++ ys) := by simpa using ht
      have hrest := ih ht' (by simpa using hfuel)
      rw [hnext] at hrest
      rw [hrest]
      split
      · next hcond => rw [if_pos (hfit.mp hcond)]
      · next hcond => rw [if_neg fun h => hcond (hfit.mpr h)]
    · rfl

/-- The search for `lfree` finds the next free block, with fuel for those left. -/
theorem Tiled.nextFree {fuel : Nat} (ht : Tiled h (xs ++ ys)) (hfuel : ys.length < fuel) :
    h.nextFree fuel (BlockList.extent xs) = some (lowestFree (BlockList.extent xs) ys) := by
  induction ys generalizing xs fuel with
  | nil =>
    obtain ⟨fuel, rfl⟩ := Nat.exists_eq_succ_of_ne_zero (Nat.ne_of_gt hfuel)
    have hend := ht.extent_le
    rw [extent_nil, Nat.add_zero] at hend
    rw [Heap.nextFree, if_neg fun hcond => hcond.2 hend]
    rfl
  | cons b ys ih =>
    obtain ⟨fuel, rfl⟩ := Nat.exists_eq_succ_of_ne_zero (Nat.ne_of_gt (Nat.zero_lt_of_lt hfuel))
    have hend := ht.extent_le
    have hb : 16 ≤ b.size := (ht.sizes b (by simp)).1
    rw [extent_cons] at hend
    have hnext : BlockList.extent (xs ++ [b]) = BlockList.extent xs + b.size := by simp
    have ht' : Tiled h ((xs ++ [b]) ++ ys) := by simpa using ht
    have hrest := ih ht' (by simpa using hfuel)
    rw [hnext] at hrest
    rw [Heap.nextFree, lowestFree, ht.next_eq, hrest]
    cases hused : b.used with
    | true => rw [if_pos ⟨ht.used_iff.mpr hused, by omega⟩, if_pos rfl]
    | false =>
      rw [if_neg fun hcond => absurd (hused.symm.trans (ht.used_iff.mp hcond.1)) Bool.false_ne_true,
        if_neg Bool.false_ne_true]

/-! ## Cutting a block in two -/

/-- Writing the header of the second part touches both headers of a cut. -/
theorem edits_insertMem2 (h : Heap) (p p2 : Nat) : Edits [p, p2] h (h.insertMem2 p p2) :=
  ((((edits_setMagic (by simp)).trans (edits_setUsed (by simp))).trans
    (edits_setNext (by simp))).trans (edits_setPrev (by simp))).trans (edits_setNext (by simp))

/-- Writing the second header of a cut sets the links of both parts. -/
theorem header_insertMem2 (h : Heap) (p p2 : Nat) (hapart : p + 12 ≤ p2) (hp2 : p2 < 2 ^ 32)
    (hnext : h.next p < 2 ^ 32) :
    (h.insertMem2 p p2).header p = { h.header p with next := p2 } ∧
      (h.insertMem2 p p2).header p2 = ⟨false, h.next p, p⟩ := by
  let h1 := (h.setMagic p2 heapMagic).setUsed p2 0
  have he1 : Edits [p2] h h1 := (edits_setMagic (by simp)).trans (edits_setUsed (by simp))
  have hp1 : h1.header p = h.header p := he1.header fun q hq => by
    have := List.mem_singleton.mp hq
    omega
  have hnext1 : h1.next p = h.next p := congrArg Header.next hp1
  let h2 := (h1.setNext p2 (h1.next p)).setPrev p2 p
  have he2 : Edits [p2] h h2 :=
    (he1.trans (edits_setNext (by simp))).trans (edits_setPrev (by simp))
  have hp2' : h2.header p = h.header p := he2.header fun q hq => by
    have := List.mem_singleton.mp hq
    omega
  have hheader2 : h2.header p2 = ⟨false, h.next p, p⟩ := by
    rw [header_setPrev (by omega), header_setNext (by omega), header_setUsed (by omega), hnext1]
    rfl
  constructor
  · exact (header_setNext hp2).trans (by rw [hp2'])
  · refine Eq.trans ?_ hheader2
    exact (edits_setNext (List.mem_singleton.mpr rfl)).header fun q hq => by
      have := List.mem_singleton.mp hq
      omega

/-- The block `p` is cut at `p + k`; the first part is then marked. -/
theorem Tiled.cut {k : Nat} {u : Bool} (h1 : Heap) (ht : Tiled h (pre ++ b :: post))
    (hk : BlockSize k) (hrest : BlockSize (b.size - k)) (hlt : k < b.size)
    (he1 : Edits [BlockList.extent pre]
      (h.insertMem2 (BlockList.extent pre) (BlockList.extent pre + k)) h1)
    (hh1 : h1.header (BlockList.extent pre) =
      { (h.insertMem2 (BlockList.extent pre) (BlockList.extent pre + k)).header
          (BlockList.extent pre) with used := u }) :
    Tiled (h1.linkMem2 (BlockList.extent pre + k)) (pre ++ ⟨k, u⟩ :: ⟨b.size - k, false⟩ :: post) ∧
      Edits [BlockList.extent pre, BlockList.extent pre + k, BlockList.extent pre + b.size] h
        (h1.linkMem2 (BlockList.extent pre + k)) := by
  have hk16 : 16 ≤ k := hk.1
  have hrest16 : 16 ≤ b.size - k := hrest.1
  have hend := ht.extent_le
  have hfits := ht.fits
  have hfirst := ht.header_eq
  have hnext := ht.next_eq
  rw [extent_cons] at hend
  generalize hp : BlockList.extent pre = p at *
  obtain ⟨hheader, hheader2⟩ := header_insertMem2 h p (p + k) (by omega) (by omega)
    (by omega)
  rw [hheader] at hh1
  -- what the marked heap has at the two headers
  have hh2 : h1.header (p + k) = ⟨false, p + b.size, p⟩ := by
    rw [he1.header fun q hq => ?_, hheader2, hnext]
    have := List.mem_singleton.mp hq
    omega
  have hedits1 : Edits [p, p + k, p + b.size] h h1 :=
    ((edits_insertMem2 h p (p + k)).mono (by simp)).trans (he1.mono (by simp))
  have hbehind1 : h1.header (p + b.size) = h.header (p + b.size) := by
    have hedits : Edits [p, p + k] h h1 := (edits_insertMem2 h p (p + k)).trans (he1.mono (by simp))
    refine hedits.header fun q hq => ?_
    simp only [List.mem_cons, List.not_mem_nil, or_false] at hq
    omega
  have hnext2 : h1.next (p + k) = p + b.size := congrArg Header.next hh2
  have hsize1 : h1.memSizeAligned + sizeofStructMem = h.heapEnd := by
    rw [hedits1.memSizeAligned, ht.heapEnd]
    rfl
  have hlink : Edits [p + b.size] h1 (h1.linkMem2 (p + k)) := by
    rw [linkMem2, hnext2]
    split
    · exact edits_setPrev (by simp)
    · exact .refl _ _
  have hedits := hedits1.trans (hlink.mono (by simp))
  have hsame : ∀ q, q = p ∨ q = p + k → (h1.linkMem2 (p + k)).header q = h1.header q := by
    intro q hq
    refine hlink.header fun e he => ?_
    have := List.mem_singleton.mp he
    omega
  -- the back link is written unless it is that of `heap_end`
  have hused : ((h1.linkMem2 (p + k)).header (p + b.size)).used = (h.header (p + b.size)).used := by
    rw [← hbehind1, linkMem2, hnext2]
    split
    · rw [header_setPrev (by omega)]
    · rfl
  have hback : post ≠ [] → (h1.linkMem2 (p + k)).header (p + b.size) =
      { h.header (p + b.size) with prev := p + k } := by
    intro hpost
    obtain ⟨c, post, rfl⟩ := List.exists_cons_of_ne_nil hpost
    have hc : 16 ≤ c.size := (ht.sizes c (by simp)).1
    rw [extent_cons] at hend
    rw [linkMem2, hnext2, if_pos (by omega), header_setPrev (by omega), hbehind1]
  have hextent : BlockList.extent [b] = b.size := by simp
  refine ⟨?_, hedits⟩
  refine Tiled.splice [b] [⟨k, u⟩, ⟨b.size - k, false⟩] (by simpa using ht) hedits
    (fun q hq => ?_) ?_ (fun c hc => ?_) ⟨?_, ?_, trivial⟩ ?_ fun hpost => ?_
  · rw [hp, hextent]
    simp only [List.mem_cons, List.not_mem_nil, or_false] at hq
    omega
  · simp only [extent_cons, extent_nil]
    omega
  · simp only [List.mem_cons, List.not_mem_nil, or_false] at hc
    rcases hc with rfl | rfl
    · exact hk
    · exact hrest
  · rw [hp, hsame p (.inl rfl), hh1, hfirst]
  · rw [hp, hsame (p + k) (.inr rfl), hh2]
    simp only [Header.mk.injEq, and_true, true_and]
    omega
  · rw [hp, hextent, hused]
  · rw [hp, hextent, hback hpost]
    rfl

end Heap

end Ch583Kbd.Rtt
