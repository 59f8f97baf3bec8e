/-
Ch583Kbd.Rtt.MemAlloc — `rt_malloc`, `rt_realloc` and `rt_calloc` on the
list of blocks.

`rt_malloc` takes the first free block that fits and cuts the rest off
(`Carved`); `rt_realloc` either cuts the rest off the block, or allocates,
copies and frees.
-/
import Ch583Kbd.Rtt.MemBlocks

namespace Ch583Kbd.Rtt

open Ch583Kbd.Lib BlockList

namespace Heap

variable {h h' h'' : Heap} {p q v : Nat} {ps qs : List Nat}
variable {bs pre mid mid' post xs ys : List Blk} {a : Nat} {b c : Blk}

/-! ## `rt_malloc` -/

/-- The starts of blocks at a cut, and of the block behind them. -/
theorem Tiled.mem_starts (pre post : List Blk) (ht : Tiled h (pre ++ post)) :
    BlockList.extent pre ∈ starts 0 (pre ++ post) ∨ BlockList.extent pre = h.heapEnd := by
  have hcut := cut_mem_starts 0 pre post
  rwa [Nat.zero_add, ht.extent] at hcut

/-- The three headers that are written when a block of extent `n` is cut. -/
theorem Tiled.mem_starts_cut {k n : Nat} {u : Bool} (hk : k ≤ n)
    (ht : Tiled h (pre ++ ⟨k, u⟩ :: ⟨n - k, false⟩ :: post)) :
    ∀ q ∈ [BlockList.extent pre, BlockList.extent pre + k, BlockList.extent pre + n],
      q ∈ starts 0 (pre ++ ⟨k, u⟩ :: ⟨n - k, false⟩ :: post) ∨ q = h.heapEnd := by
  intro q hq
  simp only [List.mem_cons, List.not_mem_nil, or_false] at hq
  rcases hq with rfl | rfl | rfl
  · exact Tiled.mem_starts _ _ ht
  · have hcut := Tiled.mem_starts (pre ++ [⟨k, u⟩]) (⟨n - k, false⟩ :: post) (by simpa using ht)
    simpa using hcut
  · have hcut := Tiled.mem_starts (pre ++ [⟨k, u⟩, ⟨n - k, false⟩]) post (by simpa using ht)
    have hsum : k + (n - k) = n := by omega
    simpa [hsum] using hcut

/-- What becomes of the free block that was found: all of it is used, or
the rest stays free. -/
inductive Carved (n size : Nat) : Nat → List Blk → Prop
  | whole (hfit : size + 12 ≤ n) : Carved n size n [⟨n, true⟩]
  | split (hroom : size + 36 ≤ n) :
    Carved n size (size + 12) [⟨size + 12, true⟩, ⟨n - (size + 12), false⟩]

/-- `used_mem` and `max_mem` when `m` more bytes are in use. -/
structure Added (m : Nat) (h h' : Heap) : Prop where
  lfree : h'.lfree = h.lfree
  usedMem : h'.usedMem = h.usedMem + m
  maxMem : h'.maxMem = max h.maxMem (h.usedMem + m)

@[simp] theorem lfree_linkMem2 (h : Heap) (p : Nat) : (h.linkMem2 p).lfree = h.lfree := by
  unfold linkMem2
  split <;> rfl
@[simp] theorem usedMem_linkMem2 (h : Heap) (p : Nat) : (h.linkMem2 p).usedMem = h.usedMem := by
  unfold linkMem2
  split <;> rfl
@[simp] theorem maxMem_linkMem2 (h : Heap) (p : Nat) : (h.linkMem2 p).maxMem = h.maxMem := by
  unfold linkMem2
  split <;> rfl

/-- The last steps of `rt_malloc` change the header of its block only. -/
theorem edits_finish (h : Heap) (p m : Nat) :
    Edits [p] h ((h.addUsedMem m).setMagic p heapMagic) := by
  have hadd : Edits [p] h (h.addUsedMem m) := ⟨rfl, rfl, rfl, fun _ _ => rfl⟩
  exact hadd.trans (edits_setMagic (by simp))

/-- "set memory block magic", after the statistics. -/
theorem Tiled.setMagic (ht : Tiled h (pre ++ b :: post)) (m : Nat) :
    Tiled ((h.addUsedMem m).setMagic (BlockList.extent pre) heapMagic) (pre ++ b :: post) := by
  have hadd : Tiled (h.addUsedMem m) (pre ++ b :: post) := ht.of_memory rfl rfl rfl rfl
  refine hadd.mark (u := b.used) (edits_setMagic (by simp)) ?_
  rw [header_setMagic, hadd.header_eq]

/-- **`rt_malloc` takes a free block that fits**: all of it, or its first part
when the rest can hold a block. -/
theorem Tiled.takeBlock {n size : Nat} (ht : Tiled h (pre ++ ⟨n, false⟩ :: post))
    (hsize : 12 ≤ size) (haligned : 4 ∣ size) (hfit : size + 12 ≤ n) :
    ∃ m mid, Carved n size m mid ∧
      Tiled (h.takeBlock (BlockList.extent pre) size) (pre ++ (mid ++ post)) ∧
      SameData (pre ++ (mid ++ post)) h (h.takeBlock (BlockList.extent pre) size) ∧
      Added m h (h.takeBlock (BlockList.extent pre) size) := by
  have hn := ht.sizes ⟨n, false⟩ (by simp)
  have hn4 : 4 ∣ n := hn.2
  have hend := ht.extent_le
  have hfits := ht.fits
  rw [extent_cons] at hend
  dsimp only at hend
  have hnext : h.next (BlockList.extent pre) = BlockList.extent pre + n := ht.next_eq
  have hdiff : sub32 (h.next (BlockList.extent pre)) (BlockList.extent pre + sizeofStructMem) =
      n - 12 := by
    rw [hnext, sub32_eq (by simp only [sizeofStructMem]; omega) (by omega)]
    simp only [sizeofStructMem]
    omega
  rw [Heap.takeBlock, hdiff]
  by_cases hroom : size + 36 ≤ n
  · rw [if_pos (by simp only [sizeofStructMem, minSizeAligned]; omega)]
    have hptr2 : BlockList.extent pre + sizeofStructMem + size =
        BlockList.extent pre + (size + 12) := by
      simp only [sizeofStructMem]
      omega
    dsimp only
    rw [hptr2]
    -- the first part is marked before the back link is written
    have hk : BlockSize (size + 12) := ⟨by omega, by omega⟩
    have hrest : BlockSize (n - (size + 12)) := ⟨by omega, by omega⟩
    obtain ⟨htiled, hedits⟩ := Tiled.cut (u := true)
      ((h.insertMem2 (BlockList.extent pre) (BlockList.extent pre + (size + 12))).setUsed
        (BlockList.extent pre) 1) ht hk hrest (by dsimp only; omega) (edits_setUsed (by simp))
      (header_setUsed (by omega))
    dsimp only at htiled hedits
    have hlfree := lfree_linkMem2 ((h.insertMem2 (BlockList.extent pre)
      (BlockList.extent pre + (size + 12))).setUsed (BlockList.extent pre) 1)
      (BlockList.extent pre + (size + 12))
    have husedMem := usedMem_linkMem2 ((h.insertMem2 (BlockList.extent pre)
      (BlockList.extent pre + (size + 12))).setUsed (BlockList.extent pre) 1)
      (BlockList.extent pre + (size + 12))
    have hmaxMem := maxMem_linkMem2 ((h.insertMem2 (BlockList.extent pre)
      (BlockList.extent pre + (size + 12))).setUsed (BlockList.extent pre) 1)
      (BlockList.extent pre + (size + 12))
    generalize ((h.insertMem2 (BlockList.extent pre) (BlockList.extent pre + (size + 12))).setUsed
      (BlockList.extent pre) 1).linkMem2 (BlockList.extent pre + (size + 12)) = h1 at *
    have hfinal := htiled.setMagic (size + 12)
    have hfinish := hedits.trans
      ((edits_finish h1 (BlockList.extent pre) (size + 12)).mono (by simp))
    refine ⟨size + 12, _, .split hroom, hfinal, ?_, hlfree, ?_, ?_⟩
    · refine hfinish.sameData hfinal.size_le (hfinal.extent.trans hfinish.heapEnd) fun q hq => ?_
      rw [← hfinish.heapEnd]
      exact Tiled.mem_starts_cut (by omega) hfinal q hq
    · exact congrArg (· + (size + 12)) husedMem
    · show max h1.maxMem (h1.usedMem + (size + 12)) = _
      rw [hmaxMem, husedMem]
      rfl
  · rw [if_neg (by simp only [sizeofStructMem, minSizeAligned]; omega)]
    have hmark : Tiled (h.setUsed (BlockList.extent pre) 1) (pre ++ ⟨n, true⟩ :: post) :=
      ht.mark (edits_setUsed (by simp)) (header_setUsed (by omega))
    have hextent : sub32 ((h.setUsed (BlockList.extent pre) 1).next (BlockList.extent pre))
        (BlockList.extent pre) = n := by
      rw [hmark.next_eq, sub32_eq (by omega) (by dsimp only; omega)]
      exact Nat.add_sub_cancel_left _ _
    dsimp only
    rw [hextent]
    have hfinal := hmark.setMagic n
    have hfinish : Edits [BlockList.extent pre] h _ :=
      (edits_setUsed (by simp)).trans (edits_finish (h.setUsed (BlockList.extent pre) 1) _ n)
    refine ⟨n, _, .whole hfit, hfinal, ?_, rfl, rfl, rfl⟩
    refine hfinish.sameData hfinal.size_le (hfinal.extent.trans hfinish.heapEnd) fun q hq => ?_
    rw [← hfinish.heapEnd, List.mem_singleton.mp hq]
    exact Tiled.mem_starts _ _ hfinal

/-- What is taken has room for the size and a header. -/
theorem Carved.le {n size m : Nat} (hc : Carved n size m mid) : size + 12 ≤ m := by
  cases hc with
  | whole hfit => exact hfit
  | split => exact Nat.le_refl _

/-- The part that is taken counts as used. -/
theorem Carved.usedTotal_eq {n size m : Nat} (hc : Carved n size m mid) :
    usedTotal (pre ++ (mid ++ post)) = usedTotal (pre ++ ⟨n, false⟩ :: post) + m := by
  cases hc with
  | whole =>
    simp only [usedTotal_append, usedTotal, if_true, Bool.false_eq_true, if_false]
    omega
  | split =>
    simp only [usedTotal_append, usedTotal, if_true, Bool.false_eq_true, if_false]
    omega

/-- Carving a block leaves no two free blocks adjacent. -/
theorem Carved.compact {n size m : Nat} (hc : Carved n size m mid)
    (h : Compact (pre ++ ⟨n, false⟩ :: post)) : Compact (pre ++ (mid ++ post)) := by
  obtain ⟨hpre, hpost, hends⟩ := compact_middle.mp h
  have hhead := (hends.resolve_left Bool.false_ne_true).2
  cases hc with
  | whole => exact compact_middle.mpr ⟨hpre, hpost, .inl rfl⟩
  | split =>
    refine compact_middle.mpr ⟨hpre, ?_, .inl rfl⟩
    exact compact_cons.mpr ⟨hpost, .inr hhead⟩

/-- The lowest free block, when another one has been taken. -/
theorem lowestFree_carved {n : Nat}
    (hne : lowestFree 0 (pre ++ ⟨n, false⟩ :: post) ≠ BlockList.extent pre) :
    lowestFree 0 (pre ++ (mid ++ post)) = lowestFree 0 (pre ++ ⟨n, false⟩ :: post) := by
  rw [lowestFree_append] at hne
  rw [lowestFree_append 0 pre, lowestFree_append 0 pre]
  split
  · next hall =>
    rw [if_pos hall, Nat.zero_add] at hne
    exact absurd rfl hne
  · rfl

/-- Once the block is taken, the lowest free block is looked for. -/
theorem Repr.finish {n size m : Nat} {h1 : Heap} (hr : Repr h (pre ++ ⟨n, false⟩ :: post))
    (hroom : 12 ≤ h.memSizeAligned) (hcarved : Carved n size m mid)
    (htiled : Tiled h1 (pre ++ (mid ++ post))) (hdata : SameData (pre ++ (mid ++ post)) h h1)
    (hadded : Added m h h1) :
    ∃ h', h1.allocated (BlockList.extent pre) = some (h.heapPtr + BlockList.extent pre + 12, h') ∧
      Repr h' (pre ++ (mid ++ post)) ∧ SameData (pre ++ (mid ++ post)) h h' := by
  have hcompact := hcarved.compact hr.compact
  have husedMem : h1.usedMem = usedTotal (pre ++ (mid ++ post)) := by
    rw [hadded.usedMem, hr.usedMem, hcarved.usedTotal_eq]
  have hmaxMem : h1.usedMem ≤ h1.maxMem := by
    rw [hadded.usedMem, hadded.maxMem]
    exact Nat.le_max_right _ _
  by_cases heq : BlockList.extent pre = h1.lfree
  · -- it was the lowest one, so the search for the next begins with it
    have hlen := htiled.length_lt (by rw [hdata.memSizeAligned]; exact hroom)
    rw [List.length_append] at hlen
    have hnext := htiled.nextFree (show (mid ++ post).length < h1.memSizeAligned by omega)
    have hlowest : lowestFree 0 (pre ++ (mid ++ post)) =
        lowestFree (BlockList.extent pre) (mid ++ post) := by
      rw [lowestFree_append, if_pos, Nat.zero_add]
      have hlow : lowestFree 0 (pre ++ ⟨n, false⟩ :: post) = 0 + BlockList.extent pre := by
        rw [← hr.lfree, ← hadded.lfree, ← heq, Nat.zero_add]
      refine all_used_of_lowestFree hlow fun c hc => ?_
      · have hc16 : 16 ≤ c.size := (hr.tiled.sizes c (by simp [hc])).1
        omega
    have hout : h1.allocated (BlockList.extent pre) = some (h.heapPtr + BlockList.extent pre + 12,
        { h1 with lfree := lowestFree (BlockList.extent pre) (mid ++ post) }) := by
      rw [Heap.allocated, if_pos heq, ← heq, hnext, ← hdata.heapPtr]
      rfl
    exact ⟨_, hout, ⟨htiled.of_memory rfl rfl rfl rfl, hcompact, hlowest.symm, husedMem, hmaxMem⟩,
      hdata.heapPtr, hdata.heapEnd, hdata.memSizeAligned, hdata.data⟩
  · have hout : h1.allocated (BlockList.extent pre) = some (h.heapPtr + BlockList.extent pre + 12,
        h1) := by
      rw [Heap.allocated, if_neg heq, ← hdata.heapPtr]
      rfl
    refine ⟨h1, hout, ⟨htiled, hcompact, ?_, husedMem, hmaxMem⟩, hdata⟩
    rw [hadded.lfree, hr.lfree, lowestFree_carved]
    rw [← hr.lfree, ← hadded.lfree]
    exact Ne.symm heq

/-- No free block has room for `size`; the last one must have room for more. -/
def NoFit (bs : List Blk) (total size : Nat) : Prop :=
  ∀ pre b post, bs = pre ++ b :: post → b.used = false → size + 12 ≤ b.size →
    total - size ≤ BlockList.extent pre

/-- The size that `rt_malloc` looks for: aligned, and at least
`MIN_SIZE_ALIGNED`. -/
def wanted (size : Nat) : Nat := max 12 ((size + 3) / 4 * 4)

/-- `rt_malloc` takes the first free block that fits. -/
theorem Repr.rtMalloc {size : Nat} (hr : Repr h bs) (hroom : 12 ≤ h.memSizeAligned)
    (hpos : 0 < size) (hsize : size ≤ 2 ^ 32 - rtAlignSize) :
    (h.rtMalloc size = some (0, h) ∧
      (h.memSizeAligned < (size + 3) / 4 * 4 ∨ NoFit bs h.memSizeAligned (wanted size))) ∨
    ∃ pre n post m mid h', bs = pre ++ ⟨n, false⟩ :: post ∧ Carved n (wanted size) m mid ∧
      h.rtMalloc size = some (h.heapPtr + BlockList.extent pre + 12, h') ∧
      Repr h' (pre ++ (mid ++ post)) ∧ SameData (pre ++ (mid ++ post)) h h' ∧
      (size + 3) / 4 * 4 ≤ h.memSizeAligned ∧
      BlockList.extent pre < h.memSizeAligned - wanted size ∧
      ∀ c ∈ pre, c.used = false → c.size < wanted size + 12 := by
  have hwanted : (if rtAlign size < minSizeAligned then minSizeAligned else rtAlign size) =
      wanted size := by
    rw [rtAlign_eq hsize, wanted, minSizeAligned]
    rcases Nat.lt_or_ge ((size + 3) / 4 * 4) 12 with hlt | hge
    · rw [if_pos hlt, Nat.max_eq_left (Nat.le_of_lt hlt)]
    · rw [if_neg (Nat.not_lt.mpr hge), Nat.max_eq_right hge]
  rw [Heap.rtMalloc, if_neg (by omega)]
  dsimp only
  rw [hwanted, rtAlign_eq hsize]
  by_cases hbig : (size + 3) / 4 * 4 > h.memSizeAligned
  · rw [if_pos hbig]
    exact .inl ⟨rfl, .inl hbig⟩
  · have hle : wanted size ≤ h.memSizeAligned := by
      rw [wanted]
      omega
    rw [if_neg hbig]
    -- the search begins behind blocks that are all in use
    obtain ⟨xs, ys, rfl, hxs, hlow, -⟩ := lowestFree_split 0 bs
    rw [Nat.zero_add] at hlow
    have hlen := hr.tiled.length_lt hroom
    rw [List.length_append] at hlen
    have hsearch := hr.tiled.findFree hle (show ys.length < h.memSizeAligned by omega)
    rw [hr.lfree, hlow, hsearch]
    cases hfit : firstFit (h.memSizeAligned - wanted size) (wanted size + 12)
      (BlockList.extent xs) ys with
    | none =>
      refine .inl ⟨rfl, .inr ?_⟩
      intro pre b post hbs hfree hroom'
      rcases List.append_eq_append_iff.mp hbs with ⟨pre', rfl, hys⟩ | ⟨tail, rfl, htail⟩
      · rw [extent_append]
        exact firstFit_none_iff.mp hfit pre' b post hys hfree hroom'
      · cases tail with
        | nil =>
          have hcut := firstFit_none_iff.mp hfit [] b post (by simpa using htail.symm) hfree hroom'
          simpa using hcut
        | cons c tail =>
          obtain ⟨rfl, -⟩ := List.cons.inj htail
          have hused := hxs b (by simp)
          rw [hfree] at hused
          exact absurd hused Bool.false_ne_true
    | some ptr =>
      obtain ⟨zs, b, post, rfl, hptr, hfree, hroom', hlt, hbefore⟩ := firstFit_some hfit
      obtain ⟨n, u⟩ := b
      cases hfree
      rw [← extent_append] at hptr
      rw [← List.append_assoc] at hr
      subst hptr
      have hwanted4 : 4 ∣ wanted size := by
        rw [wanted]
        omega
      obtain ⟨m, mid, hcarved, htiled, hdata, hadded⟩ :=
        hr.tiled.takeBlock (Nat.le_max_left _ _) hwanted4 hroom'
      obtain ⟨h', hout, hrepr, hdata'⟩ := hr.finish hroom hcarved htiled hdata hadded
      refine .inr ⟨xs ++ zs, n, post, m, mid, h', by simp, hcarved, hout, hrepr, hdata',
        by omega, hlt,
        fun c hc hcfree => ?_⟩
      rcases List.mem_append.mp hc with hc | hc
      · exact absurd ((hxs c hc).symm.trans hcfree) Bool.false_ne_true.symm
      · exact hbefore c hc hcfree

/-! ## `rt_realloc` -/

/-- What `rt_realloc` cuts off a block in use is freed, and joined to a free
block behind it. -/
theorem Repr.shrink {n k : Nat} (hr : Repr h (pre ++ ⟨n, true⟩ :: post)) (hpos : 0 < k)
    (haligned : 4 ∣ k) (hroom : k + 36 < n) :
    ∃ bs', Repr (h.shrink (BlockList.extent pre) (n - 12) k) bs' ∧
      usedBlocks 0 bs' = usedBlocks 0 (pre ++ ⟨k + 12, true⟩ :: ⟨n - (k + 12), false⟩ :: post) ∧
      SameData (pre ++ ⟨k + 12, true⟩ :: ⟨n - (k + 12), false⟩ :: post) h
        (h.shrink (BlockList.extent pre) (n - 12) k) := by
  have hn4 : 4 ∣ n := (hr.tiled.sizes ⟨n, true⟩ (by simp)).2
  have hend := hr.tiled.extent_le
  have hfits := hr.tiled.fits
  have htotal := hr.tiled.usedTotal_lt
  rw [extent_cons] at hend
  dsimp only at hend
  have hk : BlockSize (k + 12) := ⟨by omega, by omega⟩
  have hrest : BlockSize (n - (k + 12)) := ⟨by omega, by omega⟩
  have hptr2 : BlockList.extent pre + sizeofStructMem + k = BlockList.extent pre + (k + 12) := by
    simp only [sizeofStructMem]
    omega
  have husedMem : sub32 h.usedMem (n - 12 - k) =
      usedTotal (pre ++ ⟨k + 12, true⟩ :: ⟨n - (k + 12), false⟩ :: post) := by
    have hsum : usedTotal (pre ++ ⟨n, true⟩ :: post) =
        usedTotal (pre ++ ⟨k + 12, true⟩ :: ⟨n - (k + 12), false⟩ :: post) + (n - 12 - k) := by
      simp only [usedTotal_append, usedTotal, if_true, Bool.false_eq_true, if_false]
      omega
    rw [hr.usedMem, sub32_eq (by omega) htotal]
    omega
  obtain ⟨h0, hh0⟩ : ∃ h0 : Heap, h0 = { h with usedMem := sub32 h.usedMem (n - 12 - k) } :=
    ⟨_, rfl⟩
  have hdata0 : ∀ bs, SameData bs h h0 := fun bs => by
    rw [hh0]
    exact ⟨rfl, rfl, rfl, fun _ _ _ _ _ => rfl⟩
  have hlfree0 : h0.lfree = h.lfree := by rw [hh0]
  have husedMem0 := congrArg Heap.usedMem hh0
  have hmaxMem0 : h0.maxMem = h.maxMem := by rw [hh0]
  have ht0 : Tiled h0 (pre ++ ⟨n, true⟩ :: post) := by
    refine hr.tiled.of_memory ?_ ?_ ?_ ?_ <;> rw [hh0]
  have hshrink : h.shrink (BlockList.extent pre) (n - 12) k =
      (((h0.insertMem2 (BlockList.extent pre) (BlockList.extent pre + (k + 12))).linkMem2
        (BlockList.extent pre + (k + 12))).lowerFree (BlockList.extent pre + (k + 12))).plugHoles
        (BlockList.extent pre + (k + 12)) := by
    rw [Heap.shrink, hptr2, ← hh0]
  -- the block is cut and the first part stays in use
  have hfirst := ht0.header_eq
  have hnext := ht0.next_eq
  dsimp only at hfirst hnext
  have hheader := (header_insertMem2 h0 (BlockList.extent pre)
    (BlockList.extent pre + (k + 12)) (by omega) (by omega) (by omega)).1
  obtain ⟨htiled, hedits⟩ := Tiled.cut (u := true) _ ht0 hk hrest (by dsimp only; omega) (.refl _ _)
    (by rw [hheader, hfirst])
  have hlfree := lfree_linkMem2 (h0.insertMem2 (BlockList.extent pre)
    (BlockList.extent pre + (k + 12))) (BlockList.extent pre + (k + 12))
  have hused := usedMem_linkMem2 (h0.insertMem2 (BlockList.extent pre)
    (BlockList.extent pre + (k + 12))) (BlockList.extent pre + (k + 12))
  have hmax := maxMem_linkMem2 (h0.insertMem2 (BlockList.extent pre)
    (BlockList.extent pre + (k + 12))) (BlockList.extent pre + (k + 12))
  rw [hshrink]
  generalize (h0.insertMem2 (BlockList.extent pre) (BlockList.extent pre + (k + 12))).linkMem2
    (BlockList.extent pre + (k + 12)) = h1 at *
  have hpos2 : BlockList.extent (pre ++ [⟨k + 12, true⟩]) = BlockList.extent pre +
    (k + 12) := by simp
  have htiled' : Tiled h1 ((pre ++ [⟨k + 12, true⟩]) ++ ⟨n - (k + 12), false⟩ :: post) := by
    simpa using htiled
  have hsplit : lowestFree 0 ((pre ++ [⟨k + 12, true⟩]) ++ ⟨n - (k + 12), true⟩ :: post) =
      lowestFree 0 (pre ++ ⟨n, true⟩ :: post) := by
    have hsum : BlockList.extent pre + (k + 12) + (n - (k + 12)) = BlockList.extent pre +
      n := by omega
    simp [lowestFree_append, lowestFree, hsum]
  have husedMem1 : h1.usedMem =
      usedTotal ((pre ++ [⟨k + 12, true⟩]) ++ ⟨n - (k + 12), false⟩ :: post) := by
    rw [hused, show (h0.insertMem2 _ _).usedMem = h0.usedMem from rfl, husedMem0, husedMem]
    simp
  obtain ⟨hpre, hpost, -⟩ := compact_middle.mp hr.compact
  have hpre' : Compact (pre ++ [⟨k + 12, true⟩]) :=
    compact_middle.mpr ⟨hpre, List.isChain_nil, .inl rfl⟩
  have hlfree1 : h1.lfree =
      lowestFree 0 ((pre ++ [⟨k + 12, true⟩]) ++ ⟨n - (k + 12), true⟩ :: post) := by
    rw [hlfree, hsplit, ← hr.lfree]
    exact hlfree0
  have hle1 : h1.usedMem ≤ h1.maxMem := by
    have hle := hr.maxMem
    rw [hr.usedMem] at hle
    have hmax' : h1.maxMem = h.maxMem := hmax.trans hmaxMem0
    rw [husedMem1, hmax']
    simp only [usedTotal_append, usedTotal, if_true, Bool.false_eq_true, if_false] at hle ⊢
    omega
  obtain ⟨bs', hrepr, hblocks, hdata⟩ := htiled'.release hlfree1 husedMem1 hle1 hpre' hpost
  rw [hpos2] at hrepr hdata
  simp only [List.append_assoc, List.singleton_append] at hblocks hdata
  refine ⟨bs', hrepr, hblocks, (hdata0 _).trans (SameData.trans ?_ hdata fun _ ha => ha)
    fun _ ha => ha⟩
  refine hedits.sameData htiled.size_le (htiled.extent.trans hedits.heapEnd) fun q hq => ?_
  rw [← hedits.heapEnd]
  exact Tiled.mem_starts_cut (n := n) (by omega) htiled q hq

end Heap

end Ch583Kbd.Rtt
