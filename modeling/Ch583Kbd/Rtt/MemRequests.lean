/-
Ch583Kbd.Rtt.MemRequests — every request, on the objects of the clients.

Each function of the heap has one lemma: it returns, the heap is in order
again, and the objects are those that `Objects.after` says (`Served`).
-/
import Ch583Kbd.Rtt.MemObjects

namespace Ch583Kbd.Rtt

open Ch583Kbd.Lib BlockList

namespace Heap

variable {h h' : Heap} {us us' os : List (Nat × Nat)} {objs : Objects} {s n m : Nat}
variable {l : List (BitVec 8)} {bs pre mid post : List Blk}

/-! ## `rt_malloc` -/

/-- The heap has the same bounds. -/
structure SameRegion (h h' : Heap) : Prop where
  heapPtr : h'.heapPtr = h.heapPtr
  heapEnd : h'.heapEnd = h.heapEnd
  memSizeAligned : h'.memSizeAligned = h.memSizeAligned

theorem SameRegion.refl (h : Heap) : SameRegion h h := ⟨rfl, rfl, rfl⟩

theorem SameRegion.trans {h'' : Heap} (h1 : SameRegion h h') (h2 : SameRegion h' h'') :
    SameRegion h h'' :=
  ⟨h2.heapPtr.trans h1.heapPtr, h2.heapEnd.trans h1.heapEnd,
    h2.memSizeAligned.trans h1.memSizeAligned⟩

theorem SameData.region (hd : SameData bs h h') : SameRegion h h' :=
  ⟨hd.heapPtr, hd.heapEnd, hd.memSizeAligned⟩

/-- What is carved out of a free block begins with the block in use. -/
theorem Carved.cut {size : Nat} (hc : Carved n size m mid) (post : List Blk) :
    ∃ post', mid ++ post = ⟨m, true⟩ :: post' ∧ ∀ pre, usedBlocks 0 (pre ++ ⟨m, false⟩ :: post') =
      usedBlocks 0 (pre ++ ⟨n, false⟩ :: post) := by
  cases hc with
  | whole => exact ⟨post, rfl, fun _ => rfl⟩
  | split hroom =>
    refine ⟨⟨n - (size + 12), false⟩ :: post, rfl, fun pre => ?_⟩
    have hsum : BlockList.extent pre + (size + 12) + (n - (size + 12)) =
        BlockList.extent pre + n := by
      omega
    simp [usedBlocks_append, usedBlocks, hsum]

/-- A pointer to a new object. -/
structure Granted (h : Heap) (us : List (Nat × Nat)) (objs : Objects) (size r : Nat) (h' : Heap)
    (pre : List Blk) (n : Nat) (post : List Blk) : Prop where
  region : SameRegion h h'
  repr : Repr h' (pre ++ ⟨n, true⟩ :: post)
  keeps : ∀ k, 0 < k → k ≤ size → Keeps h' (usedBlocks 0 (pre ++ ⟨n, true⟩ :: post))
    (Function.update objs r (some (h'.memory.peek r k)))
  others : ∀ a ∈ us, a ∈ usedBlocks 0 (pre ++ ⟨n, true⟩ :: post)
  pointer : r = h'.heapPtr + BlockList.extent pre + 12
  fresh : objs r = none
  room : size + 12 ≤ n

theorem peek_ne_nil {memory : Memory} {p k : Nat} (hk : 0 < k) : memory.peek p k ≠ [] := by
  intro hnil
  have hzero := congrArg List.length hnil
  rw [Memory.length_peek] at hzero
  exact Nat.ne_of_gt hk hzero

/-- **`rt_malloc`** answers NULL and changes nothing, or a pointer to a new
object beside the others. -/
theorem Keeps.malloc {size : Nat} (hr : Repr h bs) (hk : Keeps h (usedBlocks 0 bs) objs)
    (hroom : 12 ≤ h.memSizeAligned) (hsize : size ≤ 2 ^ 32 - rtAlignSize) :
    h.rtMalloc size = some (0, h) ∨ 0 < size ∧ ∃ r h' pre n post, h.rtMalloc size = some (r, h') ∧
      Granted h (usedBlocks 0 bs) objs size r h' pre n post := by
  rcases Nat.eq_zero_or_pos size with rfl | hpos
  · exact .inl rfl
  rcases hr.rtMalloc hroom hpos hsize with ⟨hnull, -⟩ | hgrant
  · exact .inl hnull
  obtain ⟨pre, n, post, m, mid, h', rfl, hcarved, hout, hr', hdata, -⟩ := hgrant
  obtain ⟨post', hmid, hothers⟩ := hcarved.cut post
  rw [hmid] at hr' hdata
  have hmore := hr'.tiled.oneMore
  rw [hothers] at hmore
  have hwanted : size ≤ wanted size := by
    rw [wanted]
    omega
  have hlen : size + 12 ≤ m := by
    have hle := hcarved.le
    omega
  have hframe : Keeps h' (usedBlocks 0 (pre ++ ⟨n, false⟩ :: post)) objs :=
    hk.frame hdata.heapPtr fun a ha => hdata.data a ((hmore.mem_iff a).mpr (.inr ha))
  refine .inr ⟨hpos, _, h', pre, m, post', hout, hdata.region, hr', fun k hk0 hk => ?_,
    ?_, ?_, ?_, hlen⟩
  · have hadd := hframe.add hmore (l := h'.memory.peek (h'.heapPtr + BlockList.extent pre + 12) k)
      (peek_ne_nil hk0) (by rw [Memory.length_peek]; omega) (by rw [Memory.length_peek])
    rwa [hdata.heapPtr] at hadd
  · exact fun a ha => (hmore.mem_iff a).mpr (.inr ha)
  · rw [hdata.heapPtr]
  · by_contra hlive
    obtain ⟨a, ha, hpa⟩ := hk.exists_block (Option.isSome_iff_ne_none.mpr hlive)
    have hne := hmore.fresh a ha
    omega

/-! ## `rt_calloc` -/

/-- **`rt_calloc`** answers NULL and changes nothing, or a new object of zero
bytes beside the others. -/
theorem Keeps.calloc {count size : Nat} (hr : Repr h bs) (hk : Keeps h (usedBlocks 0 bs) objs)
    (hroom : 12 ≤ h.memSizeAligned) (hsize : count * size ≤ 2 ^ 32 - rtAlignSize) :
    h.rtCalloc count size = some (0, h) ∨ ∃ r h' bs', r ≠ 0 ∧ objs r = none ∧
      h.rtCalloc count size = some (r, h') ∧ SameRegion h h' ∧ Repr h' bs' ∧
      Keeps h' (usedBlocks 0 bs')
        (Function.update objs r (some (List.replicate (count * size) 0))) := by
  have htotal : count * size % 2 ^ 32 = count * size := by
    rw [Nat.mod_eq_of_lt]
    simp only [rtAlignSize] at hsize
    omega
  rw [rtCalloc, htotal]
  generalize count * size = total at *
  rcases hk.malloc hr hroom hsize with hnull | ⟨hpos, r, h', pre, n, post, hout, hg⟩
  · rw [hnull]
    exact .inl rfl
  · have hr0 : r ≠ 0 := by
      rw [hg.pointer]
      omega
    have hmemory : ∀ x, (x < h'.heapPtr + BlockList.extent pre + 12 ∨
        h'.heapPtr + BlockList.extent pre + n ≤ x) →
        rtMemset h'.memory r 0 total x = h'.memory x := by
      intro x hx
      have hlen := hg.room
      rw [rtMemset_eq, Memory.fill, hg.pointer, if_neg (by omega)]
    have hpeek : (rtMemset h'.memory r 0 total).peek r
      (List.replicate total (0 : BitVec 8)).length =
        List.replicate total 0 := by
      rw [Memory.peek_eq_iff rfl]
      intro i hi
      rw [List.length_replicate] at hi
      rw [rtMemset_eq, Memory.fill, if_pos (by omega), List.getElem_replicate]
    have hwrite := Keeps.writeData (l := List.replicate total 0) hg.repr
      (hg.keeps total hpos (Nat.le_refl _)) hmemory (by simpa using Nat.ne_of_gt hpos)
      (by rw [List.length_replicate]; exact hg.room) (hg.pointer ▸ hpeek)
    rw [← hg.pointer, Function.update_idem] at hwrite
    refine .inr ⟨r, { h' with memory := rtMemset h'.memory r 0 total }, _, hr0, hg.fresh, ?_,
      hg.region.trans ⟨rfl, rfl, rfl⟩, hg.repr.writeData hmemory, hwrite⟩
    rw [hout]
    exact congrArg some (if_pos hr0)

/-! ## `rt_free` -/

/-- **`rt_free`** of an object in use removes it and keeps the others. -/
theorem Keeps.free (hr : Repr h (pre ++ ⟨n, true⟩ :: post))
    (hk : Keeps h (usedBlocks 0 (pre ++ ⟨n, true⟩ :: post)) objs) {p : Nat}
    (hp : p = h.heapPtr + BlockList.extent pre + 12) :
    SameRegion h (h.rtFree p) ∧ ∃ bs', Repr (h.rtFree p) bs' ∧
      Keeps (h.rtFree p) (usedBlocks 0 bs') (Function.update objs p none) := by
  obtain ⟨bs', hr', hblocks, hdata⟩ := hr.rtFree
  rw [hp]
  refine ⟨hdata.region, bs', hr', ?_⟩
  rw [hblocks]
  exact (hk.drop hr.tiled.oneMore).frame hdata.heapPtr hdata.data

/-! ## `rt_realloc` -/

/-- The objects after an object has been resized, where the pointer may be a
new one. -/
theorem after_realloc {memory : Memory} {rmem newsize r : Nat} (hpos : newsize ≠ 0) (hr : r ≠ 0)
    (hsame : ∀ l, objs rmem = some l → ∀ i, i < newsize → (hi : i < l.length) →
      memory (r + i) = l[i]) :
    objs.after memory r (.realloc rmem newsize) =
      Function.update (Function.update objs rmem none) r (some (memory.peek r newsize)) := by
  have hbytes : ∀ i, i < newsize → (hi : i < ((objs rmem).getD []).length) →
      memory (r + i) = ((objs rmem).getD [])[i] := by
    revert hsame
    generalize objs rmem = o
    intro hsame i hi hil
    cases o with
    | none => exact absurd hil (Nat.not_lt_zero i)
    | some l => exact hsame l rfl i hi hil
  simp only [Objects.after, if_neg hpos, if_neg hr, ← Memory.peek_eq_append hbytes]

/-- The bytes of an object stand in the memory from its pointer on. -/
theorem Keeps.byte (hk : Keeps h us objs) {p : Nat} (hl : objs p = some l) (i : Nat)
    (hi : i < l.length) : h.memory (p + i) = l[i] := by
  obtain ⟨a, -, -, -, -, hpeek⟩ := hk.block p l hl
  exact (Memory.peek_eq_iff rfl).mp hpeek i hi

/-- What a call leaves behind: a heap within the same bounds, and the objects in
it. -/
structure Served (h h' : Heap) (objs' : Objects) : Prop where
  region : SameRegion h h'
  kept : ∃ bs, Repr h' bs ∧ Keeps h' (usedBlocks 0 bs) objs'

/-- `rt_realloc` to another block copies what fits of the object and frees the
old block; the other objects are kept. -/
theorem Keeps.relocate (hk : Keeps h (usedBlocks 0 bs) objs) {a : Nat × Nat}
    (ha : a ∈ usedBlocks 0 bs) {p new newsize count r : Nat} {h1 : Heap} {pre post : List Blk}
    (hg : Granted h (usedBlocks 0 bs) objs new r h1 pre n post) (hp : p = h.heapPtr + a.1 + 12)
    (hsize : 12 < a.2) (hpos : 0 < newsize) (hle : newsize ≤ new)
    (hcount : count = min (a.2 - 12) new) :
    Served h ({ h1 with memory := rtMemcpy h1.memory r p count }.rtFree p)
      (objs.after ({ h1 with memory := rtMemcpy h1.memory r p count }.rtFree p).memory r
        (.realloc p newsize)) := by
  have hroom := hg.room
  have hr := hg.pointer
  have hptr := hg.region.heapPtr
  have hr0 : r ≠ 0 := by omega
  have hlive : (objs p).isSome := hp ▸ hk.object a ha
  have hne : p ≠ r := by
    rintro rfl
    rw [hg.fresh] at hlive
    exact Bool.false_ne_true hlive
  -- the old block and the new one are apart
  have hapart : r + new ≤ p ∨ p + count ≤ r := by
    have hthis := (hg.repr.tiled.oneMore.mem_iff (BlockList.extent pre, n)).mpr (.inl rfl)
    rcases usedBlocks_apart (hg.others a ha) hthis with rfl | hbefore | hbehind
    · exact absurd (by rw [hp, hr, hptr]) hne
    · dsimp only at hbefore
      omega
    · dsimp only at hbehind
      omega
  have hcopy : rtMemcpy h1.memory r p count = h1.memory.move r p count := rtMemcpy_eq (by omega)
  have hmemory : ∀ x, (x < h1.heapPtr + BlockList.extent pre + 12 ∨
      h1.heapPtr + BlockList.extent pre + n ≤ x) → rtMemcpy h1.memory r p count x =
        h1.memory x := by
    intro x hx
    rw [hcopy, Memory.move, if_neg (by omega)]
  have hwrite := Keeps.writeData (l := (rtMemcpy h1.memory r p count).peek r newsize) hg.repr
    (hg.keeps new (by omega) (Nat.le_refl _)) hmemory (peek_ne_nil hpos)
    (by rw [Memory.length_peek]; omega) (by rw [Memory.length_peek, hr])
  rw [← hr, Function.update_idem] at hwrite
  have hrepr := hg.repr.writeData hmemory
  have hregion : SameRegion h { h1 with memory := rtMemcpy h1.memory r p count } :=
    hg.region.trans ⟨rfl, rfl, rfl⟩
  have hbytes : ∀ l, objs p = some l → ∀ i, i < newsize → (hi : i < l.length) →
      rtMemcpy h1.memory r p count (r + i) = l[i] := by
    intro l hl i hi hil
    obtain ⟨c, hc, hpc, -, hlen, -⟩ := hk.block p l hl
    have hac : a = c := by
      rcases usedBlocks_apart ha hc with heq | hbefore | hbehind
      · exact heq
      · omega
      · omega
    have hold : Function.update objs r (some (h1.memory.peek r new)) p = some l := by
      rw [Function.update_of_ne hne, hl]
    rw [hcopy, Memory.move, if_pos (by subst hac; omega),
      ← (hg.keeps new (by omega) (Nat.le_refl _)).byte hold i hil]
    congr 1
    omega
  -- the old block is still the object's
  obtain ⟨h2, hh2⟩ : ∃ h2 : Heap, h2 = { h1 with memory := rtMemcpy h1.memory r p count } :=
    ⟨_, rfl⟩
  have hmemory2 : h2.memory = rtMemcpy h1.memory r p count := by rw [hh2]
  rw [← hh2] at hwrite hrepr hregion ⊢
  rw [← hmemory2] at hwrite
  have hlive2 : (Function.update objs r (some (h2.memory.peek r newsize)) p).isSome := by
    rwa [Function.update_of_ne hne]
  obtain ⟨pre', m, post', hbs, hp'⟩ := hwrite.exists_cut hlive2
  rw [hbs] at hrepr hwrite
  obtain ⟨hregion', bs', hr', hk'⟩ := hwrite.free hrepr hp'
  have hnew : Function.update (Function.update objs r (some (h2.memory.peek r newsize))) p none r =
      some (h2.memory.peek r newsize) := by
    rw [Function.update_of_ne hne.symm, Function.update_self]
  have hfinal : (h2.rtFree p).memory.peek r newsize = h2.memory.peek r newsize := by
    obtain ⟨-, -, -, -, -, hpeek⟩ := hk'.block r _ hnew
    rwa [Memory.length_peek] at hpeek
  refine ⟨hregion.trans hregion', bs', hr', ?_⟩
  rw [after_realloc (Nat.ne_of_gt hpos) hr0, hfinal, Function.update_comm hne]
  · exact hk'
  · intro l hl i hi hil
    rw [hk'.byte hnew i (by rwa [Memory.length_peek]), ← hbytes l hl i hi hil, ← hmemory2]
    simp [Memory.peek]

/-- **`rt_realloc` of an object** to a size that is not zero: it stays or moves
with its bytes, or NULL comes back and it is kept. -/
theorem Keeps.resize (hr : Repr h (pre ++ ⟨n, true⟩ :: post))
    (hk : Keeps h (usedBlocks 0 (pre ++ ⟨n, true⟩ :: post)) objs) (hroom : 12 ≤ h.memSizeAligned)
    {p newsize : Nat} (hp : p = h.heapPtr + BlockList.extent pre + 12) (hpos : 0 < newsize)
    (hle : (newsize + 3) / 4 * 4 ≤ h.memSizeAligned) :
    ∃ r h', h.rtRealloc p newsize = some (r, h') ∧
      Served h h' (objs.after h'.memory r (.realloc p newsize)) ∧
      (r = 0 ∨ r = p ∨ objs r = none) := by
  have hfits := hr.tiled.fits
  have hheapEnd := hr.tiled.heapEnd
  have hn := hr.tiled.sizes ⟨n, true⟩ (by simp)
  have hend := hr.tiled.extent_le
  rw [extent_cons] at hend
  dsimp only at hend hn
  have hn16 : 16 ≤ n := hn.1
  have hn4 : 4 ∣ n := hn.2
  obtain ⟨hlegal, hmem⟩ := hr.tiled.legal
  rw [← hp] at hlegal hmem
  have hnext : h.next (BlockList.extent pre) = BlockList.extent pre + n := hr.tiled.next_eq
  have hsize : sub32 (sub32 (BlockList.extent pre + n) (BlockList.extent pre)) sizeofStructMem =
      n - 12 := by
    rw [sub32_eq (a := BlockList.extent pre + n) (by omega) (by omega),
      sub32_eq (by simp only [sizeofStructMem]; omega) (by omega)]
    simp only [sizeofStructMem]
    omega
  have halign : rtAlign newsize = (newsize + 3) / 4 * 4 :=
    rtAlign_eq (by simp only [rtAlignSize]; omega)
  have hp0 : p ≠ 0 := by omega
  rw [rtRealloc, halign]
  generalize hnew : (newsize + 3) / 4 * 4 = new at *
  rw [if_neg (by omega), if_neg (by omega), if_neg hp0, if_neg hlegal, hmem]
  dsimp only
  rw [hnext, hsize]
  -- where the object stays, it keeps its address and the bytes there
  have hplace : ∀ {h' : Heap} {m : Nat} {us : List (Nat × Nat)},
      Keeps h' (usedBlocks 0 (pre ++ ⟨n, false⟩ :: post)) (Function.update objs p none) →
      OneMore (BlockList.extent pre) m (usedBlocks 0 (pre ++ ⟨n, false⟩ :: post)) us →
      h'.heapPtr = h.heapPtr → newsize + 12 ≤ m →
      (∀ x, p ≤ x → x < p + newsize → h'.memory x = h.memory x) →
      Keeps h' us (objs.after h'.memory p (.realloc p newsize)) := by
    intro h' m us hothers hmore hptr hlen hdata
    have hadd := hothers.add hmore
      (l := h'.memory.peek (h'.heapPtr + BlockList.extent pre + 12) newsize)
      (peek_ne_nil hpos) (by rwa [Memory.length_peek]) (by rw [Memory.length_peek])
    rw [hptr, ← hp] at hadd
    rwa [after_realloc (Nat.ne_of_gt hpos) hp0]
    intro l hl i hi hil
    rw [hdata _ (by omega) (by omega), hk.byte hl i hil]
  have hmore := hr.tiled.oneMore
  have hdrop := hk.drop hmore
  rw [← hp] at hdrop
  by_cases hsame : n - 12 = new
  · rw [if_pos hsame]
    exact ⟨p, h, rfl, ⟨.refl h, _, hr, hplace hdrop hmore rfl (by omega) fun _ _ _ => rfl⟩,
      .inr (.inl rfl)⟩
  · rw [if_neg hsame]
    by_cases hshrink : new + sizeofStructMem + minSize < n - 12
    · rw [if_pos hshrink]
      simp only [sizeofStructMem, minSize] at hshrink
      obtain ⟨bs', hr', hblocks, hdata⟩ := hr.shrink (k := new) (by omega) (by omega) (by omega)
      have hmore' : OneMore (BlockList.extent pre) (new + 12)
          (usedBlocks 0 (pre ++ ⟨n, false⟩ :: post)) (usedBlocks 0 bs') := by
        have hsum : BlockList.extent pre + (new + 12) + (n - (new + 12)) =
            BlockList.extent pre + n := by
          omega
        refine ⟨fun a => ?_, hmore.fresh⟩
        rw [hblocks]
        simp only [usedBlocks_middle, usedBlocks, Nat.zero_add, hsum, List.mem_append, if_true,
          Bool.false_eq_true, if_false, List.mem_singleton, List.not_mem_nil, false_or]
        exact or_left_comm
      -- the rest of the block is free now, and the other objects are not in it
      refine ⟨p, _, rfl, ⟨hdata.region, bs', hr', ?_⟩, .inr (.inl rfl)⟩
      rw [hblocks] at hmore'
      have hothers := hdrop.frame hdata.heapPtr fun a ha =>
        hdata.data a ((hmore'.mem_iff a).mpr (.inr ha))
      rw [hblocks]
      refine hplace hothers hmore' hdata.heapPtr (by omega) fun x hlo hhi => ?_
      refine hdata.data _ ((hmore'.mem_iff _).mpr (.inl rfl)) x (by omega) ?_
      dsimp only
      omega
    · rw [if_neg hshrink]
      have hold : (BlockList.extent pre, n) ∈ usedBlocks 0 (pre ++ ⟨n, true⟩ :: post) :=
        (hmore.mem_iff _).mpr (.inl rfl)
      have hfits : new ≤ 2 ^ 32 - rtAlignSize := by
        simp only [rtAlignSize]
        omega
      -- it does not fit: a block is asked for, and the bytes move there
      rcases hk.malloc hr hroom hfits with
        hnull | ⟨-, r, h', pre', m, post', hout, hg⟩
      · rw [hnull]
        refine ⟨0, h, rfl, ⟨.refl h, _, hr, ?_⟩, .inl rfl⟩
        simpa only [Objects.after, if_neg (Nat.ne_of_gt hpos), if_pos] using hk
      · have hr0 : r ≠ 0 := by
          rw [hg.pointer]
          omega
        have hcount : (if n - 12 < new then n - 12 else new) = min (n - 12) new := by
          rw [Nat.min_def]
          split <;> split <;> omega
        have hserved := hk.relocate hold hg hp (by dsimp only; omega) hpos (by omega) hcount
        refine ⟨r, _, ?_, hserved, .inr (.inr hg.fresh)⟩
        rw [hout]
        exact congrArg some (if_pos hr0)

/-! ## Every request -/

/-- There is no object at NULL. -/
theorem Keeps.null (hk : Keeps h us objs) : objs 0 = none := by
  cases hl : objs 0 with
  | none => rfl
  | some l =>
    obtain ⟨a, -, hp, -⟩ := hk.block 0 l hl
    omega

theorem Keeps.update_null (hk : Keeps h us objs) : Function.update objs 0 none = objs := by
  rw [← hk.null, Function.update_eq_self]

/-- `rt_free` serves its request: NULL or a live pointer, and the object is
gone. -/
theorem Keeps.serveFree (hr : Repr h bs) (hk : Keeps h (usedBlocks 0 bs) objs) {rmem : Nat}
    (hlive : rmem = 0 ∨ (objs rmem).isSome) :
    Served h (h.rtFree rmem) (Function.update objs rmem none) := by
  rcases hlive with rfl | hlive
  · rw [hk.update_null]
    exact ⟨.refl h, bs, hr, hk⟩
  · obtain ⟨pre, n, post, rfl, hp⟩ := hk.exists_cut hlive
    obtain ⟨hregion, hkept⟩ := hk.free hr hp
    exact ⟨hregion, hkept⟩

/-- **`rt_realloc` serves every request it is allowed**: from NULL, to zero, or
of an object. -/
theorem Keeps.serveRealloc (hr : Repr h bs) (hk : Keeps h (usedBlocks 0 bs) objs)
    (hroom : 12 ≤ h.memSizeAligned) {rmem newsize : Nat}
    (hlive : rmem = 0 ∨ (objs rmem).isSome) (hsize : newsize ≤ 2 ^ 32 - rtAlignSize) :
    ∃ r h', h.rtRealloc rmem newsize = some (r, h') ∧
      Served h h' (objs.after h'.memory r (.realloc rmem newsize)) ∧
      (r = 0 ∨ r = rmem ∨ objs r = none) := by
  have halign := rtAlign_eq hsize
  by_cases hbig : (newsize + 3) / 4 * 4 > h.memSizeAligned
  · have hpos : newsize ≠ 0 := by omega
    refine ⟨0, h, ?_, ⟨.refl h, bs, hr, ?_⟩, .inl rfl⟩
    · rw [rtRealloc, halign, if_pos hbig]
    · simpa only [Objects.after, if_neg hpos, if_pos] using hk
  rcases Nat.eq_zero_or_pos newsize with rfl | hpos
  · -- nothing is wanted, so the object is freed
    have hfree : h.rtRealloc rmem 0 = some (0, h.rtFree rmem) := by
      rw [rtRealloc, halign, if_neg hbig]
      rfl
    exact ⟨0, _, hfree, hk.serveFree hr hlive, .inl rfl⟩
  · rcases Nat.eq_zero_or_pos rmem with rfl | hrmem
    · -- nothing is there yet, so it is a `rt_malloc`
      have hmalloc : h.rtRealloc 0 newsize = h.rtMalloc ((newsize + 3) / 4 * 4) := by
        rw [rtRealloc, halign, if_neg hbig, if_neg (by omega), if_pos rfl]
      have hfits := hr.tiled.fits
      have hheapEnd := hr.tiled.heapEnd
      have hle : (newsize + 3) / 4 * 4 ≤ 2 ^ 32 - rtAlignSize := by
        simp only [rtAlignSize]
        omega
      rw [hmalloc]
      rcases hk.malloc hr hroom hle with hnull | ⟨-, r, h', pre, n, post, hout, hg⟩
      · refine ⟨0, h, hnull, ⟨.refl h, bs, hr, ?_⟩, .inl rfl⟩
        simpa only [Objects.after, if_neg (Nat.ne_of_gt hpos), if_pos] using hk
      · have hr0 : r ≠ 0 := by
          rw [hg.pointer]
          omega
        refine ⟨r, h', hout, ⟨hg.region, _, hg.repr, ?_⟩, .inr (.inr hg.fresh)⟩
        rw [after_realloc (Nat.ne_of_gt hpos) hr0, hk.update_null]
        · exact hg.keeps newsize hpos (by omega)
        · intro l hl
          rw [hk.null] at hl
          cases hl
    · obtain ⟨pre, n, post, rfl, hp⟩ := hk.exists_cut (hlive.resolve_left (Nat.ne_of_gt hrmem))
      exact hk.resize hr hroom hp hpos (Nat.not_lt.mp hbig)

/-- The object of a block fits into it behind the header. -/
theorem Keeps.length_le (hk : Keeps h us objs) (hmore : OneMore s n os us)
    (hl : objs (h.heapPtr + s + 12) = some l) : l ≠ [] ∧ l.length + 12 ≤ n := by
  obtain ⟨a, ha, hp, hne, hlen, -⟩ := hk.block _ l hl
  rcases (hmore.mem_iff a).mp ha with rfl | ha
  · exact ⟨hne, hlen⟩
  · have hfresh := hmore.fresh a ha
    omega

/-- A client writes a byte of its own object and the heap is none the worse. -/
theorem Keeps.serveWrite (hr : Repr h bs) (hk : Keeps h (usedBlocks 0 bs) objs) {p i : Nat}
    (v : BitVec 8) (hl : objs p = some l) (hi : i < l.length) :
    Served h { h with memory := Function.update h.memory (p + i) v }
      (Function.update objs p (some (l.set i v))) := by
  obtain ⟨pre, n, post, rfl, rfl⟩ := hk.exists_cut (Option.isSome_of_mem hl)
  obtain ⟨hne, hlen⟩ := hk.length_le hr.tiled.oneMore hl
  have hmemory : ∀ x, (x < h.heapPtr + BlockList.extent pre + 12 ∨
      h.heapPtr + BlockList.extent pre + n ≤ x) →
      Function.update h.memory (h.heapPtr + BlockList.extent pre + 12 + i) v x = h.memory x := by
    intro x hx
    exact Function.update_of_ne (by omega) _ _
  refine ⟨⟨rfl, rfl, rfl⟩, _, hr.writeData hmemory, hk.writeData hr hmemory ?_ ?_ ?_⟩
  · simpa using hne
  · rwa [List.length_set]
  · rw [Memory.peek_eq_iff rfl]
    intro j hj
    rw [List.length_set] at hj
    rw [List.getElem_set]
    split
    · next heq => rw [heq, Function.update_self]
    · next hij => rw [Function.update_of_ne (by omega), hk.byte hl j hj]

/-- The rest of the memory is nothing to the heap. -/
theorem Keeps.serveElsewhere {memory : Memory} (hr : Repr h bs)
    (hk : Keeps h (usedBlocks 0 bs) objs)
    (hmemory : ∀ x, h.heapPtr ≤ x → x < h.heapPtr + h.heapEnd + 12 → memory x = h.memory x) :
    Served h { h with memory := memory } objs := by
  refine ⟨⟨rfl, rfl, rfl⟩, bs, hr.of_headers fun q hq i hi => hmemory _ (by omega) ?_,
    hk.frame rfl fun a ha x hlo hhi => hmemory x (by omega) ?_⟩
  · rcases hq with hq | rfl
    · have hle := starts_add_le hr.tiled.size_le hq
      rw [hr.tiled.extent] at hle
      omega
    · omega
  · have hle := (usedBlocks_within ha).2
    rw [hr.tiled.extent] at hle
    omega

/-- **Every request.** It is served, and the objects are as they should be. -/
theorem Keeps.serve (hr : Repr h bs) (hk : Keeps h (usedBlocks 0 bs) objs)
    (hroom : 12 ≤ h.memSizeAligned) {req : Request} (hallowed : req.Allowed h objs) :
    ∃ r h', h.serve req = some (r, h') ∧ Served h h' (objs.after h'.memory r req) ∧
      (r = 0 ∨ objs r = none ∨ ∃ newsize, req = .realloc r newsize) := by
  cases req with
  | malloc size =>
    rcases hk.malloc hr hroom hallowed with hnull | ⟨hpos, r, h', pre, n, post, hout, hg⟩
    · exact ⟨0, h, hnull, ⟨.refl h, bs, hr, hk⟩, .inl rfl⟩
    · have hr0 : r ≠ 0 := by
        rw [hg.pointer]
        omega
      refine ⟨r, h', hout, ⟨hg.region, _, hg.repr, ?_⟩, .inr (.inl hg.fresh)⟩
      rw [Objects.after, if_neg hr0]
      exact hg.keeps size hpos (Nat.le_refl _)
  | calloc count size =>
    rcases hk.calloc hr hroom hallowed
      with hnull | ⟨r, h', bs', hr0, hfresh, hout, hregion, hr', hk'⟩
    · exact ⟨0, h, hnull, ⟨.refl h, bs, hr, hk⟩, .inl rfl⟩
    · refine ⟨r, h', hout, ⟨hregion, bs', hr', ?_⟩, .inr (.inl hfresh)⟩
      rwa [Objects.after, if_neg hr0]
  | realloc rmem newsize =>
    obtain ⟨r, h', hout, hserved, hptr⟩ := hk.serveRealloc hr hroom hallowed.1 hallowed.2
    refine ⟨r, h', hout, hserved, ?_⟩
    rcases hptr with hnull | rfl | hfresh
    · exact .inl hnull
    · exact .inr (.inr ⟨newsize, rfl⟩)
    · exact .inr (.inl hfresh)
  | free rmem => exact ⟨0, _, rfl, hk.serveFree hr hallowed, .inl rfl⟩
  | write rmem i v =>
    obtain ⟨l, hl, hi⟩ := hallowed
    refine ⟨0, _, rfl, ?_, .inl rfl⟩
    rw [Objects.after, hl]
    exact hk.serveWrite hr v hl hi
  | elsewhere memory => exact ⟨0, _, rfl, hk.serveElsewhere hr hallowed, .inl rfl⟩

end Heap

end Ch583Kbd.Rtt
