/-
Ch583Kbd.Rtt.MemTheorems — the heap over every run of its clients.

The clients may call in any order, keep as many objects as the heap has room
for and write them as they like. Objects are then apart, keep their bytes
and come from the heap (`heap_serves`); what was freed can be used again
(`heap_recovers`); and `rt_malloc` is a first fit that refuses only what
fits nowhere (`malloc_firstFit`).
-/
import Ch583Kbd.Rtt.MemRequests

namespace Ch583Kbd.Rtt

open Ch583Kbd.Lib BlockList Heap

/-- What the clients can make of the heap. -/
inductive Reaches (h0 : Heap) : Heap → Objects → Prop
  | start : Reaches h0 h0 Objects.empty
  | request {h h' : Heap} {objs : Objects} {req : Request} {r : Nat} : Reaches h0 h objs →
    req.Allowed h objs → h.serve req = some (r, h') → Reaches h0 h' (objs.after h'.memory r req)

section Init

variable {memory : Memory} {beginAddr endAddr : Nat} {h0 : Heap}

theorem rtAlign_dvd (size : Nat) : rtAlignSize ∣ rtAlign size := Nat.dvd_mul_left _ _

/-- A header of one block, and the one of the end behind it. -/
theorem init_headers (h : Heap) {e : Nat} (he : 12 ≤ e) (he32 : e < 2 ^ 32) :
    let h1 := (((h.setMagic 0 heapMagic).setNext 0 e).setPrev 0 0).setUsed 0 0
    let h2 := (((h1.setMagic e heapMagic).setUsed e 1).setNext e e).setPrev e e
    h2.header 0 = ⟨false, e, 0⟩ ∧ h2.used e ≠ 0 := by
  intro h1 h2
  have hfirst : h1.header 0 = ⟨false, e, 0⟩ := by
    rw [header_setUsed (by omega), header_setPrev (by omega), header_setNext he32]
    rfl
  have hedits : Edits [e] h1 h2 :=
    (((edits_setMagic (by simp)).trans (edits_setUsed (by simp))).trans
    (edits_setNext (by simp))).trans
      (edits_setPrev (by simp))
  have hlast : (h2.header e).used = true := by
    rw [header_setPrev he32, header_setNext he32, header_setUsed (by omega)]
    rfl
  refine ⟨(hedits.header fun q hq => ?_).trans hfirst, bne_iff_ne.mp hlast⟩
  have := List.mem_singleton.mp hq
  omega

/-- After `rt_system_heap_init` there is one free block. -/
theorem repr_init (hend : endAddr ≤ 2 ^ 32)
    (hinit : rtSystemHeapInit memory beginAddr endAddr = some h0)
    (hroom : 12 ≤ h0.memSizeAligned) :
    Repr h0 [⟨h0.heapEnd, false⟩] ∧ rtAlignSize ∣ h0.heapPtr ∧ h0.heapEnd =
      h0.memSizeAligned + 12 := by
  have hbegin := rtAlign_dvd beginAddr
  have hendAlign : rtAlignSize ∣ rtAlignDown endAddr := Nat.dvd_mul_left _ _
  have hendLe : rtAlignDown endAddr ≤ endAddr := Nat.div_mul_le_self _ _
  unfold rtSystemHeapInit at hinit
  dsimp only at hinit
  split at hinit
  · next hcond =>
    generalize rtAlign beginAddr = b at *
    generalize rtAlignDown endAddr = e at *
    generalize hsize : e - b - 2 * sizeofStructMem = size at *
    simp only [sizeofStructMem, rtAlignSize] at *
    obtain ⟨hheader, hused⟩ := init_headers ⟨memory, b, size + 12, size, 0, 0, 0⟩
      (e := size + 12) (by omega) (by omega)
    obtain rfl := Option.some.inj hinit
    have hsize12 : 12 ≤ size := hroom
    have hsize4 : 4 ∣ size := by omega
    refine ⟨⟨⟨⟨?_, trivial⟩, ?_, ?_, hused, rfl, ?_⟩, ?_, rfl, rfl, Nat.le_refl _⟩, hbegin, rfl⟩
    · rw [Nat.zero_add]
      exact hheader
    · exact Nat.add_zero _
    · intro c hc
      rw [List.mem_singleton.mp hc]
      exact ⟨show 16 ≤ size + 12 by omega, show 4 ∣ size + 12 by omega⟩
    · show b + (size + 12) + 12 ≤ 2 ^ 32
      omega
    · exact List.isChain_singleton _
  · cases hinit

end Init

section Runs

variable {memory : Memory} {beginAddr endAddr : Nat} {h0 h : Heap} {objs : Objects}

/-- **Whatever the clients have asked for, the heap serves them**: its blocks
are right and every live object has its bytes. -/
theorem reaches_served (hend : endAddr ≤ 2 ^ 32)
    (hinit : rtSystemHeapInit memory beginAddr endAddr = some h0) (hroom : 12 ≤ h0.memSizeAligned)
    (hreach : Reaches h0 h objs) : Served h0 h objs := by
  induction hreach with
  | start =>
    have hrepr := (repr_init hend hinit hroom).1
    exact ⟨.refl h0, _, hrepr, nofun, fun a ha => absurd ha List.not_mem_nil⟩
  | request hreach hallowed hserve ih =>
    obtain ⟨hregion, bs, hr, hk⟩ := ih
    obtain ⟨r', h'', hserve', hserved, -⟩ :=
      hk.serve hr (by rw [hregion.memSizeAligned]; exact hroom) hallowed
    rw [hserve] at hserve'
    obtain ⟨rfl, rfl⟩ := Prod.mk.inj (Option.some.inj hserve')
    exact ⟨hregion.trans hserved.region, hserved.kept⟩

theorem dvd_extent {bs : List Blk} (hsizes : ∀ b ∈ bs, BlockSize b.size) : 4 ∣ extent bs := by
  induction bs with
  | nil => exact Nat.dvd_zero 4
  | cons b bs ih =>
    have hrest := ih fun c hc => hsizes c (List.mem_cons_of_mem _ hc)
    exact Nat.dvd_add (hsizes b List.mem_cons_self).2 hrest

/-- **The heap keeps the objects.** In whatever order the clients call, every
call returns. The objects have the bytes that the clients have given them,
they are aligned, lie within the heap and are apart; a new pointer is not
that of another object. -/
theorem heap_serves (hend : endAddr ≤ 2 ^ 32)
    (hinit : rtSystemHeapInit memory beginAddr endAddr = some h0) (hroom : 12 ≤ h0.memSizeAligned)
    (hreach : Reaches h0 h objs) :
    (∀ p l, objs p = some l → h.memory.peek p l.length = l ∧ rtAlignSize ∣ p ∧ 0 < l.length ∧
      h0.heapPtr + sizeofStructMem ≤ p ∧ p + l.length ≤ h0.heapPtr + h0.heapEnd) ∧
    (∀ p q l l', objs p = some l → objs q = some l' →
      p = q ∨ p + l.length + sizeofStructMem ≤ q ∨ q + l'.length + sizeofStructMem ≤ p) ∧
    ∀ req : Request, req.Allowed h objs → ∃ r h', h.serve req = some (r, h') ∧
      (r = 0 ∨ objs r = none ∨ ∃ newsize, req = .realloc r newsize) := by
  obtain ⟨hregion, bs, hr, hk⟩ := reaches_served hend hinit hroom hreach
  have haligned := (repr_init hend hinit hroom).2.1
  refine ⟨fun p l hl => ?_, fun p q l l' hl hl' => ?_, fun req hallowed => ?_⟩
  · obtain ⟨a, ha, hp, hne, hlen, hpeek⟩ := hk.block p l hl
    obtain ⟨xs, ys, hbs, ha1⟩ := mem_usedBlocks.mp ha
    have hdvd : 4 ∣ extent xs := dvd_extent fun b hb => hr.tiled.sizes b (by simp [hbs, hb])
    have hwithin := (usedBlocks_within ha).2
    rw [hr.tiled.extent, hregion.heapEnd] at hwithin
    rw [hregion.heapPtr] at hp
    simp only [rtAlignSize, sizeofStructMem] at *
    refine ⟨hpeek, ?_, List.length_pos_iff.mpr hne, by omega, by omega⟩
    omega
  · obtain ⟨a, ha, hp, -, hlen, -⟩ := hk.block p l hl
    obtain ⟨c, hc, hq, -, hlen', -⟩ := hk.block q l' hl'
    simp only [sizeofStructMem]
    rcases usedBlocks_apart ha hc with rfl | hbefore | hbehind
    · exact .inl (hp.trans hq.symm)
    · omega
    · omega
  · obtain ⟨r, h', hserve, -, hptr⟩ :=
      hk.serve hr (by rw [hregion.memSizeAligned]; exact hroom) hallowed
    exact ⟨r, h', hserve, hptr⟩

/-- Clients of a heap of 4 KiB that ask for ten bytes reach a state. -/
theorem reaches_ten : ∃ h0 r h', rtSystemHeapInit (fun _ => 0) 0x20003000 0x20004000 = some h0 ∧
    12 ≤ h0.memSizeAligned ∧ h0.serve (.malloc 10) = some (r, h') ∧
    Reaches h0 h' (Objects.empty.after h'.memory r (.malloc 10)) := by
  obtain ⟨h0, hinit, hroom⟩ : ∃ h0, rtSystemHeapInit (fun _ => 0) 0x20003000 0x20004000 = some h0 ∧
    12 ≤ h0.memSizeAligned := ⟨_, rfl, by decide⟩
  have hallowed : Request.Allowed h0 Objects.empty (.malloc 10) := by
    show 10 ≤ 2 ^ 32 - rtAlignSize
    decide
  obtain ⟨-, bs, hr, hk⟩ := reaches_served (by decide) hinit hroom .start
  obtain ⟨r, h', hserve, -⟩ := hk.serve hr hroom hallowed
  exact ⟨h0, r, h', hinit, hroom, hserve, .request .start hallowed hserve⟩

/-- A heap of 4096 bytes serves a request for ten. -/
theorem heap_serves_ten : ∃ h0 r h', rtSystemHeapInit (fun _ => 0) 0x20003000 0x20004000 = some h0 ∧
    h0.serve (.malloc 10) = some (r, h') ∧
    ∀ p l, Objects.empty.after h'.memory r (.malloc 10) p = some l →
      h'.memory.peek p l.length = l := by
  obtain ⟨h0, r, h', hinit, hroom, hserve, hreach⟩ := reaches_ten
  have hserves := heap_serves (by decide) hinit hroom hreach
  exact ⟨h0, r, h', hinit, hserve, fun p l hl => (hserves.1 p l hl).1⟩

/-- **Nothing is lost.** `used_mem` is the extent of the blocks in use, and
they are those of the objects. When all of them have been freed the heap is
one free block again, and has room for all that it had room for at first. -/
theorem heap_recovers (hend : endAddr ≤ 2 ^ 32)
    (hinit : rtSystemHeapInit memory beginAddr endAddr = some h0) (hroom : 12 ≤ h0.memSizeAligned)
    (hreach : Reaches h0 h objs) :
    (∃ bs, Repr h bs ∧ ∀ p, (objs p).isSome ↔ ∃ a ∈ usedBlocks 0 bs, p = h.heapPtr + a.1 + 12) ∧
    (objs = Objects.empty → h.usedMem = 0 ∧ h.lfree = 0 ∧ h.header 0 = ⟨false, h0.heapEnd, 0⟩ ∧
      ∀ size, 0 < size → wanted size < h0.memSizeAligned →
        ∃ h', h.rtMalloc size = some (h0.heapPtr + sizeofStructMem, h')) := by
  obtain ⟨hregion, bs, hr, hk⟩ := reaches_served hend hinit hroom hreach
  refine ⟨⟨bs, hr, hk.isSome_iff⟩, ?_⟩
  rintro rfl
  have hunused : usedBlocks 0 bs = [] := by
    refine List.eq_nil_iff_forall_not_mem.mpr fun a ha => ?_
    exact Bool.false_ne_true (hk.object a ha)
  have hsize := hr.tiled.heapEnd
  have hne : bs ≠ [] := by
    rintro rfl
    have hzero := hr.tiled.extent
    rw [extent_nil] at hzero
    omega
  have hone := hr.compact.eq_singleton hunused hne
  rw [hr.tiled.extent, hregion.heapEnd] at hone
  subst hone
  have htiled : Tiled h ([] ++ ⟨h0.heapEnd, false⟩ :: []) := hr.tiled
  have hheader := htiled.header_eq
  rw [extent_nil, Nat.zero_add] at hheader
  refine ⟨hr.usedMem, hr.lfree, hheader, fun size hpos hlt => ?_⟩
  have hroom' : 12 ≤ h.memSizeAligned := by rwa [hregion.memSizeAligned]
  have hround : (size + 3) / 4 * 4 ≤ wanted size := Nat.le_max_right _ _
  have hfits := hr.tiled.fits
  have hlt' : wanted size < h.memSizeAligned := by rwa [hregion.memSizeAligned]
  have hle : size ≤ 2 ^ 32 - rtAlignSize := by
    simp only [rtAlignSize]
    omega
  rcases hr.rtMalloc hroom' hpos hle with ⟨-, hbig | hnofit⟩ | hgrant
  · omega
  · have hsmall := hnofit [] ⟨h0.heapEnd, false⟩ [] rfl rfl (by
      rw [hregion.heapEnd] at hsize
      show wanted size + 12 ≤ h0.heapEnd
      omega)
    rw [extent_nil] at hsmall
    omega
  · obtain ⟨pre, n, post, m, mid, h', hbs, -, hout, -⟩ := hgrant
    cases pre with
    | nil =>
      rw [extent_nil, Nat.add_zero, hregion.heapPtr] at hout
      exact ⟨h', hout⟩
    | cons c pre => simp at hbs

/-- After the ten bytes are freed nothing is counted as used. -/
theorem heap_recovers_ten : ∃ h0 r h',
    rtSystemHeapInit (fun _ => 0) 0x20003000 0x20004000 = some h0 ∧
    h0.serve (.malloc 10) = some (r, h') ∧ (h'.rtFree r).usedMem = 0 := by
  obtain ⟨h0, r, h', hinit, hroom, hserve, hreach⟩ := reaches_ten
  have hallowed : Request.Allowed h' (Objects.empty.after h'.memory r (.malloc 10)) (.free r) := by
    by_cases hr : r = 0
    · exact .inl hr
    · refine .inr ?_
      rw [Objects.after, if_neg hr, Function.update_self]
      rfl
  have hempty : (Objects.empty.after h'.memory r (.malloc 10)).after (h'.rtFree r).memory
    0 (.free r) =
      Objects.empty := by
    simp only [Objects.after]
    split
    · exact Function.update_eq_self r Objects.empty
    · rw [Function.update_idem]
      exact Function.update_eq_self r Objects.empty
  have hrecovers := heap_recovers (by decide) hinit hroom (.request hreach hallowed rfl)
  exact ⟨h0, r, h', hinit, hserve, (hrecovers.2 hempty).1⟩

end Runs

end Ch583Kbd.Rtt
