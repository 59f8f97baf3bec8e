/-
Ch583Kbd.Lib.BlockList — a region tiled by blocks with a header each.

The header of a block says where the next one starts, where the one before
starts and whether the block is in use; the blocks are chained in both
directions. `Tiles hdr pv p bs` says that the headers `hdr` chain the
blocks `bs` from `p` on, where the block before starts at `pv`. An edit of
the chain is an instance of `Tiles.splice`: it replaces some blocks by
others of the same extent, and only the headers of the new blocks and the
back link behind them are written.

`lowestFree` is where the first free block starts, `firstFit` where the
first one starts that is large enough, `Compact` that no two free blocks
are adjacent.
-/
import Mathlib.Data.List.Basic
import Mathlib.Data.List.Chain
import Mathlib.Tactic.ByContra

namespace Ch583Kbd.Lib

/-- A block, with its extent. -/
structure Blk where
  size : Nat
  used : Bool
  deriving DecidableEq, Repr

/-- What the header of a block says. -/
structure Header where
  used : Bool
  next : Nat
  prev : Nat
  deriving DecidableEq, Repr

namespace BlockList

def extent : List Blk → Nat
  | [] => 0
  | b :: bs => b.size + extent bs

/-- Where the blocks start. -/
def starts : Nat → List Blk → List Nat
  | _, [] => []
  | p, b :: bs => p :: starts (p + b.size) bs

/-- Where the last block starts; `pv` if there is none. -/
def lastStart : Nat → Nat → List Blk → Nat
  | pv, _, [] => pv
  | _, p, b :: bs => lastStart p (p + b.size) bs

/-- The headers chain the blocks. -/
def Tiles (hdr : Nat → Header) : Nat → Nat → List Blk → Prop
  | _, _, [] => True
  | pv, p, b :: bs => hdr p = ⟨b.used, p + b.size, pv⟩ ∧ Tiles hdr p (p + b.size) bs

/-- Where the first free block starts; the end if there is none. -/
def lowestFree : Nat → List Blk → Nat
  | p, [] => p
  | p, b :: bs => if b.used then lowestFree (p + b.size) bs else p

/-- Where the first free block of at least `n` starts, of those that start
below `limit`. -/
def firstFit (limit n : Nat) : Nat → List Blk → Option Nat
  | _, [] => none
  | p, b :: bs =>
    if p < limit then
      if b.used = false ∧ n ≤ b.size then some p else firstFit limit n (p + b.size) bs
    else none

/-- The blocks in use, with their extents. -/
def usedBlocks : Nat → List Blk → List (Nat × Nat)
  | _, [] => []
  | p, b :: bs => (if b.used then [(p, b.size)] else []) ++ usedBlocks (p + b.size) bs

def usedTotal : List Blk → Nat
  | [] => 0
  | b :: bs => (if b.used then b.size else 0) + usedTotal bs

/-- No two free blocks are adjacent. -/
def Compact (bs : List Blk) : Prop := bs.IsChain fun a b => a.used = true ∨ b.used = true

instance (bs : List Blk) : Decidable (Compact bs) := inferInstanceAs (Decidable (List.IsChain _ _))

variable {hdr hdr' : Nat → Header} {pv pv' p q n limit : Nat} {b : Blk} {xs ys bs : List Blk}

/-! ## Appending -/

@[simp] theorem extent_nil : extent [] = 0 := rfl
@[simp] theorem extent_cons (b : Blk) (bs : List Blk) : extent (b :: bs) = b.size + extent bs := rfl

@[simp] theorem extent_append (xs ys : List Blk) : extent (xs ++ ys) = extent xs + extent ys := by
  induction xs with
  | nil => simp
  | cons b xs ih => simp [ih, Nat.add_assoc]

/-- The blocks of the second list start at the extent of the first. -/
theorem starts_append (p : Nat) (xs ys : List Blk) :
    starts p (xs ++ ys) = starts p xs ++ starts (p + extent xs) ys := by
  induction xs generalizing p with
  | nil => rfl
  | cons b xs ih => simp [starts, ih, Nat.add_assoc]

theorem lastStart_append (pv p : Nat) (xs ys : List Blk) :
    lastStart pv p (xs ++ ys) = lastStart (lastStart pv p xs) (p + extent xs) ys := by
  induction xs generalizing pv p with
  | nil => rfl
  | cons b xs ih => simp [lastStart, ih, Nat.add_assoc]

/-- Two lists are chained when each is, from where the other ends. -/
theorem tiles_append : Tiles hdr pv p (xs ++ ys) ↔
    Tiles hdr pv p xs ∧ Tiles hdr (lastStart pv p xs) (p + extent xs) ys := by
  induction xs generalizing pv p with
  | nil => simp [Tiles, lastStart]
  | cons b xs ih => simp [Tiles, lastStart, ih, and_assoc, Nat.add_assoc]

/-- The blocks in use of the second list lie behind the extent of the first. -/
theorem usedBlocks_append (p : Nat) (xs ys : List Blk) :
    usedBlocks p (xs ++ ys) = usedBlocks p xs ++ usedBlocks (p + extent xs) ys := by
  induction xs generalizing p with
  | nil => rfl
  | cons b xs ih => simp [usedBlocks, ih, Nat.add_assoc]

theorem usedTotal_append (xs ys : List Blk) :
    usedTotal (xs ++ ys) = usedTotal xs + usedTotal ys := by
  induction xs with
  | nil => simp [usedTotal]
  | cons b xs ih => simp [usedTotal, ih, Nat.add_assoc]

/-- What is in use is within the extent. -/
theorem usedTotal_le (bs : List Blk) : usedTotal bs ≤ extent bs := by
  induction bs with
  | nil => exact Nat.le_refl 0
  | cons b bs ih =>
    rw [usedTotal, extent_cons]
    split <;> omega

/-! ## Where blocks are -/

theorem starts_le (h : q ∈ starts p bs) : p ≤ q := by
  induction bs generalizing p with
  | nil => simp [starts] at h
  | cons b bs ih =>
    rcases List.mem_cons.mp h with rfl | h
    · exact Nat.le_refl q
    · exact Nat.le_trans (Nat.le_add_right p b.size) (ih h)

/-- A block starts at least one header's room before the end. -/
theorem starts_add_le (hsize : ∀ b ∈ bs, n ≤ b.size) (h : q ∈ starts p bs) :
    q + n ≤ p + extent bs := by
  induction bs generalizing p with
  | nil => simp [starts] at h
  | cons b bs ih =>
    have hb := hsize b List.mem_cons_self
    rw [extent_cons]
    rcases List.mem_cons.mp h with rfl | h
    · omega
    · have hrest := ih (fun c hc => hsize c (List.mem_cons_of_mem _ hc)) h
      omega

/-- A block in use has its place in the list, and the extent before it is its
address. -/
theorem mem_usedBlocks {a : Nat × Nat} : a ∈ usedBlocks p bs ↔
    ∃ xs ys, bs = xs ++ ⟨a.2, true⟩ :: ys ∧ a.1 = p + extent xs := by
  induction bs generalizing p with
  | nil => simp [usedBlocks]
  | cons b bs ih =>
    rw [usedBlocks, List.mem_append, ih]
    constructor
    · rintro (h | ⟨xs, ys, rfl, ha⟩)
      · cases hb : b.used with
        | false => simp [hb] at h
        | true =>
          simp only [hb, if_true, List.mem_singleton] at h
          subst h
          exact ⟨[], bs, by simp [← hb], rfl⟩
      · exact ⟨b :: xs, ys, rfl, by simp [ha, Nat.add_assoc]⟩
    · rintro ⟨xs, ys, hbs, ha⟩
      cases xs with
      | nil =>
        obtain ⟨rfl, rfl⟩ := List.cons.inj hbs
        exact .inl (by simp [← show a.1 = p from ha])
      | cons c xs =>
        obtain ⟨rfl, rfl⟩ := List.cons.inj hbs
        exact .inr ⟨xs, ys, rfl, by rw [ha]; simp [Nat.add_assoc]⟩

theorem usedBlocks_middle (p : Nat) (xs : List Blk) (n : Nat) (used : Bool) (ys : List Blk) :
    usedBlocks p (xs ++ ⟨n, used⟩ :: ys) = usedBlocks p xs ++
      ((if used then [(p + extent xs, n)] else []) ++ usedBlocks (p + extent xs + n) ys) := by
  rw [usedBlocks_append, usedBlocks]

/-- Blocks in use lie within the extent of the list. -/
theorem usedBlocks_within {a : Nat × Nat} (h : a ∈ usedBlocks p bs) :
    p ≤ a.1 ∧ a.1 + a.2 ≤ p + extent bs := by
  obtain ⟨xs, ys, rfl, ha⟩ := mem_usedBlocks.mp h
  rw [extent_append, extent_cons, ha]
  dsimp only
  omega

/-- Two blocks in use are the same or apart. -/
theorem usedBlocks_apart {a c : Nat × Nat} (ha : a ∈ usedBlocks p bs) (hc : c ∈ usedBlocks p bs) :
    a = c ∨ a.1 + a.2 ≤ c.1 ∨ c.1 + c.2 ≤ a.1 := by
  induction bs generalizing p with
  | nil => simp [usedBlocks] at ha
  | cons b bs ih =>
    have hfirst : ∀ d ∈ usedBlocks p (b :: bs), d = (p, b.size) ∨
        d ∈ usedBlocks (p + b.size) bs := by
      intro d hd
      rw [usedBlocks, List.mem_append] at hd
      refine hd.imp_left fun hd => ?_
      split at hd
      · exact List.mem_singleton.mp hd
      · exact absurd hd List.not_mem_nil
    rcases hfirst a ha with rfl | ha
    · rcases hfirst c hc with rfl | hc
      · exact .inl rfl
      · exact .inr (.inl (usedBlocks_within hc).1)
    · rcases hfirst c hc with rfl | hc
      · exact .inr (.inr (usedBlocks_within ha).1)
      · exact ih ha hc

theorem starts_cut : starts p (xs ++ b :: ys) =
    starts p xs ++ (p + extent xs) :: starts (p + extent xs + b.size) ys := by
  rw [starts_append, starts]

/-- A cut is where a block starts, or at the end. -/
theorem cut_mem_starts (p : Nat) (xs ys : List Blk) :
    p + extent xs ∈ starts p (xs ++ ys) ∨ extent xs = extent (xs ++ ys) := by
  cases ys with
  | nil => exact .inr (by simp)
  | cons b ys =>
    rw [starts_cut]
    exact .inl (List.mem_append_right _ List.mem_cons_self)

/-- Headers of other blocks lie outside a block. -/
theorem apart_of_mem_starts (hsize : ∀ c ∈ xs ++ b :: ys, n ≤ c.size)
    (hq : q ∈ starts p (xs ++ b :: ys)) :
    q = p + extent xs ∨ q + n ≤ p + extent xs ∨ p + extent xs + b.size ≤ q := by
  rw [starts_cut, List.mem_append, List.mem_cons] at hq
  rcases hq with hq | rfl | hq
  · exact .inr (.inl (starts_add_le (fun c hc => hsize c (by simp [hc])) hq))
  · exact .inl rfl
  · exact .inr (.inr (starts_le hq))

/-! ## Editing the chain -/

/-- The chain depends on the headers at the starts of blocks only. -/
theorem Tiles.congr (h : Tiles hdr pv p bs) (heq : ∀ a ∈ starts p bs, hdr' a = hdr a) :
    Tiles hdr' pv p bs := by
  induction bs generalizing pv p with
  | nil => trivial
  | cons b bs ih =>
    refine ⟨(heq p List.mem_cons_self).trans h.1, ih h.2 fun a ha => ?_⟩
    exact heq a (List.mem_cons_of_mem _ ha)

/-- Only the back link of the first block has changed. -/
theorem Tiles.relink (hn : 0 < n) (hsize : ∀ b ∈ bs, n ≤ b.size) (h : Tiles hdr pv p bs)
    (hfirst : bs ≠ [] → hdr' p = { hdr p with prev := pv' })
    (hrest : ∀ a ∈ starts p bs, a ≠ p → hdr' a = hdr a) : Tiles hdr' pv' p bs := by
  cases bs with
  | nil => trivial
  | cons b bs =>
    have hb := hsize b List.mem_cons_self
    refine ⟨?_, h.2.congr fun a ha => hrest a (List.mem_cons_of_mem _ ha) ?_⟩
    · rw [hfirst (List.cons_ne_nil b bs), h.1]
    · have hle := starts_le ha
      omega

/-- Some blocks are replaced by others of the same extent. -/
theorem Tiles.splice {pre mid mid' post : List Blk} (hn : 0 < n) (hsize : ∀ b ∈ post, n ≤ b.size)
    (h : Tiles hdr pv p (pre ++ (mid ++ post))) (hextent : extent mid' = extent mid)
    (hmid : Tiles hdr' (lastStart pv p pre) (p + extent pre) mid')
    (hback : post ≠ [] → hdr' (p + extent pre + extent mid) =
      { hdr (p + extent pre + extent mid) with
        prev := lastStart (lastStart pv p pre) (p + extent pre) mid' })
    (hpre : ∀ a ∈ starts p pre, hdr' a = hdr a)
    (hpost : ∀ a ∈ starts (p + extent pre + extent mid) post,
      a ≠ p + extent pre + extent mid → hdr' a = hdr a) :
    Tiles hdr' pv p (pre ++ (mid' ++ post)) := by
  rw [tiles_append, tiles_append] at h ⊢
  refine ⟨h.1.congr hpre, hmid, ?_⟩
  rw [hextent]
  exact h.2.2.relink hn hsize hback hpost

/-! ## The lowest free block -/

/-- The first free block is not below the start of the list. -/
theorem le_lowestFree (p : Nat) (bs : List Blk) : p ≤ lowestFree p bs := by
  induction bs generalizing p with
  | nil => exact Nat.le_refl p
  | cons b bs ih =>
    rw [lowestFree]
    split
    · exact Nat.le_trans (Nat.le_add_right p b.size) (ih _)
    · exact Nat.le_refl p

/-- The first free block is in the first list unless all of that is in use. -/
theorem lowestFree_append (p : Nat) (xs ys : List Blk) : lowestFree p (xs ++ ys) =
    if xs.all (·.used) then lowestFree (p + extent xs) ys else lowestFree p xs := by
  induction xs generalizing p with
  | nil => rfl
  | cons b xs ih =>
    rw [List.cons_append, lowestFree, ih, List.all_cons, extent_cons, lowestFree, Nat.add_assoc]
    cases b.used <;> simp

/-- Before the lowest free block everything is in use. -/
theorem lowestFree_split (p : Nat) (bs : List Blk) : ∃ xs ys, bs = xs ++ ys ∧
    (∀ b ∈ xs, b.used = true) ∧ lowestFree p bs = p + extent xs ∧
      ∀ b, ys.head? = some b → b.used = false := by
  induction bs generalizing p with
  | nil => exact ⟨[], [], rfl, nofun, rfl, nofun⟩
  | cons b bs ih =>
    rw [lowestFree]
    cases hb : b.used with
    | false => exact ⟨[], b :: bs, rfl, nofun, rfl, fun c hc => Option.some.inj hc ▸ hb⟩
    | true =>
      obtain ⟨xs, ys, rfl, hxs, hlow, hys⟩ := ih (p + b.size)
      refine ⟨b :: xs, ys, rfl, ?_, ?_, hys⟩
      · rintro c hc
        rcases List.mem_cons.mp hc with rfl | hc
        · exact hb
        · exact hxs c hc
      · rw [if_pos rfl, hlow, extent_cons, Nat.add_assoc]

/-- A free block is not below the first one. -/
theorem lowestFree_le_of_free (p : Nat) (xs : List Blk) {b : Blk} (ys : List Blk)
    (hb : b.used = false) : lowestFree p (xs ++ b :: ys) ≤ p + extent xs := by
  rw [lowestFree_append]
  split
  · rw [lowestFree, hb]
    exact Nat.le_refl _
  · next hall =>
    clear hall
    induction xs generalizing p with
    | nil => exact Nat.le_refl _
    | cons c xs ih =>
      rw [lowestFree, extent_cons]
      split
      · exact Nat.add_assoc p c.size _ ▸ ih _
      · omega

/-- If the lowest free block starts behind `xs`, all of `xs` is in use. -/
theorem all_used_of_lowestFree (h : lowestFree p (xs ++ b :: ys) = p + extent xs)
    (hsize : ∀ c ∈ xs, 0 < c.size) : xs.all (·.used) = true := by
  induction xs generalizing p with
  | nil => rfl
  | cons c xs ih =>
    have hc := hsize c List.mem_cons_self
    rw [List.cons_append, lowestFree, extent_cons] at h
    split at h
    · next hused =>
      rw [List.all_cons, hused, Bool.true_and]
      exact ih (by rw [h, Nat.add_assoc]) fun d hd => hsize d (List.mem_cons_of_mem _ hd)
    · omega

/-- A block that becomes free may be the lowest one. -/
theorem lowestFree_release (p size : Nat) (pre post : List Blk) :
    lowestFree p (pre ++ ⟨size, false⟩ :: post) =
      min (p + extent pre) (lowestFree p (pre ++ ⟨size, true⟩ :: post)) := by
  rw [lowestFree_append, lowestFree_append]
  split
  · have hle := le_lowestFree (p + extent pre + size) post
    simp only [lowestFree, if_true, Bool.false_eq_true, if_false]
    omega
  · next hall =>
    have hle := lowestFree_le_of_free p pre post (b := ⟨size, false⟩) rfl
    rw [lowestFree_append, if_neg hall] at hle
    omega

/-! ## First fit -/

/-- What is found, and that nothing before it would do. -/
theorem firstFit_some (h : firstFit limit n p bs = some q) :
    ∃ xs b ys, bs = xs ++ b :: ys ∧ q = p + extent xs ∧ b.used = false ∧ n ≤ b.size ∧ q < limit ∧
      ∀ c ∈ xs, c.used = false → c.size < n := by
  induction bs generalizing p with
  | nil => simp [firstFit] at h
  | cons b bs ih =>
    rw [firstFit] at h
    split at h
    · next hlt =>
      split at h
      · next hfit =>
        obtain rfl := Option.some.inj h
        exact ⟨[], b, bs, rfl, rfl, hfit.1, hfit.2, hlt, nofun⟩
      · next hfit =>
        obtain ⟨xs, c, ys, rfl, rfl, hfree, hn, hlt, hxs⟩ := ih h
        refine ⟨b :: xs, c, ys, rfl, by simp [Nat.add_assoc], hfree, hn, hlt, fun d hd hdfree => ?_⟩
        rcases List.mem_cons.mp hd with rfl | hd
        · exact Nat.not_le.mp fun hle => hfit ⟨hdfree, hle⟩
        · exact hxs d hd hdfree
    · simp at h

/-- The search fails exactly if no free block below the limit is large
enough. -/
theorem firstFit_none_iff : firstFit limit n p bs = none ↔
    ∀ xs b ys, bs = xs ++ b :: ys → b.used = false → n ≤ b.size → limit ≤ p + extent xs := by
  induction bs generalizing p with
  | nil => simp [firstFit]
  | cons b bs ih =>
    rw [firstFit]
    constructor
    · intro h xs c ys hbs hfree hfit
      cases xs with
      | nil =>
        obtain ⟨rfl, rfl⟩ := List.cons.inj hbs
        by_contra hlt
        rw [if_pos (by simpa using hlt), if_pos ⟨hfree, hfit⟩] at h
        simp at h
      | cons d xs =>
        obtain ⟨rfl, rfl⟩ := List.cons.inj hbs
        split at h
        · split at h
          · simp at h
          · rw [extent_cons, ← Nat.add_assoc]
            exact ih.mp h xs c ys rfl hfree hfit
        · rw [extent_cons]
          omega
    · intro h
      split
      · next hlt =>
        rw [if_neg, ih]
        · intro xs c ys hbs hfree hfit
          rw [Nat.add_assoc, ← extent_cons]
          exact h (b :: xs) c ys (by rw [hbs]; rfl) hfree hfit
        · intro hfit
          have hle := h [] b bs rfl hfit.1 hfit.2
          rw [extent_nil] at hle
          omega
      · rfl

/-! ## Joining free blocks -/

/-- The same blocks are in use, and what is free begins at the same place. -/
structure SameUse (bs bs' : List Blk) : Prop where
  usedBlocks : ∀ p, usedBlocks p bs' = usedBlocks p bs
  usedTotal : usedTotal bs' = usedTotal bs
  lowestFree : ∀ p, lowestFree p bs' = lowestFree p bs

theorem SameUse.refl (bs : List Blk) : SameUse bs bs := ⟨fun _ => rfl, rfl, fun _ => rfl⟩

theorem SameUse.trans {bs' bs'' : List Blk} (h : SameUse bs bs') (h' : SameUse bs' bs'') :
    SameUse bs bs'' where
  usedBlocks p := (h'.usedBlocks p).trans (h.usedBlocks p)
  usedTotal := h'.usedTotal.trans h.usedTotal
  lowestFree p := (h'.lowestFree p).trans (h.lowestFree p)

/-- Joining two adjacent free blocks changes nothing in what is in use. -/
theorem sameUse_join (pre : List Blk) (a c : Nat) (post : List Blk) :
    SameUse (pre ++ ⟨a, false⟩ :: ⟨c, false⟩ :: post) (pre ++ ⟨a + c, false⟩ :: post) where
  usedBlocks p := by simp [BlockList.usedBlocks_append, BlockList.usedBlocks, Nat.add_assoc]
  usedTotal := by simp [usedTotal_append, BlockList.usedTotal]
  lowestFree p := by simp [lowestFree_append, BlockList.lowestFree]

/-! ## Compact lists -/

/-- No two free blocks are adjacent around a block: its own neighbours are in
use, or it is. -/
theorem compact_middle {pre post : List Blk} : Compact (pre ++ b :: post) ↔
    Compact pre ∧ Compact post ∧ (b.used = true ∨
      (∀ c ∈ pre.getLast?, c.used = true) ∧ ∀ c ∈ post.head?, c.used = true) := by
  simp only [Compact, List.isChain_append, List.isChain_cons, List.head?_cons, Option.mem_def,
    Option.some.injEq, forall_eq']
  cases b.used with
  | true => simp
  | false => simp [and_left_comm, and_comm]

theorem compact_cons : Compact (b :: bs) ↔
    Compact bs ∧ (b.used = true ∨ ∀ c ∈ bs.head?, c.used = true) := by
  simp only [Compact, List.isChain_cons, Option.mem_def]
  cases b.used with
  | true => simp
  | false => simp [and_comm]

/-- A compact list with nothing in use is one free block. -/
theorem Compact.eq_singleton (h : Compact bs) (hused : usedBlocks p bs = []) (hne : bs ≠ []) :
    bs = [⟨extent bs, false⟩] := by
  have hfree : ∀ b ∈ bs, b.used = false := by
    intro b hb
    obtain ⟨xs, ys, rfl⟩ := List.append_of_mem hb
    cases hu : b.used with
    | false => rfl
    | true =>
      have hmem : (p + extent xs, b.size) ∈ usedBlocks p (xs ++ b :: ys) :=
        mem_usedBlocks.mpr ⟨xs, ys, by rw [← hu], rfl⟩
      rw [hused] at hmem
      exact absurd hmem List.not_mem_nil
  cases bs with
  | nil => exact absurd rfl hne
  | cons b bs =>
    cases bs with
    | nil =>
      have hb := hfree b List.mem_cons_self
      simp [← hb]
    | cons c bs =>
      have hpair : b.used = true ∨ c.used = true := (List.isChain_cons_cons.mp h).1
      simp [hfree b List.mem_cons_self, hfree c (List.mem_cons_of_mem _ List.mem_cons_self)]
        at hpair

end BlockList

end Ch583Kbd.Lib
