/-
Ch583Kbd.Lib.CircularArray — segments of a circular array, and the list of
the most recent distinct elements.

A circular array of `n` slots is a function from indices. `Segment f n i
xs` says that the slots from `i` on hold `xs`; the index wraps round at
`n`. The whole array is a segment of length `n` from any of its indices
(`Segment.rotate`), and a write changes one element of it
(`Segment.write`).

`recent n l a` is what a cache of `n` places that drops its oldest entry
makes of `a`.
-/
import Mathlib.Data.List.Basic
import Mathlib.Data.List.Nodup
import Mathlib.Data.Nat.ModEq

namespace Ch583Kbd.Lib

variable {α : Type}

/-- The slots of the circular array `f` from `i` on hold `xs`. -/
def Segment (f : Nat → α) (n : Nat) : Nat → List α → Prop
  | _, [] => True
  | i, x :: xs => f (i % n) = x ∧ Segment f n (i + 1) xs

variable {f g : Nat → α} {n i : Nat} {xs ys : List α} {x a : α}

@[simp] theorem segment_nil : Segment f n i [] := trivial

@[simp] theorem segment_cons :
    Segment f n i (x :: xs) ↔ f (i % n) = x ∧ Segment f n (i + 1) xs := Iff.rfl

/-- A segment in two parts: the second begins where the first ends. -/
theorem segment_append :
    Segment f n i (xs ++ ys) ↔ Segment f n i xs ∧ Segment f n (i + xs.length) ys := by
  induction xs generalizing i with
  | nil => simp
  | cons x xs ih =>
    rw [List.cons_append, segment_cons, segment_cons, ih, List.length_cons, and_assoc]
    rw [Nat.add_assoc, Nat.add_comm 1]

/-- A segment does not care how often its index has wrapped round. -/
theorem segment_index {j : Nat} (h : i % n = j % n) : Segment f n i xs ↔ Segment f n j xs := by
  induction xs generalizing i j with
  | nil => simp
  | cons x xs ih =>
    rw [segment_cons, segment_cons, h]
    refine and_congr_right fun _ => ih ?_
    rw [Nat.add_mod, h, ← Nat.add_mod]

/-- Different positions of a segment lie in different slots. -/
theorem slot_ne {p q : Nat} (hp : p < n) (hq : q < n) (hpq : p ≠ q) :
    (i + p) % n ≠ (i + q) % n := by
  intro h
  have hmod : p ≡ q [MOD n] := Nat.ModEq.add_left_cancel' i h
  exact hpq (Nat.ModEq.eq_of_lt_of_lt hmod hp hq)

/-- A segment depends on its own slots only. -/
theorem Segment.congr (h : Segment f n i xs)
    (hfg : ∀ p < xs.length, g ((i + p) % n) = f ((i + p) % n)) : Segment g n i xs := by
  induction xs generalizing i with
  | nil => trivial
  | cons x xs ih =>
    obtain ⟨hx, hxs⟩ := h
    refine ⟨(hfg 0 (by simp)).trans hx, ih hxs fun p hp => ?_⟩
    have hp' : p + 1 < (x :: xs).length := by simpa using hp
    have hnext := hfg (p + 1) hp'
    rw [← Nat.add_assoc, Nat.add_right_comm] at hnext
    exact hnext

/-- The slots of a segment, one by one. -/
theorem Segment.getElem (h : Segment f n i xs) {p : Nat} (hp : p < xs.length) :
    f ((i + p) % n) = xs[p] := by
  induction xs generalizing i p with
  | nil => exact absurd hp (Nat.not_lt_zero _)
  | cons x xs ih =>
    cases p with
    | zero => exact h.1
    | succ p =>
      have hp' := ih h.2 (Nat.lt_of_succ_lt_succ hp)
      rw [Nat.add_assoc, Nat.add_comm 1] at hp'
      exact hp'

/-- Writing one slot of a segment changes that element only. -/
theorem Segment.write (h : Segment f n i (xs ++ x :: ys)) (hlen : xs.length + ys.length < n)
    (hat : g ((i + xs.length) % n) = a)
    (helse : ∀ j, j ≠ (i + xs.length) % n → g j = f j) : Segment g n i (xs ++ a :: ys) := by
  obtain ⟨hxs, -, hys⟩ := segment_append.mp h
  refine segment_append.mpr ⟨hxs.congr fun p hp => ?_, hat, hys.congr fun p hp => ?_⟩
  · exact helse _ (slot_ne (by omega) (by omega) (by omega))
  · rw [Nat.add_assoc, Nat.add_assoc]
    refine helse _ (slot_ne (by omega) (by omega) (by omega))

/-- The whole array, read from the next slot on, ends with the first element. -/
theorem Segment.rotate (h : Segment f n i (x :: xs)) (hlen : (x :: xs).length = n) :
    Segment f n (i + 1) (xs ++ [x]) := by
  obtain ⟨hx, hxs⟩ := h
  refine segment_append.mpr ⟨hxs, ?_, trivial⟩
  have hround : i + 1 + xs.length = i + n := by
    rw [← hlen, List.length_cons]
    omega
  rw [hround, Nat.add_mod_right, hx]

/-- The whole array, read from the slot before, begins with the last element. -/
theorem Segment.unrotate (h : Segment f n (i + 1) (xs ++ [x])) (hlen : (xs ++ [x]).length = n) :
    Segment f n i (x :: xs) := by
  obtain ⟨hxs, hx, -⟩ := segment_append.mp h
  have hround : i + 1 + xs.length = i + n := by
    rw [← hlen, List.length_append, List.length_singleton]
    omega
  rw [hround, Nat.add_mod_right] at hx
  exact ⟨hx, hxs⟩

/-- A segment is determined by the array, its start and its length. -/
theorem Segment.eq_map (h : Segment f n i xs) :
    (List.range xs.length).map (fun p => f ((i + p) % n)) = xs := by
  induction xs generalizing i with
  | nil => rfl
  | cons x xs ih =>
    obtain ⟨hx, hxs⟩ := h
    rw [List.length_cons, List.range_succ_eq_map, List.map_cons, List.map_map, Nat.add_zero, hx]
    refine congrArg (x :: ·) ?_
    rw [← ih hxs]
    simp [Nat.add_assoc, Nat.add_comm 1]

/-- The slots in the order of their indices are the segment, rotated. -/
theorem Segment.perm (h : Segment f n i xs) (hlen : xs.length = n) :
    ((List.range n).map f).Perm xs := by
  induction i generalizing xs with
  | zero =>
    rw [← h.eq_map, hlen]
    refine List.Perm.of_eq (List.map_congr_left fun p hp => ?_)
    rw [Nat.zero_add, Nat.mod_eq_of_lt (List.mem_range.mp hp)]
  | succ i ih =>
    rcases List.eq_nil_or_concat xs with rfl | ⟨ys, y, rfl⟩
    · rw [← hlen]
      rfl
    · rw [List.concat_eq_append] at h hlen ⊢
      exact (ih (h.unrotate hlen) (by simpa [Nat.add_comm] using hlen)).trans
        (List.perm_append_singleton y ys).symm

/-! ## The most recent distinct elements -/

variable [DecidableEq α]

/-- Add `a` to a list that keeps `n` elements: nothing changes if it is
there, and a full list drops its oldest. -/
def recent (n : Nat) (l : List α) (a : α) : List α :=
  if a ∈ l then l
  else if l.length < n then l ++ [a]
  else l.tail ++ [a]

theorem mem_recent (n : Nat) (l : List α) (a : α) : a ∈ recent n l a := by
  unfold recent
  split
  · assumption
  · split <;> simp

/-- What is kept was there before or is the new element. -/
theorem mem_of_mem_recent {n : Nat} {l : List α} {a b : α} (h : b ∈ recent n l a) :
    b ∈ l ∨ b = a := by
  unfold recent at h
  split at h
  · exact .inl h
  · split at h
    · simpa using h
    · rcases List.mem_append.mp h with h | h
      · exact .inl (List.mem_of_mem_tail h)
      · exact .inr (List.mem_singleton.mp h)

/-- While there is room nothing is dropped. -/
theorem mem_recent_of_room {n : Nat} {l : List α} {a b : α} (h : a ∈ l ∨ l.length < n) :
    b ∈ recent n l a ↔ b = a ∨ b ∈ l := by
  unfold recent
  by_cases hin : a ∈ l
  · rw [if_pos hin]
    exact ⟨.inr, fun hb => hb.elim (fun heq => heq ▸ hin) id⟩
  · rw [if_neg hin, if_pos (h.resolve_left hin), List.mem_append, List.mem_singleton, or_comm]

/-- While there is room no element stands twice. -/
theorem nodup_recent_of_room {n : Nat} {l : List α} {a : α} (hl : l.Nodup)
    (h : a ∈ l ∨ l.length < n) : (recent n l a).Nodup := by
  unfold recent
  by_cases hin : a ∈ l
  · rwa [if_pos hin]
  · rw [if_neg hin, if_pos (h.resolve_left hin)]
    exact hl.append (List.nodup_singleton a) (List.disjoint_singleton.mpr hin)

end Ch583Kbd.Lib
