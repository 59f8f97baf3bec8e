/-
Ch583Kbd.Lib.StableInsert — a list in the order of a key, where an element
is put behind those of the same key.

`insertLast` keeps the order (`pairwise_insertLast`) and is a cut of the
list with the element in it (`insertLast_eq`), so what was in the list stays
in its own order.
-/
import Mathlib.Data.List.Nodup

namespace Ch583Kbd.Lib

variable {α : Type} {key : α → Nat} {a : α} {l : List α}

/-- Put `a` before the first element with a greater key. -/
def insertLast (key : α → Nat) (a : α) : List α → List α
  | [] => [a]
  | b :: l => if key a < key b then a :: b :: l else b :: insertLast key a l

/-- The list is cut in two, and `a` is put there. -/
theorem insertLast_eq (key : α → Nat) (a : α) (l : List α) :
    ∃ xs ys, l = xs ++ ys ∧ insertLast key a l = xs ++ a :: ys ∧ (∀ b ∈ xs, key b ≤ key a) ∧
      ∀ b ∈ ys.head?, key a < key b := by
  induction l with
  | nil => exact ⟨[], [], rfl, rfl, nofun, nofun⟩
  | cons b l ih =>
    rw [insertLast]
    split
    · next hlt => exact ⟨[], b :: l, rfl, rfl, nofun, fun c hc => Option.some.inj hc ▸ hlt⟩
    · next hge =>
      obtain ⟨xs, ys, rfl, heq, hxs, hys⟩ := ih
      refine ⟨b :: xs, ys, rfl, by rw [heq]; rfl, fun c hc => ?_, hys⟩
      rcases List.mem_cons.mp hc with rfl | hc
      · exact Nat.not_lt.mp hge
      · exact hxs c hc

/-- An insertion adds its element and loses none. -/
theorem perm_insertLast (key : α → Nat) (a : α) (l : List α) :
    (insertLast key a l).Perm (a :: l) := by
  obtain ⟨xs, ys, rfl, heq, -⟩ := insertLast_eq key a l
  rw [heq]
  exact List.perm_middle

@[simp] theorem mem_insertLast {b : α} : b ∈ insertLast key a l ↔ b = a ∨ b ∈ l := by
  rw [(perm_insertLast key a l).mem_iff, List.mem_cons]

/-- Inserting a new element brings no element twice. -/
theorem nodup_insertLast (ha : a ∉ l) (h : l.Nodup) : (insertLast key a l).Nodup :=
  (perm_insertLast key a l).nodup_iff.mpr (List.nodup_cons.mpr ⟨ha, h⟩)

/-- An insertion keeps the list sorted. -/
theorem pairwise_insertLast (h : l.Pairwise fun b c => key b ≤ key c) :
    (insertLast key a l).Pairwise fun b c => key b ≤ key c := by
  induction l with
  | nil => exact List.pairwise_singleton _ _
  | cons b l ih =>
    obtain ⟨hb, hl⟩ := List.pairwise_cons.mp h
    rw [insertLast]
    split
    · next hlt =>
      refine List.pairwise_cons.mpr ⟨fun c hc => ?_, h⟩
      rcases List.mem_cons.mp hc with rfl | hc
      · exact Nat.le_of_lt hlt
      · exact Nat.le_trans (Nat.le_of_lt hlt) (hb c hc)
    · next hge =>
      refine List.pairwise_cons.mpr ⟨fun c hc => ?_, ih hl⟩
      rcases mem_insertLast.mp hc with rfl | hc
      · exact Nat.not_lt.mp hge
      · exact hb c hc

end Ch583Kbd.Lib
