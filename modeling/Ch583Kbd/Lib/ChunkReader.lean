/-
Ch583Kbd.Lib.ChunkReader — reading an object in pieces of a fixed size.

A reader knows where it stands and how much it has to deliver from there.
The pieces of any number of reads make up what stands there, without a gap
or a repetition (`flatten_pieces`), and `reach` is how far they look.
-/
import Mathlib.Data.List.Basic

namespace Ch583Kbd.Lib

/-- The next position, and the length to read from there on. -/
structure ChunkReader where
  offset : Nat
  remaining : Nat
  deriving DecidableEq, Repr

namespace ChunkReader

variable {α : Type} (size : Nat) (r : ChunkReader) (n : Nat)

/-- The length of the next piece. -/
def due : Nat := min r.remaining size

/-- The reader after a piece. -/
def next : ChunkReader where
  offset := r.offset + r.due size
  remaining := r.remaining - r.due size

/-- The next piece. -/
def piece (obj : List α) : List α := (obj.drop r.offset).take (r.due size)

def pieces (obj : List α) (r : ChunkReader) : Nat → List (List α)
  | 0 => []
  | n + 1 => r.piece size obj :: (r.next size).pieces obj n

/-- The end of the first `n` pieces. -/
def reach : Nat := r.offset + min (size * n) r.remaining

@[simp] theorem reach_zero : r.reach size 0 = r.offset := by simp [reach]

/-- The pieces of the next reader end where one more piece of this one does. -/
theorem reach_next : (r.next size).reach size n = r.reach size (n + 1) := by
  simp only [reach, next, due, Nat.mul_succ]
  omega

/-- The next piece ends within the reach of one or more pieces. -/
theorem due_le_reach : r.offset + r.due size ≤ r.reach size (n + 1) := by
  rw [← reach_next]
  exact Nat.le_add_right _ _

/-- A piece is no longer than the packet size. -/
theorem piece_length_le (obj : List α) : (r.piece size obj).length ≤ size := by
  unfold piece due
  exact Nat.le_trans (List.length_take_le _ _) (Nat.min_le_right _ _)

theorem mem_pieces {obj : List α} {p : List α} :
    ∀ {n : Nat} {r : ChunkReader}, p ∈ r.pieces size obj n → p.length ≤ size := by
  intro n
  induction n with
  | zero => nofun
  | succ n ih =>
    intro r hp
    rcases List.mem_cons.mp hp with rfl | hp
    · exact r.piece_length_le size obj
    · exact ih hp

/-- Fewer pieces are the first of more. -/
theorem take_pieces (obj : List α) : (r.pieces size obj (n + 1)).take n = r.pieces size obj n := by
  induction n generalizing r with
  | zero => rfl
  | succ n ih =>
    show r.piece size obj :: ((r.next size).pieces size obj (n + 1)).take n = _
    rw [ih]
    rfl

/-- The pieces together are the object from the offset on, as far as they reach. -/
theorem flatten_pieces (obj : List α) :
    (r.pieces size obj n).flatten = (obj.drop r.offset).take (min (size * n) r.remaining) := by
  induction n generalizing r with
  | zero => simp [pieces]
  | succ n ih =>
    have hlen : min (size * (n + 1)) r.remaining =
        r.due size + min (size * n) (r.next size).remaining := by
      simp only [next, due, Nat.mul_succ]
      omega
    rw [pieces, List.flatten_cons, ih, hlen, List.take_add, List.drop_drop]
    rfl

end ChunkReader

end Ch583Kbd.Lib
