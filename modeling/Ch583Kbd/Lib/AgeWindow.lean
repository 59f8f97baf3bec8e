/-
Ch583Kbd.Lib.AgeWindow — the recent part of a history of events with their
ages.

A history has its newest event first. `window n limit` is what a buffer of
`n` places that forgets what is older than `limit` has to hold of it,
oldest first. `window_record` and `window_elapse` compute the window after
an event and after some time from the window before, so that the buffer
need not know the history.
-/
import Mathlib.Data.List.Basic

namespace Ch583Kbd.Lib

variable {α : Type}

/-- Events with their ages, newest first. -/
abbrev AgeHistory (α : Type) := List (α × Nat)

namespace AgeHistory

def record (a : α) (h : AgeHistory α) : AgeHistory α := (a, 0) :: h

/-- All events are `d` older. -/
def elapse (d : Nat) (h : AgeHistory α) : AgeHistory α := h.map fun e => (e.1, e.2 + d)

/-- No event is older than one that came before it. -/
def Ordered (h : AgeHistory α) : Prop := h.Pairwise fun e f => e.2 ≤ f.2

/-- The latest `n` events of at most the age `limit`, oldest first. -/
def window (n limit : Nat) (h : AgeHistory α) : List (α × Nat) :=
  ((h.filter fun e => e.2 ≤ limit).take n).reverse

variable {n limit d : Nat} {h : AgeHistory α} {a : α}

theorem ordered_nil : Ordered ([] : AgeHistory α) := List.Pairwise.nil

/-- A new event, of age zero, keeps the order. -/
theorem Ordered.record (hord : Ordered h) : Ordered (h.record a) :=
  List.pairwise_cons.mpr ⟨fun _ _ => Nat.zero_le _, hord⟩

/-- Time passing keeps the order. -/
theorem Ordered.elapse (hord : Ordered h) : Ordered (h.elapse d) :=
  List.pairwise_map.mpr (hord.imp fun hle => Nat.add_le_add_right hle d)

/-- In an ordered history it does not matter what comes first, the bound
on the age or the one on the number: behind an event that is too old all
are. -/
theorem take_filter (hord : Ordered h) :
    (h.filter fun e => e.2 ≤ limit).take n = (h.take n).filter fun e => e.2 ≤ limit := by
  induction h generalizing n with
  | nil => simp
  | cons e h ih =>
    obtain ⟨hle, hord⟩ := List.pairwise_cons.mp hord
    cases n with
    | zero => simp
    | succ n =>
      by_cases he : e.2 ≤ limit
      · rw [List.filter_cons_of_pos (by simpa using he), List.take_succ_cons, List.take_succ_cons,
          List.filter_cons_of_pos (by simpa using he), ih hord]
      · have hold : ∀ f ∈ e :: h, ¬f.2 ≤ limit := by
          intro f hf
          rcases List.mem_cons.mp hf with rfl | hf
          · exact he
          · exact fun hlim => he (Nat.le_trans (hle f hf) hlim)
        rw [List.filter_eq_nil_iff.mpr (by simpa using hold), List.take_nil, eq_comm,
          List.filter_eq_nil_iff]
        intro f hf
        simpa using hold f (List.mem_of_mem_take hf)

@[simp] theorem window_nil : window n limit ([] : AgeHistory α) = [] := by
  simp [window]

/-- A window of `n` has at most `n` events. -/
theorem length_window_le : (window n limit h).length ≤ n := by
  rw [window, List.length_reverse, List.length_take]
  exact Nat.min_le_left n _

/-- In a window the oldest event comes first. -/
theorem window_pairwise (hord : Ordered h) :
    (window n limit h).Pairwise fun e f => f.2 ≤ e.2 :=
  List.pairwise_reverse.mpr ((hord.sublist List.filter_sublist).sublist (List.take_sublist _ _))

/-- A new event enters at the end; in a full window the first one makes
room for it. -/
theorem window_record (hn : 0 < n) :
    window n limit (h.record a) =
      (window n limit h).drop ((window n limit h).length + 1 - n) ++ [(a, 0)] := by
  obtain ⟨n, rfl⟩ := Nat.exists_eq_succ_of_ne_zero (Nat.ne_of_gt hn)
  rw [record, window, List.filter_cons_of_pos (by simp), List.take_succ_cons, List.reverse_cons]
  refine congrArg (· ++ [(a, 0)]) ?_
  rw [window, List.drop_reverse, List.length_reverse, List.take_take, List.length_take]
  refine congrArg List.reverse ?_
  rw [List.take_eq_take_iff]
  omega

/-- After a time, the window is the old one that much older, less what has
become too old. -/
theorem window_elapse (hord : Ordered h) :
    window n limit (h.elapse d) =
      ((window n limit h).map fun e => (e.1, e.2 + d)).filter fun e => e.2 ≤ limit := by
  have hkeep : (h.take n).filter (fun e => e.2 + d ≤ limit) =
      ((h.take n).filter fun e => e.2 ≤ limit).filter fun e => e.2 + d ≤ limit := by
    rw [List.filter_filter]
    refine List.filter_congr fun e _ => ?_
    have hle : e.2 + d ≤ limit → e.2 ≤ limit := Nat.le_trans (Nat.le_add_right _ d)
    simpa using hle
  rw [window, take_filter hord.elapse, window, take_filter hord, elapse, ← List.map_take,
    List.filter_map, ← List.map_reverse, List.filter_map, List.filter_reverse]
  refine congrArg (List.map _) ?_
  exact congrArg List.reverse hkeep

end AgeHistory

end Ch583Kbd.Lib
