/-
Ch583Kbd.Lib.Debounce — a debouncer that counts down.

It reloads its counter with every new value, lets it run down while the
value stays, and passes the value on in the step in which the counter
reaches 0. From a counter of `n` at the start its output follows the
input exactly: it changes only to values that came `n` times in a row
(`stable_of_change`) and has every value that did (`out_of_stable`).
-/
import Ch583Kbd.Lib.Trace
import Mathlib.Data.List.Induction

namespace Ch583Kbd.Lib

variable {α : Type}

/-- The last `n` values are all `x`. -/
def StableFor (n : Nat) (history : List α) (x : α) : Prop := List.replicate n x <:+ history

instance [DecidableEq α] (n : Nat) (history : List α) (x : α) :
    Decidable (StableFor n history x) :=
  inferInstanceAs (Decidable (_ <:+ _))

@[simp] theorem stableFor_zero (history : List α) (x : α) : StableFor 0 history x :=
  List.nil_suffix

@[simp] theorem stableFor_nil (n : Nat) (x : α) : StableFor n [] x ↔ n = 0 := by
  simp [StableFor]

@[simp] theorem stableFor_concat (n : Nat) (history : List α) (x y : α) :
    StableFor (n + 1) (history ++ [y]) x ↔ y = x ∧ StableFor n history x := by
  rw [StableFor, List.replicate_succ', List.suffix_concat_iff]
  constructor
  · rintro (hnil | ⟨past, happend, hpast⟩)
    · simp at hnil
    · obtain ⟨rfl, hxy⟩ := List.append_inj' happend rfl
      exact ⟨(List.singleton_inj.mp hxy).symm, hpast⟩
  · rintro ⟨rfl, hpast⟩
    exact .inr ⟨_, rfl, hpast⟩

/-- A value that is stable for one or more is the last one. -/
theorem StableFor.getLast? {n : Nat} {history : List α} {x : α} (hn : 0 < n)
    (h : StableFor n history x) : history.getLast? = some x := by
  obtain ⟨n, rfl⟩ := Nat.exists_eq_succ_of_ne_zero (Nat.ne_of_gt hn)
  obtain ⟨past, rfl⟩ := h
  rw [List.replicate_succ', ← List.append_assoc, List.getLast?_concat]

structure Debouncer (α : Type) where
  pending : α
  wait : Nat
  out : α

namespace Debouncer

variable [DecidableEq α]

def step (n : Nat) (d : Debouncer α) (x : α) : Debouncer α :=
  let wait := if d.pending = x then d.wait else n
  { pending := x, wait := wait - 1, out := if wait = 1 then x else d.out }

def run (n : Nat) (d : Debouncer α) (history : List α) : Debouncer α := history.foldl (step n) d

theorem run_concat (n : Nat) (d : Debouncer α) (history : List α) (x : α) :
    run n d (history ++ [x]) = step n (run n d history) x := by
  simp [run]

/-- What the counter says about the values so far: how much of it is gone
is the number of times the last value came in a row. -/
structure Counts (n : Nat) (history : List α) (d : Debouncer α) : Prop where
  pending : ∀ x, history.getLast? = some x → d.pending = x
  bound : d.wait ≤ n
  exact : ∀ k, 0 < k → k ≤ n → (d.wait + k ≤ n ↔ StableFor k history d.pending)
  settled : d.wait = 0 → d.out = d.pending

omit [DecidableEq α] in
theorem counts_start {n : Nat} (hn : n ≠ 0) (x : α) : Counts n [] ⟨x, n, x⟩ where
  pending := by simp
  bound := Nat.le_refl n
  exact k hk _ := by
    rw [stableFor_nil]
    show n + k ≤ n ↔ k = 0
    omega
  settled hwait := absurd hwait hn

/-- **A step counts on**: a repeated value uses up one more, a new one starts
again. -/
theorem Counts.step {n : Nat} {history : List α} {d : Debouncer α} (hn : 0 < n)
    (h : Counts n history d) (x : α) : Counts n (history ++ [x]) (d.step n x) := by
  have hbound := h.bound
  refine ⟨by simp [Debouncer.step], ?_, fun k hk hkn => ?_, fun hwait => ?_⟩
  · simp only [Debouncer.step]
    split <;> omega
  · obtain ⟨k, rfl⟩ := Nat.exists_eq_succ_of_ne_zero (Nat.ne_of_gt hk)
    simp only [Debouncer.step, Nat.succ_eq_add_one, stableFor_concat, true_and]
    rcases Nat.eq_zero_or_pos k with rfl | hpos
    · simp only [stableFor_zero, iff_true]
      split <;> omega
    · have hexact := h.exact k hpos (by omega)
      by_cases hx : d.pending = x
      · rw [if_pos hx, ← hx, ← hexact]
        omega
      · -- the last value was another one, so `x` has not come before it
        have hnot : ¬ StableFor k history x := fun hstable =>
          hx (h.pending x (hstable.getLast? hpos))
        simp only [hx, if_false, hnot, iff_false]
        omega
  · simp only [Debouncer.step] at hwait ⊢
    split at hwait
    · next hx =>
      rw [if_pos hx]
      split
      · rfl
      · rw [h.settled (by omega), hx]
    · next hx =>
      rw [if_neg hx, if_pos (by omega)]

/-- The counter tells of every history how often the last value came in a row. -/
theorem counts_run {n : Nat} (hn : 0 < n) (x : α) (history : List α) :
    Counts n history (run n ⟨x, n, x⟩ history) := by
  induction history using List.reverseRecOn with
  | nil => exact counts_start (by omega) x
  | append_singleton history y ih =>
    rw [run_concat]
    exact ih.step hn y

/-- Whatever came `n` times in a row is the output. -/
theorem out_of_stable {n : Nat} (hn : 0 < n) (x : α) {history : List α} {y : α}
    (h : StableFor n history y) : (run n ⟨x, n, x⟩ history).out = y := by
  have hcounts := counts_run hn x history
  have hpending := hcounts.pending y (h.getLast? hn)
  rw [← hpending] at h ⊢
  have hgone := (hcounts.exact n hn (Nat.le_refl n)).mpr h
  exact hcounts.settled (by omega)

/-- Whatever the output changes to came `n` times in a row. -/
theorem stable_of_change {n : Nat} (hn : 0 < n) (x : α) {history : List α} {y : α}
    (h : (run n ⟨x, n, x⟩ (history ++ [y])).out ≠ (run n ⟨x, n, x⟩ history).out) :
    StableFor n (history ++ [y]) (run n ⟨x, n, x⟩ (history ++ [y])).out := by
  have hcounts := counts_run hn x (history ++ [y])
  rw [run_concat] at h hcounts ⊢
  generalize run n ⟨x, n, x⟩ history = d at h hcounts ⊢
  by_cases hwait : (if d.pending = y then d.wait else n) = 1
  · have hzero : (d.step n y).wait = 0 := by simp [Debouncer.step, hwait]
    rw [hcounts.settled hzero, ← hcounts.exact n hn (Nat.le_refl n)]
    omega
  · exact absurd (by simp [Debouncer.step, hwait]) h

/-- The output is the first one or an input. -/
theorem out_of_input {P : α → Prop} (n : Nat) {x : α} {history : List α} (hx : P x)
    (hall : ∀ y ∈ history, P y) : P (run n ⟨x, n, x⟩ history).out := by
  refine foldl_invariant (P := fun d : Debouncer α => P d.out) (R := P) ?_ hx hall
  intro d y hd hy
  rcases ite_eq_or_eq ((if d.pending = y then d.wait else n) = 1) y d.out with h | h
  · rwa [Debouncer.step, h]
  · rwa [Debouncer.step, h]

/-- A debouncer that reloads 0 passes nothing on. -/
theorem out_of_zero (x : α) (history : List α) : (run 0 ⟨x, 0, x⟩ history).out = x := by
  have hstuck : (run 0 ⟨x, 0, x⟩ history).wait = 0 ∧ (run 0 ⟨x, 0, x⟩ history).out = x := by
    induction history using List.reverseRecOn with
    | nil => exact ⟨rfl, rfl⟩
    | append_singleton history y ih => simp [run_concat, Debouncer.step, ih]
  exact hstuck.2

end Debouncer

end Ch583Kbd.Lib
