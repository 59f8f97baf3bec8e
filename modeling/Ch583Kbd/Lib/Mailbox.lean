/-
Ch583Kbd.Lib.Mailbox — a mailbox with room for one letter.

A sender overwrites what is in the box, a reader empties it. The reader
gets the letters that are read before the next one is put in
(`run_survivors`), in order and once each (`survivors_sublist`). A system
of several boxes whose steps each concern one of them runs each box on its
own steps (`run_project`).
-/
import Mathlib.Data.List.Basic

namespace Ch583Kbd.Lib.Mailbox

variable {α σ ι : Type}

inductive Op (α : Type) where
  | send (letter : α)
  | read

/-- The letter in the box, and the letters read so far. -/
structure Box (α : Type) where
  letter : Option α := none
  got : List α := []

def Box.step (b : Box α) : Op α → Box α
  | .send letter => { b with letter := some letter }
  | .read => { letter := none, got := b.got ++ b.letter.toList }

def Box.run (b : Box α) (ops : List (Op α)) : Box α := ops.foldl Box.step b

def sent : List (Op α) → List α
  | [] => []
  | .send letter :: ops => letter :: sent ops
  | .read :: ops => sent ops

/-- The letters that are read before the next one is put in. -/
def survivors : List (Op α) → List α
  | .send letter :: .read :: ops => letter :: survivors ops
  | _ :: ops => survivors ops
  | [] => []

/-- A run reads the letter in the box, if it survives, and then the survivors of
the run. -/
theorem run_got (ops : List (Op α)) : ∀ b : Box α,
    (b.run ops).got = b.got ++ match b.letter with
      | some letter => survivors (.send letter :: ops)
      | none => survivors ops := by
  induction ops with
  | nil =>
    rintro ⟨letter, got⟩
    cases letter <;> simp [Box.run, survivors]
  | cons op ops ih =>
    rintro ⟨letter, got⟩
    have hstep := ih (Box.step ⟨letter, got⟩ op)
    cases op with
    | read =>
      rw [Box.run, List.foldl_cons, ← Box.run, hstep]
      cases letter <;> simp [Box.step, survivors]
    | send next =>
      rw [Box.run, List.foldl_cons, ← Box.run, hstep]
      cases letter <;> simp [Box.step, survivors]

/-- **An empty box delivers the survivors.** -/
theorem run_survivors (ops : List (Op α)) : (Box.run {} ops).got = survivors ops :=
  run_got ops {}

/-- No letter is read twice or out of order. -/
theorem survivors_sublist (ops : List (Op α)) : (survivors ops).Sublist (sent ops) := by
  induction ops using survivors.induct with
  | case1 letter ops ih =>
    rw [survivors]
    exact ih.cons_cons letter
  | case2 op ops h ih =>
    rw [survivors]
    · cases op with
      | send letter => exact ih.cons letter
      | read => exact ih
    · exact h
  | case3 => exact List.nil_sublist _

/-! ## Several boxes -/

/-- Steps that concern a box become its operations; `inv` is an invariant
of the system. -/
theorem run_project {step : σ → ι → σ} (box : σ → Box α) (op : ι → Option (Op α))
    {inv : σ → Prop} (hinv : ∀ s i, inv s → inv (step s i))
    (hstep : ∀ s i, inv s → box (step s i) = (op i).elim (box s) (box s).step)
    (steps : List ι) :
    ∀ s, inv s → box (steps.foldl step s) = (box s).run (steps.filterMap op) := by
  induction steps with
  | nil => exact fun s _ => rfl
  | cons i steps ih =>
    intro s hs
    rw [List.foldl_cons, ih _ (hinv s i hs), hstep s i hs, List.filterMap_cons]
    cases op i <;> rfl

end Ch583Kbd.Lib.Mailbox
