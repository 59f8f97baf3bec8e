/-
Ch583Kbd.Lib.Trace — runs of a machine with the state before each step.

`trace f l s` pairs every input of `l` with the state it meets when a run
starts in `s`. A condition on steps is a predicate of such pairs;
`trace_invariant` is the induction over the run. For a machine whose steps
can fail, `attempts` goes up to the first step that does.
-/
namespace Ch583Kbd.Lib

variable {σ α : Type} (f : σ → α → σ)

/-- The inputs of the run from `s`, each with the state before it. -/
def trace : List α → σ → List (σ × α)
  | [], _ => []
  | a :: l, s => (s, a) :: trace l (f s a)

@[simp] theorem trace_nil (s : σ) : trace f [] s = [] := rfl
@[simp] theorem trace_cons (a : α) (l : List α) (s : σ) :
    trace f (a :: l) s = (s, a) :: trace f l (f s a) := rfl

/-- A trace has the inputs of the run, in order. -/
theorem map_trace (l : List α) (s : σ) : (trace f l s).map Prod.snd = l := by
  induction l generalizing s with
  | nil => rfl
  | cons a l ih => simp [ih]

variable {f}

/-- What every step of the run preserves holds at its end. -/
theorem trace_invariant {P : σ → Prop} {R : σ × α → Prop}
    (hstep : ∀ s a, P s → R (s, a) → P (f s a)) {l : List α} {s : σ} (hs : P s)
    (hl : ∀ x ∈ trace f l s, R x) : P (l.foldl f s) := by
  induction l generalizing s with
  | nil => exact hs
  | cons a l ih =>
    have hfirst := hl (s, a) List.mem_cons_self
    exact ih (hstep s a hs hfirst) fun x hx => hl x (List.mem_cons_of_mem _ hx)

/-- What holds at the start and is preserved by each step holds before each of
them. -/
theorem trace_forall {P : σ → Prop} {R : σ × α → Prop}
    (hstep : ∀ s a, P s → R (s, a) → P (f s a)) {l : List α} {s : σ} (hs : P s)
    (hl : ∀ x ∈ trace f l s, R x) : ∀ x ∈ trace f l s, P x.1 := by
  induction l generalizing s with
  | nil => simp
  | cons a l ih =>
    have hfirst := hl (s, a) List.mem_cons_self
    intro x hx
    rcases List.mem_cons.mp hx with rfl | hx
    · exact hs
    · exact ih (hstep s a hs hfirst) (fun x hx => hl x (List.mem_cons_of_mem _ hx)) x hx

theorem mem_of_mem_trace {l : List α} {s : σ} {x : σ × α} (hx : x ∈ trace f l s) : x.2 ∈ l := by
  rw [← map_trace f l s]
  exact List.mem_map_of_mem hx

/-- The same when the condition is one on the inputs. -/
theorem foldl_invariant {P : σ → Prop} {R : α → Prop}
    (hstep : ∀ s a, P s → R a → P (f s a)) {l : List α} {s : σ} (hs : P s)
    (hl : ∀ a ∈ l, R a) : P (l.foldl f s) := by
  exact trace_invariant (R := fun x => R x.2) hstep hs fun x hx => hl x.2 (mem_of_mem_trace hx)

/-- If a step lets through what was there and adds only what is born of
its input, then whatever is there after the run was there at its start or
born of one of its inputs. -/
theorem foldl_provenance {ι : Type} (There : σ → ι → Prop) (Born : α → ι → Prop)
    (hstep : ∀ s a x, There (f s a) x → There s x ∨ Born a x) (l : List α) (s : σ) (x : ι)
    (hx : There (l.foldl f s) x) : There s x ∨ ∃ a ∈ l, Born a x := by
  induction l generalizing s with
  | nil => exact .inl hx
  | cons a l ih =>
    rcases ih (f s a) hx with hthere | ⟨b, hb, hborn⟩
    · exact (hstep s a x hthere).imp_right fun hborn => ⟨a, List.mem_cons_self, hborn⟩
    · exact .inr ⟨b, List.mem_cons_of_mem _ hb, hborn⟩

/-! ## Steps that can fail -/

/-- The inputs of the run from `s` up to the first failure, each with the
state before it. -/
def attempts {ε : Type} (f : σ → α → Except ε σ) : List α → σ → List (σ × α)
  | [], _ => []
  | a :: l, s => (s, a) :: (f s a).toOption.elim [] (attempts f l)

/-- Two conditions on steps that agree wherever an invariant holds are met
by the same runs, if the invariant is kept by the steps that meet them. -/
theorem attempts_forall_iff {ε : Type} {f : σ → α → Except ε σ} {P : σ → Prop}
    {Q R : σ × α → Prop} (hiff : ∀ s a, P s → (Q (s, a) ↔ R (s, a)))
    (hstep : ∀ s a s', P s → R (s, a) → f s a = .ok s' → P s') (l : List α) {s : σ}
    (hs : P s) : (∀ x ∈ attempts f l s, Q x) ↔ ∀ x ∈ attempts f l s, R x := by
  induction l generalizing s with
  | nil => exact iff_of_true nofun nofun
  | cons a l ih =>
    rw [attempts, List.forall_mem_cons, List.forall_mem_cons, hiff s a hs]
    refine and_congr_right fun hfirst => ?_
    cases hf : f s a with
    | error fault => exact iff_of_true nofun nofun
    | ok s' => exact ih (hstep s a s' hs hfirst hf)

end Ch583Kbd.Lib
