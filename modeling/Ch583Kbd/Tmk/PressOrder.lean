/-
Ch583Kbd.Tmk.PressOrder — presses are delivered in the order in which they
were submitted, as long as none overtakes the waiting buffer.

`action_tapping_process` looks at the new record before the buffered ones.
While a tap key is undecided the new record has to wait too. But a record
of the buffer that comes `TAPPING_TERM` after the tapping key ends the
tapping and stays where it is ("FIX: process_aciton here?"); the next
press then goes first (`press_overtakes`). `noOvertaking` is the rule that
excludes just that.
-/
import Ch583Kbd.Tmk.DeliveryOrder

namespace Ch583Kbd.Tmk

open Ch583Kbd.Lib TappingState

variable {K : Keymap}

/-- Where in the log submission `i` is delivered first. -/
def firstDelivery (s : Tapping) (i : Nat) : Option Nat :=
  s.handed.findIdx? fun h => h.before.origin == some i

/-- If a later press has been delivered, an earlier one was delivered
before it. -/
def PressOrder (events : List KeyEvent) (s : Tapping) : Prop :=
  ∀ i j e e', i < j → events[i]? = some e → e.isPressed = true →
    events[j]? = some e' → e'.isPressed = true →
    ∀ n, firstDelivery s j = some n → ∃ m, firstDelivery s i = some m ∧ m < n

/-- No press is submitted while the tapping key is not undecided and a
press waits in the buffer. -/
def noOvertaking : CallRule := fun src r v =>
  src = .new → r.event.isPressed = true →
    v.undecided = true ∨ ∀ x ∈ v.waitingBuffer, x.event.pressed = false

instance (src : Source) (r : KeyRecord) (v : View) : Decidable (noOvertaking src r v) :=
  inferInstanceAs (Decidable (_ → _ → _ ∨ _))

/-- All presses, in order. -/
def presses : Precedence where
  before e' e := e'.isPressed = true ∧ e.isPressed = true
  real h := ((KeyEvent.isPressed_iff _).mp h.1).1

theorem presses_sameKey : presses.SameKey := by
  intro e' e h _ hrel
  have hp := ((KeyEvent.isPressed_iff e).mp h.2).2
  rw [hrel] at hp
  simp at hp

/-- A call under the rule hands presses over in the order of their submission. -/
theorem Call.press_order {v w : View} (h : Call K noOvertaking v w)
    (hI : Booked v ∧ InOrder presses v ∧ Ahead presses v) :
    Booked w ∧ InOrder presses w ∧ Ahead presses w := by
  obtain ⟨hb, ho, hah⟩ := hI
  have hwait : ∀ inp : Input, (∀ x ∈ v.waitingBuffer, x.event.pressed = false) →
      ∀ x ∈ v.waitingBuffer, ¬presses.before x.event inp.event := by
    intro inp hnone x hx hbefore
    have hp := ((KeyEvent.isPressed_iff _).mp hbefore.1).2
    rw [hnone x hx] at hp
    simp at hp
  refine ⟨h.booked hb, h.inOrder hb presses_sameKey ho hah ?_, h.ahead hb hah ?_⟩
  · intro inp r' u hc _ hstep x hx hbefore
    rcases hc rfl hbefore.2 with hu | hnone
    · have hrel := (hstep.early_of hu).1
      have hp := ((KeyEvent.isPressed_iff _).mp hbefore.2).2
      rw [((KeyEvent.isReleased_iff inp.event).mp hrel).2] at hp
      simp at hp
    · exact hwait inp hnone x hx hbefore
  · intro inp hc hu hp x hx hbefore
    rcases hc rfl hbefore.2 with hu' | hnone
    · have hu'' : v.undecided = true := hu'
      rw [hu] at hu''
      simp at hu''
    · exact hwait inp hnone x hx hbefore

/-- The first delivery of a submission splits the log there. -/
theorem firstDelivery_split {s : Tapping} {j n : Nat} (h : firstDelivery s j = some n) :
    ∃ l₁ x l₂, s.handed = l₁ ++ x :: l₂ ∧ x.before.origin = some j ∧ l₁.length = n := by
  obtain ⟨hn, hp, -⟩ := List.findIdx?_eq_some_iff_getElem.mp h
  refine ⟨s.handed.take n, s.handed[n], s.handed.drop (n + 1), ?_, beq_iff_eq.mp hp, ?_⟩
  · rw [List.getElem_cons_drop, List.take_append_drop]
  · rw [List.length_take]
    omega

/-- A submission that stands before a place of the log was first delivered
before it. -/
theorem firstDelivery_lt {s : Tapping} {l₁ l₂ : List Handed} {x : Handed} {i : Nat}
    (hs : s.handed = l₁ ++ x :: l₂) (hi : ∃ y ∈ l₁, y.before.origin = some i) :
    ∃ m, firstDelivery s i = some m ∧ m < l₁.length := by
  obtain ⟨y, hy, ho⟩ := hi
  have hsome : (l₁.findIdx? fun h => h.before.origin == some i).isSome = true := by
    rw [List.findIdx?_isSome, List.any_eq_true]
    exact ⟨y, hy, by simp [ho]⟩
  obtain ⟨m, hm⟩ := Option.isSome_iff_exists.mp hsome
  refine ⟨m, ?_, (List.findIdx?_eq_some_iff_getElem.mp hm).1⟩
  rw [firstDelivery, hs, List.findIdx?_append, hm]
  rfl

/-- **Press order.** In a run in which no press is submitted past a press
that waits, presses are delivered in the order of their submission. -/
theorem run_pressOrder (K : Keymap) (inputs : List Input)
    (hno : NoOverflow K inputs Tapping.init)
    (hrule : Obeys K noOvertaking inputs Tapping.init) :
    PressOrder (inputs.map (·.event)) (run K inputs Tapping.init) := by
  have hI := run_invariant (fun v => Booked v ∧ InOrder presses v ∧ Ahead presses v)
    (fun _ _ h => h.press_order) inputs _ realBuffer_init hno hrule
    ⟨booked_init, order_init⟩
  have hsub := run_submitted inputs Tapping.init realBuffer_init hno
  rw [show Tapping.init.submitted = [] from rfl, List.nil_append] at hsub
  intro i j e e' hij hi hp hj hp' n hn
  obtain ⟨l₁, x, l₂, hs, ho, hlen⟩ := firstDelivery_split hn
  rw [← hlen]
  refine firstDelivery_lt hs (hI.2.1 l₁ x l₂ hs j ho i e hij (hsub ▸ hi) ⟨hp, ?_⟩)
  have hx := (hI.1.core.logged x (hs ▸ List.mem_append_right _ List.mem_cons_self)).2.2.2 j ho
  have hx' : (run K inputs Tapping.init).submitted[j]? = some x.before.event := hx
  rw [hsub, hj] at hx'
  exact Option.some.inj hx' ▸ hp'

/-- Two tap keys and a letter, pressed one after the other, are handed over in
that order. -/
theorem run_pressOrder_three_keys :
    let inputs := [down 0 0, down 1 10, down 5 20, up 0 30, up 5 40, .tick 400]
    PressOrder (inputs.map (·.event)) (run sampleKeymap inputs Tapping.init) :=
  run_pressOrder sampleKeymap [down 0 0, down 1 10, down 5 20, up 0 30, up 5 40, .tick 400]
    (by decide +kernel) (by decide +kernel)

/-- The letter pressed at 214 is still in the buffer when the one pressed
at 216 is processed. -/
theorem press_overtakes :
    let inputs := [down 0 0, down 1 10, down 5 214, down 6 216]
    NoOverflow sampleKeymap inputs Tapping.init ∧
      ¬PressOrder (inputs.map (·.event)) (run sampleKeymap inputs Tapping.init) := by
  refine ⟨by decide +kernel, fun h => ?_⟩
  obtain ⟨m, hm, hlt⟩ := h 2 3 (down 5 214).event (down 6 216).event (by decide) rfl
    (by decide) rfl (by decide) 2 (by decide +kernel)
  have hfirst : firstDelivery (run sampleKeymap
      [down 0 0, down 1 10, down 5 214, down 6 216] Tapping.init) 2 = some 3 := by
    decide +kernel
  rw [hfirst] at hm
  have hm' : 3 = m := Option.some.inj hm
  omega

end Ch583Kbd.Tmk
