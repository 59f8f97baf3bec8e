/-
Ch583Kbd.Tmk.Drain — no event is lost, and TICKs empty the waiting buffer.

After a TICK that comes `TAPPING_TERM` or more after every submitted
event, no tapping key is undecided and none is released
(`tick_settles`); in such a state no record is refused, so the loop takes
at least one record off the buffer (`replay_progress`).
-/
import Mathlib.Algebra.Group.Nat.Defs
import Ch583Kbd.Tmk.Accounting

namespace Ch583Kbd.Tmk

open Ch583Kbd.Lib TappingState

variable {K : Keymap}

/-- A `TICK` at least `TAPPING_TERM` and less than 2^15 after every
submitted event. -/
structure LateTick (submitted : List KeyEvent) (inp : Input) : Prop where
  noEvent : inp.event.isNoEvent = true
  late : ∀ e ∈ submitted, e.isNoEvent = false →
    tappingTerm ≤ (timerDiff16 inp.event.time e.time).toNat ∧
      (timerDiff16 inp.event.time e.time).toNat < 2 ^ 15

/-- A late `TICK` lies outside the tapping term of every key that was submitted. -/
theorem LateTick.outside {v : View} {inp : Input} (h : LateTick v.submitted inp)
    (hc : Core v) (hreal : v.tappingKey.event.isNoEvent = false) :
    v.withinTappingTerm inp.event = false := by
  obtain ⟨i, hi, -⟩ := hc.tapping hreal
  have hmem : v.tappingKey.event ∈ v.submitted := List.mem_of_getElem? hi.2
  have hlate := (h.late _ hmem hreal).1
  simp only [withinTappingTerm, decide_eq_false_iff_not]
  omega

/-- A late TICK leaves no tapping key undecided and none released. -/
theorem tick_settles {v w : View} {inp : Input} {consumed : Bool} {r' : KeyRecord}
    (hc : Core v) (ht : LateTick v.submitted inp)
    (h : TapStep K (v.submit inp) (v.record inp) consumed r' w) :
    w.undecided = false ∧ w.isTappingReleased = false := by
  have hout : (v.submit inp).tappingKey.event.isNoEvent = false →
      (v.submit inp).withinTappingTerm (v.record inp).event = false := ht.outside hc
  have hnp : inp.event.pressed = false := (inp.wf ht.noEvent).2
  cases h with
  | firstTap hu hs =>
    simp only [settledBy, hout (undecided_real hu).1, Bool.and_false] at hs
    simp at hs
  | early hu hw hrel hk htyped hn =>
    rw [hout (undecided_real hu).1] at hw
    simp at hw
  | wait hu hw hs hrel =>
    rw [hout (undecided_real hu).1] at hw
    simp at hw
  | timeout hu hw => exact ⟨rfl, rfl⟩
  | tapRelease hs hk hp =>
    -- a TICK has no key, and the tapping key has one
    have hreal := inp.wf.real_of_key hk (settled_real hs).1
    rw [ht.noEvent] at hreal
    simp at hreal
  | start w hu hp htap hrel hscan =>
    have hreal := (KeyEvent.isPressed_iff _).mp hp
    rw [show (v.record inp).event = inp.event from rfl, ht.noEvent] at hreal
    simp at hreal
  | sequential hrel hw hp hk hi hcount =>
    have hpr : inp.event.pressed = true := hp
    rw [hnp] at hpr
    simp at hpr
  | again hrel hw hp hk hi =>
    have hpr : inp.event.pressed = true := hp
    rw [hnp] at hpr
    simp at hpr
  | pass hu he hrel hset htap =>
    have hreal : inp.event.isNoEvent = false := he
    rw [ht.noEvent] at hreal
    simp at hreal
  | releasedTimeout hrel hw => exact ⟨rfl, rfl⟩
  | tick hu he hrel =>
    refine ⟨hu, ?_⟩
    by_contra hr
    rw [Bool.not_eq_false] at hr
    have hw := hrel hr
    rw [hout (released_real hr).1] at hw
    simp at hw

/-- Only an undecided or a released tapping key makes the code refuse a
record. -/
theorem TapStep.consumed_of {v w : View} {r r' : KeyRecord} {consumed : Bool}
    (h : TapStep K v r consumed r' w) (hu : v.undecided = false)
    (hr : v.isTappingReleased = false) : consumed = true := by
  cases h with
  | firstTap hu' hs => rw [hu] at hu'; simp at hu'
  | wait hu' hw hs hrel => rw [hu] at hu'; simp at hu'
  | timeout hu' hw => rw [hu] at hu'; simp at hu'
  | releasedTimeout hr' hw => rw [hr] at hr'; simp at hr'
  | _ => rfl

/-! ## The loop -/

theorem length_of_tags {q q' : List KeyRecord}
    (h : q'.map KeyRecord.tag = q.map KeyRecord.tag) : q'.length = q.length := by
  have := congrArg List.length h
  simpa using this

theorem isEmpty_eq_true_iff (s : Tapping) :
    s.waitingBuffer.isEmpty = true ↔ s.view.waitingBuffer = [] :=
  RingQueue.isEmpty_iff s.waitingBuffer

/-- A round takes a record off the buffer or leaves it there. -/
theorem round_length (s : Tapping) (hne : s.waitingBuffer.isEmpty = false)
    (hr : RealBuffer s.view) :
    (s.round K).2.view.waitingBuffer.length + (if (s.round K).1 then 1 else 0) =
      s.view.waitingBuffer.length := by
  obtain ⟨xs, r', w, hq, hstep, hout⟩ := round_spec (K := K) s hne hr
  have hlen : w.waitingBuffer.length = xs.length := length_of_tags hstep.tags
  have hreal : r'.event.isNoEvent = false := by
    have he : r'.event = (s.waitingBuffer.slot s.waitingBuffer.tail).event :=
      congrArg Prod.snd hstep.record_tag
    rw [he]
    exact hr _ (hq ▸ List.mem_cons_self)
  rw [hout, hq]
  cases hgo : (s.round K).1 with
  | true => simp [putBack, hlen]
  | false => simp [putBack, hreal, withBuffer, hlen]

/-- The replay does not make the buffer longer. -/
theorem replay_length : ∀ (fuel : Nat) (s : Tapping), RealBuffer s.view →
    (s.replay K fuel).view.waitingBuffer.length ≤ s.view.waitingBuffer.length
  | 0, _, _ => Nat.le_refl _
  | fuel + 1, s, hr => by
    cases he : s.waitingBuffer.isEmpty with
    | true =>
      exact Nat.le_of_eq (by rw [replay_empty _ s he])
    | false =>
      have hlen := round_length (K := K) s he hr
      have hcall := round_call (C := fun _ _ _ => True) (K := K) s he hr trivial
      rw [replay_succ fuel s he]
      split
      · have hrec := replay_length fuel (s.round K).2 (hcall.realBuffer hr)
        omega
      · omega

/-- Where no record is refused, the loop takes one off the buffer. -/
theorem replay_progress (fuel : Nat) (s : Tapping) (hr : RealBuffer s.view)
    (hne : s.waitingBuffer.isEmpty = false) (hu : s.view.undecided = false)
    (hrel : s.view.isTappingReleased = false) :
    (s.replay K (fuel + 1)).view.waitingBuffer.length + 1 ≤ s.view.waitingBuffer.length := by
  obtain ⟨xs, r', w, hq, hstep, hout⟩ := round_spec (K := K) s hne hr
  have hgo : (s.round K).1 = true := hstep.consumed_of hu hrel
  have hlen := round_length (K := K) s hne hr
  have hcall := round_call (C := fun _ _ _ => True) (K := K) s hne hr trivial
  have hrec := replay_length (K := K) fuel (s.round K).2 (hcall.realBuffer hr)
  rw [replay_succ fuel s hne, if_pos hgo]
  rw [if_pos hgo] at hlen
  omega

/-! ## TICKs -/

/-- A `TICK` is never put into the buffer, so it cannot overflow it. -/
theorem tick_no_overflow (s : Tapping) (inp : Input) (h : inp.event.isNoEvent = true) :
    overflows K inp s = false := by
  have htag := (processTapping_step (K := K) (s.record inp) (s.submit inp) inp.wf).record_tag
  have he : (processTapping K (s.record inp) (s.submit inp)).2.1.event = inp.event :=
    congrArg Prod.snd htag
  simp [overflows, he, h]

/-- One late TICK: the buffer shrinks, or it was empty and nothing is
undecided any more. -/
theorem tick_progress (s : Tapping) (inp : Input) (hb : Booked s.view)
    (ht : LateTick s.submitted inp) :
    let s' := actionExec K inp s
    s'.view.waitingBuffer.length ≤ s.view.waitingBuffer.length - 1 ∧
      (s.view.waitingBuffer = [] → s'.view.undecided = false) := by
  have hreal : RealBuffer s.view := fun x hx => (hb.core.buffered x hx).1
  have hno := tick_no_overflow (K := K) s inp ht.noEvent
  obtain ⟨consumed, r', w, hstep, hout⟩ := offer_spec (K := K) inp s hno
  have hcall := offer_call (C := fun _ _ _ => True) (K := K) inp s hno trivial
  obtain ⟨hu, hrel⟩ := tick_settles hb.core ht hstep
  have hn : r'.event.isNoEvent = true := by
    have he : r'.event = inp.event := congrArg Prod.snd hstep.record_tag
    rw [he, ht.noEvent]
  have hview : ((s.submit inp).offer K (s.record inp)).view = w := by
    rw [hout, putBack, if_pos (.inr hn)]
  have hlen : w.waitingBuffer.length = s.view.waitingBuffer.length := length_of_tags hstep.tags
  rw [← hview] at hu hrel hlen
  have hreal' := hcall.realBuffer hreal
  have hexec : actionExec K inp s =
      ((s.submit inp).offer K (s.record inp)).replay K waitingBufferSize := rfl
  rw [hexec]
  cases he : ((s.submit inp).offer K (s.record inp)).waitingBuffer.isEmpty with
  | true =>
    have hnil := (isEmpty_eq_true_iff _).mp he
    rw [hnil] at hlen
    rw [replay_empty _ _ he]
    dsimp only
    rw [hnil]
    exact ⟨Nat.zero_le _, fun _ => hu⟩
  | false =>
    have hprog := replay_progress (K := K) 7 _ hreal' he hu hrel
    refine ⟨?_, fun hnil => ?_⟩
    · rw [hlen] at hprog
      exact Nat.le_sub_of_add_le hprog
    · rw [hnil, List.length_nil] at hlen
      omega

/-! ## The drain -/

/-- Late `TICK`s, one after the other, take the records out of the buffer, by
induction over them. -/
theorem ticks_drain : ∀ (ticks : List Input) (s : Tapping), Booked s.view →
    (∀ t ∈ ticks, LateTick s.submitted t) →
    NoOverflow K ticks s ∧
      (s.view.waitingBuffer.length ≤ ticks.length →
        (run K ticks s).view.waitingBuffer = []) ∧
      (s.view.waitingBuffer.length < ticks.length →
        (run K ticks s).view.undecided = false)
  | [], s, _, _ => by
    refine ⟨trivial, fun hlen => ?_, fun hlen => absurd hlen (Nat.not_lt_zero _)⟩
    exact List.length_eq_zero_iff.mp (Nat.le_zero.mp hlen)
  | t :: ticks, s, hb, ht => by
    have hreal : RealBuffer s.view := fun x hx => (hb.core.buffered x hx).1
    have ht0 := ht t List.mem_cons_self
    have hno := tick_no_overflow (K := K) s t ht0.noEvent
    have hb' := calls_invariant (C := fun _ _ _ => True) Booked (fun _ _ h => h.booked)
      (actionExec_calls t s hreal hno trivial (replayObeys_true _ _)) hb
    have hsub := actionExec_submitted t s hreal hno
    obtain ⟨hlen, hund⟩ := tick_progress (K := K) s t hb ht0
    have ht' : ∀ u ∈ ticks, LateTick (actionExec K t s).submitted u := by
      intro u hu
      obtain ⟨hn, hlate⟩ := ht u (List.mem_cons_of_mem _ hu)
      refine ⟨hn, fun e he hr => ?_⟩
      rw [hsub] at he
      rcases List.mem_append.mp he with he | he
      · exact hlate e he hr
      · rw [List.mem_singleton.mp he, ht0.noEvent] at hr
        simp at hr
    obtain ⟨hno', hempty, hsettled⟩ := ticks_drain ticks (actionExec K t s) hb' ht'
    rw [run_cons]
    refine ⟨⟨hno, hno'⟩, fun h => ?_, fun h => ?_⟩
    · refine hempty ?_
      simp only [List.length_cons] at h
      omega
    · rw [List.length_cons] at h
      cases ticks with
      | nil =>
        have hnil : s.view.waitingBuffer = [] := List.length_eq_zero_iff.mp (by
          rw [List.length_nil] at h; omega)
        exact hund hnil
      | cons u ticks =>
        refine hsettled ?_
        rw [List.length_cons] at h ⊢
        omega

instance (submitted : List KeyEvent) (inp : Input) : Decidable (LateTick submitted inp) :=
  decidable_of_iff (inp.event.isNoEvent = true ∧ ∀ e ∈ submitted, e.isNoEvent = false →
      tappingTerm ≤ (timerDiff16 inp.event.time e.time).toNat ∧
        (timerDiff16 inp.event.time e.time).toNat < 2 ^ 15)
    ⟨fun h => ⟨h.1, h.2⟩, fun h => ⟨h.noEvent, h.late⟩⟩

/-- **No event is lost and the buffer drains.** Every submitted press or
release has been handed over, or is the undecided tapping key, or waits;
what waits is in submission order; and one late TICK more than there are
records in the buffer empties it and delivers every press. -/
theorem run_accounts_and_drains (K : Keymap) (inputs : List Input)
    (hno : NoOverflow K inputs Tapping.init) :
    let s := run K inputs Tapping.init
    let events := inputs.map (·.event)
    (∀ i e, events[i]? = some e → e.isNoEvent = false →
      (∃ h ∈ s.handed, h.before.tag = (some i, e)) ∨
        (s.undecided = true ∧ s.tappingKey.tag = (some i, e)) ∨
        ∃ x ∈ s.waitingBuffer.toList, x.tag = (some i, e)) ∧
    (s.waitingBuffer.toList.Pairwise fun x y => x.origin < y.origin) ∧
    ∀ ticks : List Input, (∀ t ∈ ticks, LateTick events t) →
      s.waitingBuffer.toList.length + 1 ≤ ticks.length →
      (run K ticks s).waitingBuffer.toList = [] ∧
        ∀ i e, events[i]? = some e → e.isPressed = true →
          ∃ h ∈ (run K ticks s).handed, h.before.tag = (some i, e) := by
  intro s events
  have hsub : s.submitted = events := run_submitted inputs Tapping.init realBuffer_init hno
  have hb : Booked s.view := run_booked inputs hno
  refine ⟨fun i e hi he => ?_, hb.core.ordered, fun ticks ht hlen => ?_⟩
  · rw [← hsub] at hi
    exact hb.cases hi he
  · rw [← hsub] at ht
    have hreal : RealBuffer s.view := fun x hx => (hb.core.buffered x hx).1
    obtain ⟨hno', hempty, hsettled⟩ := ticks_drain (K := K) ticks s hb ht
    have hnil := hempty (Nat.le_of_succ_le hlen)
    refine ⟨hnil, fun i e hi hp => ?_⟩
    have hreal' := (KeyEvent.isPressed_iff e).mp hp
    have hb' := run_invariant Booked (fun _ _ h => h.booked) ticks s hreal hno'
      (obeys_true ticks s) hb
    have hi' : (run K ticks s).submitted[i]? = some e := by
      rw [run_submitted ticks s hreal hno', hsub]
      exact (List.getElem?_append_left (List.getElem?_eq_some_iff.mp hi).1).trans hi
    rcases hb'.cases hi' hreal'.1 with hd | ⟨hu, -⟩ | ⟨x, hx, -⟩
    · exact hd
    · rw [hsettled hlen] at hu
      simp at hu
    · rw [hnil] at hx
      simp at hx

/-- Three tap keys down at once: four late `TICK`s drain the buffer. -/
theorem run_accounts_and_drains_three_keys :
    let s := run sampleKeymap [down 0 0, down 1 20, down 2 40, up 1 60] Tapping.init
    let ticks := [Input.tick 300, Input.tick 300, Input.tick 300, Input.tick 300]
    s.waitingBuffer.toList.length = 3 ∧ (run sampleKeymap ticks s).waitingBuffer.toList = [] :=
  ⟨by decide +kernel,
    ((run_accounts_and_drains sampleKeymap [down 0 0, down 1 20, down 2 40, up 1 60]
      (by decide +kernel)).2.2 [.tick 300, .tick 300, .tick 300, .tick 300]
      (by decide +kernel) (by decide +kernel)).1⟩

end Ch583Kbd.Tmk
