/-
Ch583Kbd.Tmk.Pairing — press and release alternate in the calls of
`process_action`, and a release has a count exactly if its press was
executed as a tap.

The code breaks that in two ways of its own. A tap that is cancelled
leaves the tapping key undecided, although it was handed over, and the
next first tap or the timeout hands it over again (`noCancel` excludes
it). A press of another tap key during a tap of more than one releases the
tapped key at once, and its real release, still to come, is handed over as
well (`noForcedRelease`).
-/
import Ch583Kbd.Tmk.TapCounts

namespace Ch583Kbd.Tmk

open Ch583Kbd.Lib TappingState

variable {K : Keymap}

/-! ## Paired calls -/

/-- A call fits the last one for its key: press and release alternate, and
a release has a count exactly if the press was left with one. -/
def Follows (last : Option Handed) (x : Handed) : Prop :=
  match last with
  | none => x.before.event.pressed = true
  | some p => p.before.event.pressed = (!x.before.event.pressed) ∧
      (x.before.event.pressed = false → (x.before.tap.count = 0 ↔ p.after.tap.count = 0))

instance (last : Option Handed) (x : Handed) : Decidable (Follows last x) := by
  unfold Follows
  cases last <;> exact inferInstance

/-- Every call fits the last one for its key. -/
def Paired (handed : List Handed) : Prop :=
  ∀ n (h : n < handed.length),
    Follows (lastOf handed[n].before.event.key (handed.take n)) handed[n]

instance (handed : List Handed) : Decidable (Paired handed) :=
  inferInstanceAs (Decidable (∀ _ _, _))

/-- One more call that fits the last one of its key keeps the log paired. -/
theorem Paired.concat {l : List Handed} {x : Handed} (h : Paired l)
    (hx : Follows (lastOf x.before.event.key l) x) : Paired (l ++ [x]) := by
  intro n hn
  rw [List.length_append, List.length_singleton] at hn
  by_cases hlt : n < l.length
  · rw [List.getElem_append_left hlt, List.take_append_of_le_length (Nat.le_of_lt hlt)]
    exact h n hlt
  · obtain rfl : n = l.length := by omega
    rw [List.getElem_concat_length rfl, List.take_left]
    exact hx

/-! ## The rules -/

/-- No interrupted tap of a modifier tap key is cancelled. -/
def noCancel (K : Keymap) : CallRule := fun _ r v =>
  v.undecided = true → v.settledBy r = true →
    ¬(v.tappingKey.tap.interrupted = true ∧
      (v.act.actionOf K v.tappingKey.event).isModsTapKey = true)

/-- No tap key is pressed during a tap of more than one. -/
def noForcedRelease (K : Keymap) : CallRule := fun _ r v =>
  v.settled = true → r.event.isPressed = true → (v.act.actionOf K r.event).isTap = true →
    v.tappingKey.tap.count ≤ 1

instance (src : Source) (r : KeyRecord) (v : View) : Decidable (noCancel K src r v) :=
  inferInstanceAs (Decidable (_ → _ → _))

instance (src : Source) (r : KeyRecord) (v : View) : Decidable (noForcedRelease K src r v) :=
  inferInstanceAs (Decidable (_ → _ → _ → _))

/-- The condition on the calls of a run. -/
def pairingRule (K : Keymap) : CallRule := fun src r v =>
  ((noStranding src r v ∧ ownRelease K src r v) ∧ noCancel K src r v) ∧
    noForcedRelease K src r v

/-! ## A step pairs -/

/-- What holds between two calls: in such a run every call is for a
submission, and an undecided tapping key has not been handed over. -/
structure Pairs (v : View) (P : KeyRecord → Prop) : Prop where
  counts : Counts v P
  paired : Paired v.handed
  submitted : ∀ e ∈ v.handed, e.before.origin ≠ none
  fresh : v.undecided = true → ∀ i, v.tappingKey.origin = some i → ¬Delivered v i

section Step

variable {v w : View} {r r' t : KeyRecord}

/-- Handing over a record that fits the last one of its key keeps the log
paired. -/
theorem Paired.handThen (h : Paired v.handed) (hreal : r.event.isNoEvent = false)
    (hf : Follows (lastOf r.event.key v.handed) (v.entry K r)) :
    Paired (v.handThen K r t).handed := by
  rw [handThen_handed r t v hreal]
  exact h.concat hf

/-- Handing over the record of a submission keeps every call for a submission. -/
theorem submitted_handThen (h : ∀ e ∈ v.handed, e.before.origin ≠ none)
    (hreal : r.event.isNoEvent = false) (ho : r.origin ≠ none) :
    ∀ e ∈ (v.handThen K r t).handed, e.before.origin ≠ none := by
  rw [handThen_handed r t v hreal]
  intro e he
  rcases List.mem_append.mp he with he | he
  · exact h e he
  · rw [List.mem_singleton.mp he]
    exact ho

/-- A press fits when its key was not pressed last. -/
theorem follows_press {k : KeyPos} {x : Handed} (hp : x.before.event.pressed = true)
    (hnot : ¬Pressed v k) : Follows (lastOf k v.handed) x := by
  cases hlast : lastOf k v.handed with
  | none => exact hp
  | some p =>
    refine ⟨?_, fun hrel => by rw [hp] at hrel; simp at hrel⟩
    rw [hp]
    by_contra hpr
    exact hnot ⟨p, hlast, by simpa using hpr⟩

/-- A release fits when its key was pressed last and it has a count as the press
had. -/
theorem follows_release {k : KeyPos} {x : Handed} (hp : x.before.event.pressed = false)
    (hpr : Pressed v k) (hc : x.before.tap.count ≠ 0 ↔ Tapped v k) :
    Follows (lastOf k v.handed) x := by
  obtain ⟨p, hlast, hpp⟩ := hpr
  rw [hlast]
  refine ⟨by rw [hp, hpp]; rfl, fun _ => ?_⟩
  have htap : Tapped v k ↔ p.after.tap.count ≠ 0 := by
    constructor
    · rintro ⟨p', hlast', -, hc'⟩
      exact Option.some.inj (hlast.symm.trans hlast') ▸ hc'
    · exact fun hc' => ⟨p, hlast, hpp, hc'⟩
  exact not_iff_not.mp (hc.trans htap)

/-- A release that is consumed follows its press. -/
theorem Pairs.pressed_before (h : Pairs v (pending v r)) (hr : Ready v r)
    (hstep : TapStep K v r true r' w) (hreal : r.event.isNoEvent = false)
    (hp : r.event.pressed = false)
    (htk : v.undecided = true → v.tappingKey.event.key ≠ r.event.key) :
    Pressed v r.event.key := by
  obtain ⟨j, hj, hnd⟩ := (hr.inHand hreal).stands
  rcases hr.alternating.previous hj.2 ⟨hreal, rfl⟩ with ⟨hp', -⟩ | ⟨i, d, hij, hi, hd, hdp, hnone⟩
  · rw [hp] at hp'
    simp at hp'
  -- the press before it in the submissions is delivered
  obtain ⟨e, he, ho⟩ : Delivered v i :=
    before_inHand (R := sameKey) hr.core hr.accounted (fun hu hb => htk hu hb.2)
      (fun x hx hb => hr.oldest hstep hreal x hx hb.2) j hj.1 i d hij hi hd
  have hek : e.before.event.key = r.event.key := by
    have hsub := (hr.core.logged e he).2.2.2 i ho
    rw [Option.some.inj (hsub.symm.trans hi)]
    exact hd.2
  -- and the last call of the key is for it
  cases hlast : lastOf r.event.key v.handed with
  | none =>
    have hall := List.find?_eq_none.mp hlast e (List.mem_reverse.mpr he)
    simp [hek] at hall
  | some p =>
    obtain ⟨hpm, hpk⟩ := lastOf_spec hlast
    cases hpo : p.before.origin with
    | none => exact absurd hpo (h.submitted p hpm)
    | some m =>
      have hm := (hr.core.logged p hpm).2.2.2 m hpo
      have him : i ≤ m := (h.counts.keys _).latest p m hlast hpo i d ⟨e, he, ho⟩ hi hd.2
      have hmj : m ≤ j := hr.deliveredUpTo hreal hj.1 m _ ⟨p, hpm, hpo⟩ hm hpk
      have hmj' : m ≠ j := fun heq => hnd ⟨p, hpm, heq ▸ hpo⟩
      have hmi : m = i := by
        by_contra hne
        exact hnone m _ (by omega) (by omega) hm ⟨(hr.core.logged p hpm).1, hpk⟩
      rw [hmi, hi] at hm
      refine ⟨p, hlast, ?_⟩
      rw [← Option.some.inj hm, hdp, hp]
      rfl

/-- Handing another record over leaves the tapping key undelivered. -/
theorem fresh_handThen (hreal : r.event.isNoEvent = false)
    (hne : r.origin ≠ t.origin)
    (h : ∀ i, t.origin = some i → ¬Delivered v i) :
    ∀ i, t.origin = some i → ¬Delivered (v.handThen K r t) i := by
  intro i hi hd
  rcases (delivered_handThen r t v hreal i).mp hd with hd | ho
  · exact h i hi hd
  · exact hne (ho.trans hi.symm)

/-- **Every branch of `process_tapping` pairs presses and releases**, under the
rule. -/
theorem TapStep.pairs {src : Source} {consumed : Bool} (h : TapStep K v r consumed r' w)
    (hr : Ready v r) (hrule : pairingRule K src r v) (hc : Pairs v (pending v r)) :
    Pairs w (pending w (if consumed then {} else r')) := by
  obtain ⟨⟨⟨-, hown⟩, hcancel⟩, hforced⟩ := hrule
  have hcounts := h.counts hr hown hc.counts
  have hstep := h
  have hne : ∀ {s : KeyRecord} {i : Nat}, StandsFor v s i → s.origin ≠ none := by
    intro s i hs ho
    rw [hs.1] at ho
    simp at ho
  -- a tapping key that was undecided and is handed over was released before
  have htapping : v.undecided = true → ¬Pressed v v.tappingKey.event.key := by
    intro hu
    obtain ⟨i, hi, -⟩ := hr.core.tapping (undecided_real hu).1
    exact hr.tapping_not_pressed hu hi.1 (hc.fresh hu i hi.1) (hc.counts.keys _).latest
  have hpress : r.event.isPressed = true → consumed = true → ¬Pressed v r.event.key := by
    intro hp hcons
    subst hcons
    exact hr.not_pressed hstep hp (hc.counts.keys _).latest
  cases h with
  | firstTap hu hs =>
    obtain ⟨hreal, hp, -⟩ := undecided_real hu
    obtain ⟨i, hi, -⟩ := hr.core.tapping hreal
    refine ⟨hcounts, hc.paired.handThen (r := v.tappingKey.withCount 1) hreal
      (follows_press hp (htapping hu)), submitted_handThen (r := v.tappingKey.withCount 1)
      hc.submitted hreal (hne hi), fun hu' => ?_⟩
    -- the count is 1: the tap is not cancelled
    have hzero := (undecided_real hu').2.2
    rcases hand_fst_eq (K := K) (v.tappingKey.withCount 1) v with he | ⟨-, -, hint, hmods, -⟩
    · have hone : (v.tapped K).tappingKey.tap.count = 1 := congrArg (·.tap.count) he
      omega
    · exact absurd ⟨hint, hmods⟩ (hcancel hu hs)
  | early hu hw hrel hk ht hn =>
    obtain ⟨hreal, hp⟩ := r.event.isReleased_iff.mp hrel
    have hin := hr.inHand hreal
    obtain ⟨j, hj, -⟩ := hin.stands
    have hagrees := hc.counts.release_agrees hr hstep hreal fun _ => hk
    have hpr := hc.pressed_before hr hstep hreal hp fun _ he => hk he.symm
    refine ⟨hcounts, hc.paired.handThen hreal (follows_release hp hpr hagrees),
      submitted_handThen hc.submitted hreal (hne hj), fun _ => ?_⟩
    exact fresh_handThen hreal (fun he => hin.tapping_apart (undecided_real hu).1 he.symm)
      (hc.fresh hu)
  | wait hu hw hs hrel =>
    refine ⟨hcounts, ?_, ?_, ?_⟩
    · split <;> exact hc.paired
    · split <;> exact hc.submitted
    · split <;> exact hc.fresh
  | timeout hu hw =>
    obtain ⟨hreal, hp, -⟩ := undecided_real hu
    obtain ⟨i, hi, -⟩ := hr.core.tapping hreal
    exact ⟨hcounts, hc.paired.handThen hreal (follows_press hp (htapping hu)),
      submitted_handThen hc.submitted hreal (hne hi), fun hu' => (Bool.false_ne_true hu').elim⟩
  | tapRelease hset hk hp =>
    have hreal := hr.wf.real_of_key hk (settled_real hset).1
    obtain ⟨j, hj, -⟩ := (hr.inHand hreal).stands
    have htap : Tapped v r.event.key := hk ▸ hc.counts.settled hset
    refine ⟨hcounts, hc.paired.handThen (r := r.withTap v.tappingKey.tap) hreal
      (follows_release hp htap.pressed ⟨fun _ => htap, fun _ => (settled_real hset).2.2⟩),
      submitted_handThen (r := r.withTap v.tappingKey.tap) hc.submitted hreal (hne hj),
      fun hu => ?_⟩
    have hpr := (undecided_real hu).2.1
    rw [handThen_tappingKey] at hpr
    split at hpr
    · rw [KeyRecord.withTap_event, hp] at hpr
      simp at hpr
    · simp at hpr
  | start w hu hp ht hrel hscan =>
    obtain ⟨hreal, hpr⟩ := r.event.isPressed_iff.mp hp
    obtain ⟨j, hj, -⟩ := (hr.inHand hreal).stands
    have hplain : v.started K r = { v.lookUp K r.event with tappingKey := r } := by
      unfold TappingState.started
      rw [if_neg fun hset => absurd (hforced hset.1 hp ht) (Nat.not_le_of_gt hset.2)]
    rw [hplain] at hscan
    cases hscan with
    | miss hm =>
      refine ⟨hcounts, hc.paired, hc.submitted, fun _ i hi => ?_⟩
      obtain ⟨j', hj', hnd⟩ := (hr.inHand hreal).stands
      exact Option.some.inj (hj'.1.symm.trans hi) ▸ hnd
    | hit pre x post hu' hq hpre hx =>
      refine ⟨hcounts, ?_, ?_, fun hu'' i hi hd => ?_⟩
      · exact Paired.handThen (v := TappingState.withBuffer _ _) (r := r.withCount 1)
          hc.paired hreal (follows_press hpr (hpress hp rfl))
      · exact submitted_handThen (v := TappingState.withBuffer _ _) (r := r.withCount 1)
          hc.submitted hreal (hne hj)
      · have hzero := (undecided_real hu'').2.2
        rw [tapped_of_fresh rfl ((hr.inHand hreal).press_fresh hpr)] at hzero
        simp at hzero
  | sequential hrel hw hp hk hi hcount =>
    have hreal := hr.wf.real_of_pressed hp
    obtain ⟨j, hj, -⟩ := (hr.inHand hreal).stands
    refine ⟨hcounts, hc.paired.handThen (r := r.withTap v.nextTap) hreal
      (follows_press hp (hpress (r.event.isPressed_iff.mpr ⟨hreal, hp⟩) rfl)),
      submitted_handThen (r := r.withTap v.nextTap) hc.submitted hreal (hne hj), fun hu => ?_⟩
    have hzero := (undecided_real hu).2.2
    simp only [handThen_tappingKey, KeyRecord.withTap_tap, nextTap] at hzero
    split at hzero <;> omega
  | again hrel hw hp hk hi =>
    refine ⟨hcounts, hc.paired, hc.submitted, fun _ i hi => ?_⟩
    obtain ⟨j, hj, hnd⟩ := (hr.inHand (hr.wf.real_of_pressed hp)).stands
    exact Option.some.inj (hj.1.symm.trans hi) ▸ hnd
  | pass hu he hrel hset ht =>
    obtain ⟨j, hj, -⟩ := (hr.inHand he).stands
    have hfollows : Follows (lastOf r.event.key v.handed) (v.entry K r) := by
      cases hp : r.event.pressed with
      | true =>
        exact follows_press hp (hpress (r.event.isPressed_iff.mpr ⟨he, hp⟩) rfl)
      | false =>
        have hagrees := hc.counts.release_agrees hr hstep he fun hs hk => by
          have hp' := hset hs hk
          rw [hp] at hp'
          simp at hp'
        have hpr := hc.pressed_before hr hstep he hp fun hu' => by
          rw [hu] at hu'
          simp at hu'
        exact follows_release hp hpr hagrees
    refine ⟨hcounts, hc.paired.handThen he hfollows, submitted_handThen hc.submitted he (hne hj),
      fun hu' => ?_⟩
    rw [undecided_handThen r v (interruptedBy_tag v r.event) (interruptedBy_count v r.event), hu]
      at hu'
    simp at hu'
  | releasedTimeout hrel hw =>
    exact ⟨hcounts, hc.paired, hc.submitted, fun hu => (Bool.false_ne_true hu).elim⟩
  | tick hu he hrel => exact ⟨hcounts, hc.paired, hc.submitted, hc.fresh⟩

end Step

/-! ## Runs -/

/-- **Calls are paired.** In a run in which no event is submitted past
records that wait, the release that settles a tapping key is its own, no
tap is cancelled and no release is forced, press and release alternate for
each key in the calls of `process_action`, and a release has a count
exactly if its press was executed as a tap. -/
theorem run_paired (K : Keymap) (inputs : List Input)
    (hno : NoOverflow K inputs Tapping.init) (halt : Alternating (inputs.map (·.event)))
    (hstrand : Obeys K noStranding inputs Tapping.init)
    (hown : Obeys K (ownRelease K) inputs Tapping.init)
    (hcancel : Obeys K (noCancel K) inputs Tapping.init)
    (hforced : Obeys K (noForcedRelease K) inputs Tapping.init) :
    Paired (run K inputs Tapping.init).handed := by
  have hrule : Obeys K (pairingRule K) inputs Tapping.init :=
    Obeys.and _ _ (Obeys.and _ _ (Obeys.and _ _ hstrand hown) hcancel) hforced
  have hinit : Pairs Tapping.init.view (pending Tapping.init.view {}) :=
    ⟨counts_init, fun n hn => absurd hn (Nat.not_lt_zero n), fun e he =>
      by simp [Tapping.init, view] at he,
      fun hu => (Bool.false_ne_true hu).elim⟩
  have hrun := run_pending_invariant (C := pairingRule K) (J := Pairs)
    (fun v q P h => ⟨h.counts.withBuffer v q P, h.paired, h.submitted, h.fresh⟩)
    (fun v inp hk _ h => ⟨h.counts.submit v inp hk, h.paired, h.submitted, h.fresh⟩)
    (fun _ _ _ _ _ _ hr hc h hJ => h.pairs hr hc hJ)
    (fun _ _ _ hc => hc.1.1.1) inputs hno hrule halt hinit
  exact hrun.2.paired

/-- A tap that a letter interrupts not, a sequential tap and a hold. -/
theorem run_paired_two_keys :
    Paired (run sampleKeymap [down 0 0, up 0 20, down 0 40, up 0 60, down 1 80, down 5 100,
      .tick 400, up 5 410, up 1 420] Tapping.init).handed :=
  run_paired sampleKeymap [down 0 0, up 0 20, down 0 40, up 0 60, down 1 80, down 5 100,
    .tick 400, up 5 410, up 1 420] (by decide +kernel) (by decide +kernel) (by decide +kernel)
    (by decide +kernel) (by decide +kernel) (by decide +kernel)

/-- A letter is pressed while the tap key is down: the tap is cancelled
and handed over again after the term. -/
theorem press_delivered_twice :
    let inputs := [down 0 0, down 5 20, up 0 40, .tick 300]
    NoOverflow sampleKeymap inputs Tapping.init ∧ Alternating (inputs.map (·.event)) ∧
      ¬Paired (run sampleKeymap inputs Tapping.init).handed := by
  refine ⟨by decide +kernel, by decide +kernel, by decide +kernel⟩

end Ch583Kbd.Tmk
