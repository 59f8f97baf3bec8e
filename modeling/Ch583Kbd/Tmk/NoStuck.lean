/-
Ch583Kbd.Tmk.NoStuck — when every key is up, nothing is on.

`HeldByKeys` says that what is on was turned on by the last call of a key that
is down, and that the release of that key will find the same action. A
press that is handed over twice must be looked up as the same action both
times (`sameActionAgain`): the code looks a key up when it is handed over,
a layer may have changed since the tap was cancelled, and what the first
call turned on is then never turned off.
-/
import Ch583Kbd.Tmk.HeldKeys
import Ch583Kbd.Tmk.LayerPressed
import Ch583Kbd.Tmk.TapCounts

namespace Ch583Kbd.Tmk

open Ch583Kbd.Lib TappingState

variable {K : Keymap}

/-! ## What is on -/

/-- The last call for the key was a press that turned `x` on. -/
def Handed.Holds (e : Handed) (x : Item) : Prop :=
  e.before.event.pressed = true ∧ e.action.turned (e.after.tap.count != 0) x

/-- What is on is held by a key, whose release will be looked up as its
press was. -/
structure HeldByKeys (K : Keymap) (v : View) : Prop where
  sixKro : SixKro v.act
  found : ∀ k e, lastOf k v.handed = some e → e.before.event.pressed = true →
    K (v.act.layerPressed k) k = e.action
  on : ∀ x, v.act.On x → ∃ k e, lastOf k v.handed = some e ∧ e.Holds x

/-- An undecided tapping key that was handed over is a modifier tap key
whose tap was cancelled. -/
def Cancelled (v : View) : Prop :=
  v.undecided = true → ∀ i, v.tappingKey.origin = some i → Delivered v i →
    v.tappingKey.tap.interrupted = true ∧
      ∃ e, lastOf v.tappingKey.event.key v.handed = some e ∧ e.before.origin = some i ∧
        e.before.event.pressed = true ∧ e.after.tap.count = 0 ∧ e.action.isModsTapKey = true

/-- A tapping key that is handed over again is looked up as before. -/
def sameActionAgain (K : Keymap) : CallRule := fun _ r v =>
  v.undecided = true → v.settledBy r = true ∨ v.withinTappingTerm r.event = false →
    ∀ e ∈ v.handed, e.before.origin = v.tappingKey.origin →
      e.action = v.act.actionOf K v.tappingKey.event

instance (src : Source) (r : KeyRecord) (v : View) : Decidable (sameActionAgain K src r v) :=
  inferInstanceAs (Decidable (_ → _ → _))

/-! ## One call of `process_action` -/

section Hand

variable {v : View} {r t : KeyRecord}

/-- Recording the layer of a press turns nothing on or off. -/
theorem on_track (s : ActionState) (e : KeyEvent) (x : Item) : (s.track K e).On x ↔ s.On x := by
  unfold ActionState.track
  split
  · cases x <;> exact Iff.rfl
  · exact Iff.rfl

theorem handThen_act_eq (hreal : r.event.isNoEvent = false) :
    (v.handThen K r t).act =
      (v.act.track K r.event).perform (v.act.actionOf K r.event) r.event.pressed r.tap := by
  simp [processAction, hreal]

/-- A press is left with a count unless its tap was cancelled. -/
theorem entry_count (hreal : r.event.isNoEvent = false) (hp : r.event.pressed = true) :
    ((v.entry K r).after.tap.count != 0) = true ↔ r.tap.count > 0 ∧
      ¬((v.act.actionOf K r.event).isModsTapKey = true ∧ r.tap.interrupted = true) := by
  have hafter : (v.entry K r).after = cancelTap (v.act.actionOf K r.event) r := by
    simp [entry, processAction, hreal]
  rw [hafter, cancelTap, bne_iff_ne]
  by_cases hcount : r.tap.count > 0
  · by_cases hint : (v.act.actionOf K r.event).isModsTapKey = true ∧ r.tap.interrupted = true
    · rw [if_pos ⟨hint.1, hp, hcount, hint.2⟩]
      exact ⟨fun h => absurd rfl h, fun h => absurd hint h.2⟩
    · rw [if_neg fun h => hint ⟨h.1, h.2.2.2⟩]
      exact ⟨fun _ => ⟨hcount, hint⟩, fun h => Nat.ne_of_gt h.1⟩
  · rw [if_neg fun h => hcount h.2.2.1]
    exact ⟨fun h => absurd (Nat.pos_of_ne_zero h) hcount, fun h => absurd h.1 hcount⟩

/-- Recording the layer of a key that is not down concerns no key that is. -/
theorem HeldByKeys.lookUp (h : HeldByKeys K v) {e : KeyEvent} (hk : ¬Pressed v e.key) :
    HeldByKeys K (v.lookUp K e) where
  sixKro := sixKro_track h.sixKro e
  found := by
    intro k p hlast hp
    have hne : e.key ≠ k := fun he => hk (he ▸ ⟨p, hlast, hp⟩)
    exact (congrArg (K · k) (layerPressed_track_of_ne v.act hne)).trans (h.found k p hlast hp)
  on x hx := h.on x ((on_track v.act e x).mp hx)

/-- A press is handed over: the key holds what the press turns on. What it
held before, it still holds. -/
theorem HeldByKeys.handPress (h : HeldByKeys K v) (hK : ∀ l k, (K l k).ordinary = true)
    (hreal : r.event.isNoEvent = false) (hp : r.event.pressed = true)
    (hagain : ∀ e x, lastOf r.event.key v.handed = some e → e.Holds x →
      (v.entry K r).Holds x) : HeldByKeys K (v.handThen K r t) := by
  have hpressed : r.event.isPressed = true := r.event.isPressed_iff.mpr ⟨hreal, hp⟩
  have hord : (v.act.actionOf K r.event).ordinary = true := by
    rw [ActionState.actionOf, hreal]
    exact hK _ _
  have hadds := Action.perform_adds hord r.tap _ (entry_count (K := K) (v := v) hreal hp)
  have hact := handThen_act_eq (K := K) (v := v) (t := t) hreal
  rw [hp] at hact
  have hsix := sixKro_track (K := K) h.sixKro r.event
  have hlayer : ∀ k, (v.handThen K r t).act.layerPressed k =
      (v.act.track K r.event).layerPressed k := fun k => by
    rw [hact, hadds.layerPressed]
  refine ⟨by rw [hact]; exact hadds.sixKro _ hsix, fun k e hlast hpe => ?_, fun x hx => ?_⟩
  · rw [hlayer]
    by_cases hk : r.event.key = k
    · subst hk
      rw [lastOf_handThen_self hreal] at hlast
      rw [← Option.some.inj hlast]
      exact layerPressed_track_self v.act hpressed
    · rw [lastOf_handThen_of_ne hreal hk] at hlast
      rw [layerPressed_track_of_ne v.act hk]
      exact h.found k e hlast hpe
  · rw [hact] at hx
    have hself := lastOf_handThen_self (K := K) (v := v) (t := t) hreal
    rcases hadds.on _ hsix x hx with hx | hx
    · obtain ⟨k, e, hlast, hholds⟩ := h.on x ((on_track v.act r.event x).mp hx)
      by_cases hk : r.event.key = k
      · exact ⟨_, _, hself, hagain e x (hk ▸ hlast) hholds⟩
      · exact ⟨k, e, (lastOf_handThen_of_ne hreal hk).trans hlast, hholds⟩
    · exact ⟨_, _, hself, hp, hx⟩

/-- A release is handed over: what the key held is off. -/
theorem HeldByKeys.handRelease (h : HeldByKeys K v) (hK : ∀ l k, (K l k).ordinary = true)
    (hreal : r.event.isNoEvent = false) (hp : r.event.pressed = false)
    (hc : Pressed v r.event.key → (r.tap.count ≠ 0 ↔ Tapped v r.event.key)) :
    HeldByKeys K (v.handThen K r t) := by
  have hord : (v.act.actionOf K r.event).ordinary = true := by
    rw [ActionState.actionOf, hreal]
    exact hK _ _
  have hremoves := Action.perform_removes hord r.tap
  have hact := handThen_act_eq (K := K) (v := v) (t := t) hreal
  rw [hp, ActionState.track_of_not_pressed K v.act r.event (by simp [KeyEvent.isPressed, hp])]
    at hact
  have hother : ∀ k e, r.event.key ≠ k → lastOf k v.handed = some e →
      lastOf k (v.handThen K r t).handed = some e := fun k e hk hlast =>
    (lastOf_handThen_of_ne hreal hk).trans hlast
  refine ⟨by rw [hact]; exact hremoves.sixKro _ h.sixKro, fun k e hlast hpe => ?_, fun x hx => ?_⟩
  · rw [hact, hremoves.layerPressed]
    by_cases hk : r.event.key = k
    · subst hk
      rw [lastOf_handThen_self hreal] at hlast
      rw [← Option.some.inj hlast] at hpe
      exact absurd (hp.symm.trans hpe) Bool.false_ne_true
    · rw [lastOf_handThen_of_ne hreal hk] at hlast
      exact h.found k e hlast hpe
  · rw [hact] at hx
    obtain ⟨hx, hoff⟩ := hremoves.on _ h.sixKro x hx
    obtain ⟨k, e, hlast, hpe, hturned⟩ := h.on x hx
    by_cases hk : r.event.key = k
    · exfalso
      subst hk
      -- the release is looked up as the press was, with the same count
      have haction : v.act.actionOf K r.event = e.action := by
        rw [← h.found _ e hlast hpe, ActionState.actionOf, hreal]
        simp [ActionState.layerFor, hp]
      have hcount : (r.tap.count != 0) = (e.after.tap.count != 0) := by
        have htap : Tapped v r.event.key ↔ e.after.tap.count ≠ 0 := by
          constructor
          · rintro ⟨e', hlast', -, hc'⟩
            exact Option.some.inj (hlast.symm.trans hlast') ▸ hc'
          · exact fun hc' => ⟨e, hlast, hpe, hc'⟩
        rw [Bool.eq_iff_iff, bne_iff_ne, bne_iff_ne]
        exact (hc ⟨e, hlast, hpe⟩).trans htap
      rw [haction, hcount] at hoff
      exact hoff hturned
    · exact ⟨k, e, hother k e hk hlast, hpe, hturned⟩

end Hand

/-! ## A step -/

/-- The condition on the calls of a run. -/
def stuckRule (K : Keymap) : CallRule := fun src r v =>
  (noStranding src r v ∧ ownRelease K src r v) ∧ sameActionAgain K src r v

/-- What holds between two calls. -/
structure NotStuck (K : Keymap) (v : View) (P : KeyRecord → Prop) : Prop where
  counts : Counts v P
  held : HeldByKeys K v
  cancelled : Cancelled v

section Step

variable {v w : View} {r r' t : KeyRecord}

/-- What an undecided tapping key held before it is handed over, it holds
afterwards. -/
theorem NotStuck.tapping_again {P : KeyRecord → Prop} (h : NotStuck K v P) (hr : Ready v r)
    (hu : v.undecided = true)
    (hsame : ∀ e ∈ v.handed, e.before.origin = v.tappingKey.origin →
      e.action = v.act.actionOf K v.tappingKey.event) (n : Nat) :
    ∀ e x, lastOf v.tappingKey.event.key v.handed = some e → e.Holds x →
      (v.entry K (v.tappingKey.withCount n)).Holds x := by
  intro e x hlast hholds
  obtain ⟨hreal, hp, -⟩ := undecided_real hu
  obtain ⟨i, hi, -⟩ := hr.core.tapping hreal
  by_cases hd : Delivered v i
  · obtain ⟨hint, e', hlast', ho, -, hzero, hmods⟩ := h.cancelled hu i hi.1 hd
    obtain rfl : e = e' := Option.some.inj (hlast.symm.trans hlast')
    have haction := hsame e (lastOf_spec hlast).1 (ho.trans hi.1.symm)
    have hcount : ((v.entry K (v.tappingKey.withCount n)).after.tap.count != 0) = false := by
      rw [Bool.eq_false_iff]
      intro hc
      exact ((entry_count (r := v.tappingKey.withCount n) hreal hp).mp hc).2
        ⟨haction ▸ hmods, hint⟩
    refine ⟨hp, ?_⟩
    rw [hcount]
    have hturned := hholds.2
    rw [haction, hzero] at hturned
    exact hturned
  · exact absurd ⟨e, hlast, hholds.1⟩
      (hr.tapping_not_pressed hu hi.1 hd (h.counts.keys _).latest)

/-- A press that is handed over while its key is up holds what it turns on. -/
theorem HeldByKeys.handFresh (h : HeldByKeys K v) (hK : ∀ l k, (K l k).ordinary = true)
    (hreal : r.event.isNoEvent = false) (hp : r.event.pressed = true)
    (hnot : ¬Pressed v r.event.key) : HeldByKeys K (v.handThen K r t) :=
  h.handPress hK hreal hp fun e _ hlast hholds => absurd ⟨e, hlast, hholds.1⟩ hnot

/-- The tapping key stays undecided, or becomes so, without being handed
over. -/
theorem Cancelled.handOther (h : Cancelled v) (hr : Ready v r) (hreal : r.event.isNoEvent = false)
    (hk : r.event.key ≠ v.tappingKey.event.key) :
    Cancelled (v.handThen K r v.tappingKey) := by
  intro hu i hi hd
  have hu' : v.undecided = true := hu
  have hd' : Delivered v i := by
    rcases (delivered_handThen r v.tappingKey v hreal i).mp hd with hd | ho
    · exact hd
    · have hsub := hr.origin_event hreal ho
      rw [hr.tapping_event hu' hi] at hsub
      exact absurd (congrArg KeyEvent.key (Option.some.inj hsub)).symm hk
  obtain ⟨hint, e, hlast, hrest⟩ := h hu' i hi hd'
  exact ⟨hint, e, (lastOf_handThen_of_ne hreal hk).trans hlast, hrest⟩

theorem Cancelled.of_not_undecided (h : ¬v.undecided = true) : Cancelled v :=
  fun hu => absurd hu h

theorem Cancelled.of_not_delivered
    (h : ∀ i, v.tappingKey.origin = some i → ¬Delivered v i) : Cancelled v :=
  fun _ i hi hd => absurd hd (h i hi)

/-- A first tap leaves the tapping key undecided if the tap was
cancelled. -/
theorem Cancelled.tapped (hreal : v.tappingKey.event.isNoEvent = false)
    (hp : v.tappingKey.event.pressed = true) : Cancelled (v.tapped K) := by
  intro hu i hi hd
  have hzero : (v.hand K (v.tappingKey.withCount 1)).1.tap.count = 0 := (undecided_real hu).2.2
  have hkey : (v.tapped K).tappingKey.event.key = v.tappingKey.event.key :=
    congrArg KeyEvent.key (hand_fst_event (K := K) (v.tappingKey.withCount 1) v)
  have horigin : (v.tapped K).tappingKey.origin = v.tappingKey.origin :=
    hand_fst_origin (K := K) (v.tappingKey.withCount 1) v
  rcases hand_fst_eq (K := K) (v.tappingKey.withCount 1) v with he | ⟨-, -, hint, hmods, -⟩
  · rw [he] at hzero
    simp at hzero
  · have hint' : (v.tapped K).tappingKey.tap.interrupted = true :=
      (hand_fst_interrupted (K := K) (v.tappingKey.withCount 1) v).trans hint
    refine ⟨hint', v.entry K (v.tappingKey.withCount 1), ?_, horigin.symm.trans hi,
      hp, hzero, hmods⟩
    rw [hkey]
    exact lastOf_handThen_self (r := v.tappingKey.withCount 1) hreal

/-- "Start" leaves a key that was up as it was. -/
theorem started_not_pressed (hreal : r.event.isNoEvent = false) (hnot : ¬Pressed v r.event.key) :
    ¬Pressed (v.started K r) r.event.key := by
  unfold TappingState.started
  dsimp only
  split
  · next hset =>
    rintro ⟨e, hlast, hp⟩
    rw [lastOf_handThen (r := (v.lookUp K r.event).lastTapRelease r.event.time)
      (lastTapRelease_real (v := v) hset.1 hreal)] at hlast
    split at hlast
    · rw [← Option.some.inj hlast] at hp
      simp [entry, lastTapRelease] at hp
    · exact hnot ⟨e, hlast, hp⟩
  · exact hnot

/-- "Start": the last tap, if it was of more than one, is released. -/
theorem NotStuck.started {P : KeyRecord → Prop} (h : NotStuck K v P)
    (hK : ∀ l k, (K l k).ordinary = true) (hp : r.event.isPressed = true)
    (hnot : ¬Pressed v r.event.key) : HeldByKeys K (v.started K r) := by
  obtain ⟨hreal, hpr⟩ := r.event.isPressed_iff.mp hp
  have hlook := h.held.lookUp hnot
  unfold TappingState.started
  dsimp only
  split
  · next hset =>
    refine hlook.handRelease (r := (v.lookUp K r.event).lastTapRelease r.event.time) hK
      (lastTapRelease_real (v := v) hset.1 hreal) rfl fun _ => ⟨fun _ => ?_, fun _ => ?_⟩
    · exact h.counts.settled hset.1
    · exact (settled_real (v := v) hset.1).2.2
  · exact ⟨hlook.sixKro, hlook.found, hlook.on⟩

/-- **A step leaves nothing on that no key holds.** -/
theorem TapStep.notStuck {src : Source} {consumed : Bool} (hK : ∀ l k, (K l k).ordinary = true)
    (h : TapStep K v r consumed r' w) (hr : Ready v r) (hrule : stuckRule K src r v)
    (hc : NotStuck K v (pending v r)) :
    NotStuck K w (pending w (if consumed then {} else r')) := by
  obtain ⟨⟨-, hown⟩, hsame⟩ := hrule
  have hcounts := h.counts hr hown hc.counts
  have hstep := h
  -- a press that is consumed is of a key that was up
  have hpress : r.event.isPressed = true → consumed = true → ¬Pressed v r.event.key := by
    intro hp hcons
    subst hcons
    exact hr.not_pressed hstep hp (hc.counts.keys _).latest
  cases h with
  | firstTap hu hs =>
    obtain ⟨hreal, hp, -⟩ := undecided_real hu
    -- the tapping press goes out as a tap, with the action it had when it came
    have hagain := hc.tapping_again hr hu (hsame hu (.inl hs)) 1
    exact ⟨hcounts, hc.held.handPress (r := v.tappingKey.withCount 1) hK hreal hp hagain,
      .tapped hreal hp⟩
  | early hu hw hrel hk ht hn =>
    obtain ⟨hreal, hp⟩ := r.event.isReleased_iff.mp hrel
    -- this release overtakes the tapping press; its own press is delivered
    have hagrees := hc.counts.release_agrees hr hstep hreal fun _ => hk
    exact ⟨hcounts, hc.held.handRelease hK hreal hp fun _ => hagrees,
      hc.cancelled.handOther hr hreal hk⟩
  | wait hu hw hs hrel =>
    refine ⟨hcounts, ?_, ?_⟩
    · split
      · exact ⟨hc.held.sixKro, hc.held.found, hc.held.on⟩
      · exact hc.held
    · split
      · exact fun hu' i hi hd => ⟨rfl, (hc.cancelled hu i hi hd).2⟩
      · exact hc.cancelled
  | timeout hu hw =>
    obtain ⟨hreal, hp, -⟩ := undecided_real hu
    have hagain := hc.tapping_again hr hu (hsame hu (.inr hw)) v.tappingKey.tap.count
    exact ⟨hcounts, hc.held.handPress hK hreal hp hagain,
      .of_not_undecided Bool.false_ne_true⟩
  | tapRelease hset hk hp =>
    have hreal := hr.wf.real_of_key hk (settled_real hset).1
    refine ⟨hcounts, hc.held.handRelease (r := r.withTap v.tappingKey.tap) hK hreal hp fun _ =>
      ⟨fun _ => ?_, fun _ => (settled_real hset).2.2⟩, .of_not_undecided fun hu => ?_⟩
    · rw [KeyRecord.withTap_event, hk]
      exact hc.counts.settled hset
    · have hpr := (undecided_real hu).2.1
      rw [handThen_tappingKey] at hpr
      split at hpr
      · rw [KeyRecord.withTap_event, hp] at hpr
        simp at hpr
      · simp at hpr
  | start w hu hp ht hrel hscan =>
    obtain ⟨hreal, hpr⟩ := r.event.isPressed_iff.mp hp
    have hstarted := hc.started hK hp (hpress hp rfl)
    have hfresh : ∀ i, (v.started K r).tappingKey.origin = some i →
        ¬Delivered (v.started K r) i := fun i hi =>
      (hr.started_upTo hreal (by rw [started_tappingKey] at hi; exact hi)).2
    cases hscan with
    | miss hm => exact ⟨hcounts, hstarted, .of_not_delivered hfresh⟩
    | hit pre x post hu' hq hpre hx =>
      -- the release of the new tapping key waits in the buffer already
      have hheld : HeldByKeys K ((v.started K r).withBuffer (pre ++ x.withCount 1 :: post)) :=
        ⟨hstarted.sixKro, hstarted.found, hstarted.on⟩
      have htapped := tapped_of_fresh (K := K)
        (v := (v.started K r).withBuffer (pre ++ x.withCount 1 :: post)) (started_tappingKey r v)
        ((hr.inHand hreal).press_fresh hpr)
      refine ⟨hcounts, ?_, .of_not_undecided fun hu'' => ?_⟩
      · rw [htapped]
        exact hheld.handFresh (r := r.withCount 1) hK hreal hpr
          (started_not_pressed hreal (hpress hp rfl))
      · have hzero := (undecided_real hu'').2.2
        rw [htapped] at hzero
        simp at hzero
  | sequential hrel hw hp hk hi hcount =>
    have hreal := hr.wf.real_of_pressed hp
    refine ⟨hcounts, hc.held.handFresh (r := r.withTap v.nextTap) hK hreal hp
      (hpress (r.event.isPressed_iff.mpr ⟨hreal, hp⟩) rfl), .of_not_undecided fun hu => ?_⟩
    have hzero := (undecided_real hu).2.2
    simp only [handThen_tappingKey, KeyRecord.withTap_tap, nextTap] at hzero
    split at hzero <;> omega
  | again hrel hw hp hk hi =>
    refine ⟨hcounts, ⟨hc.held.sixKro, hc.held.found, hc.held.on⟩,
      .of_not_delivered fun i hi => ?_⟩
    obtain ⟨j, hj, hnd⟩ := (hr.inHand (hr.wf.real_of_pressed hp)).stands
    exact Option.some.inj (hj.1.symm.trans hi) ▸ hnd
  | pass hu he hrel hset ht =>
    refine ⟨hcounts, ?_, .of_not_undecided fun hu' => ?_⟩
    · cases hp : r.event.pressed with
      | true =>
        exact hc.held.handFresh hK he hp (hpress (r.event.isPressed_iff.mpr ⟨he, hp⟩) rfl)
      | false =>
        refine hc.held.handRelease hK he hp fun _ => hc.counts.release_agrees hr hstep he ?_
        intro hs hk
        exact absurd (hp.symm.trans (hset hs hk)) Bool.false_ne_true
    · rw [undecided_handThen r v (interruptedBy_tag v r.event) (interruptedBy_count v r.event),
        hu] at hu'
      simp at hu'
  | releasedTimeout hrel hw =>
    exact ⟨hcounts, ⟨hc.held.sixKro, hc.held.found, hc.held.on⟩,
      .of_not_undecided Bool.false_ne_true⟩
  | tick hu he hrel => exact ⟨hcounts, hc.held, hc.cancelled⟩

end Step

/-! ## Runs -/

/-- No modifier, no key and no layer is on. -/
def ActionState.AllOff (s : ActionState) : Prop :=
  s.realMods = 0 ∧ s.weakMods = 0 ∧ s.keyReport.hasAnykey = 0 ∧ s.layerState = 0

instance (s : ActionState) : Decidable s.AllOff := inferInstanceAs (Decidable (_ ∧ _))

theorem eq_zero_of_bits {n : Nat} {b : BitVec n} (h : ∀ i, ¬b.getLsbD i = true) : b = 0 := by
  refine BitVec.eq_of_getLsbD_eq fun i _ => ?_
  rw [Bool.eq_false_iff.mpr (h i)]
  simp

/-- A state with nothing on has every bit of the report and of the layers clear. -/
theorem allOff_of_on {s : ActionState} (hs : SixKro s) (h : ∀ x, ¬s.On x) : s.AllOff := by
  refine ⟨?_, ?_, ?_, ?_⟩
  · exact eq_zero_of_bits fun i => h (.mod i)
  · exact eq_zero_of_bits fun i => h (.weakMod i)
  · have hzero : ∀ j, j ≠ 0 → s.keyReport.raw[j]?.getD 0 = 0 := by
      intro j hj
      by_cases hkey : j < 2 ∨ 8 ≤ j
      · exact hs.outside j hj hkey
      · by_contra hne
        refine h (.code (s.keyReport.raw[j]?.getD 0)) ⟨hne, j - 2, by omega, ?_⟩
        rw [KeyReport.key, show 2 + (j - 2) = j by omega]
    rw [KeyReport.hasAnykey, List.countP_eq_zero]
    intro b hb
    obtain ⟨j, hj⟩ := List.mem_iff_getElem?.mp hb
    rw [List.getElem?_drop, Vector.getElem?_toList] at hj
    have hb' := hzero (1 + j) (by omega)
    rw [hj] at hb'
    simpa using hb'
  · exact eq_zero_of_bits fun i => h (.layer i)

/-- Every key is up. -/
def AllUp (events : List KeyEvent) : Prop := ∀ k, keyDown k events = false

/-- All keys are up when each key that has an event is. -/
theorem allUp_iff (events : List KeyEvent) :
    AllUp events ↔ ∀ e ∈ events, keyDown e.key events = false := by
  constructor
  · intro h e _
    exact h e.key
  · intro h k
    rcases keyDown_cases k events with ⟨hup, -⟩ | ⟨i, e, hi, he, -⟩
    · exact hup
    · exact he.2 ▸ h e (List.mem_of_getElem? hi)

instance (events : List KeyEvent) : Decidable (AllUp events) :=
  decidable_of_iff _ (allUp_iff events).symm

/-- No key is down for `process_action` once the last release of every key
is delivered. -/
theorem not_pressed_of_allUp {v : View} {P : KeyRecord → Prop} (hk : KeyOrdered v)
    (hc : Counts v P) (hup : AllUp v.submitted) (hbuf : v.waitingBuffer = [])
    (hu : v.undecided = false) (k : KeyPos) : ¬Pressed v k := by
  rintro ⟨e, hlast, hp⟩
  obtain ⟨i, ho, hi, hek, -⟩ := pressed_origin hk.booked.core hlast hp
  rcases keyDown_cases k v.submitted with ⟨-, hnone⟩ | ⟨j, d, hj, hd, hdown, hafter⟩
  · exact hnone i _ hi hek
  · rw [hup k] at hdown
    have hij : i < j := by
      rcases Nat.lt_trichotomy i j with hij | rfl | hji
      · exact hij
      · rw [hi] at hj
        rw [Option.some.inj hj, ← hdown] at hp
        simp at hp
      · exact absurd hek (hafter i _ hji hi)
    -- the last release of the key is not delivered before its press
    have hdel : Delivered v j := by
      rcases hk.booked.accounted j d hj hd.1 with hdel | ⟨hu', -⟩ | ⟨x, hx, -⟩ | ⟨hreal, -⟩
      · exact hdel
      · rw [← undecided_eq, hu] at hu'
        simp at hu'
      · rw [hbuf] at hx
        simp at hx
      · exact empty_not_real hreal
    have hle := (hc.keys k).latest e i hlast ho j d hdel hj hd.2
    omega

/-- At the start nothing is on and no key is down. -/
theorem notStuck_init : NotStuck K Tapping.init.view (pending Tapping.init.view {}) := by
  refine ⟨counts_init, ⟨sixKro_init, fun k e hlast => ?_, fun x hx => ?_⟩,
    .of_not_undecided Bool.false_ne_true⟩
  · simp [lastOf, Tapping.init, view] at hlast
  · exfalso
    cases x with
    | mod i => simp [ActionState.On, Tapping.init, view] at hx
    | weakMod i => simp [ActionState.On, Tapping.init, view] at hx
    | layer i => simp [ActionState.On, Tapping.init, view] at hx
    | code c =>
      obtain ⟨hc, j, -, hj⟩ := hx
      exact hc (hj.symm.trans (raw_init (2 + j)))

/-- **No stuck state.** In a run in which no event is submitted past
records that wait, the release that settles a tapping key is its own and a
tapping key that is handed over again is looked up as before: when every
key is up and nothing waits, nothing is on. -/
theorem run_allOff (K : Keymap) (hK : ∀ l k, (K l k).ordinary = true) (inputs : List Input)
    (hno : NoOverflow K inputs Tapping.init) (halt : Alternating (inputs.map (·.event)))
    (hup : AllUp (inputs.map (·.event)))
    (hstrand : Obeys K noStranding inputs Tapping.init)
    (hown : Obeys K (ownRelease K) inputs Tapping.init)
    (hsame : Obeys K (sameActionAgain K) inputs Tapping.init)
    (hbuf : (run K inputs Tapping.init).waitingBuffer.toList = [])
    (hu : (run K inputs Tapping.init).undecided = false) :
    (run K inputs Tapping.init).act.AllOff := by
  have hrule : Obeys K (stuckRule K) inputs Tapping.init :=
    Obeys.and _ _ (Obeys.and _ _ hstrand hown) hsame
  obtain ⟨hk, hrun⟩ := run_pending_invariant (C := stuckRule K) (J := NotStuck K)
    (fun v q P h => ⟨h.counts.withBuffer v q P, ⟨h.held.sixKro, h.held.found, h.held.on⟩,
      h.cancelled⟩)
    (fun v inp hk _ h => ⟨h.counts.submit v inp hk,
      ⟨sixKro_of_report h.held.sixKro rfl rfl, h.held.found,
        fun x hx => h.held.on x (by cases x <;> exact hx)⟩, h.cancelled⟩)
    (fun _ _ _ _ _ _ hr hc h hJ => h.notStuck hK hr hc hJ)
    (fun _ _ _ hc => hc.1.1) inputs hno hrule halt notStuck_init
  have hsub : (run K inputs Tapping.init).view.submitted = inputs.map (·.event) :=
    run_submitted inputs Tapping.init realBuffer_init hno
  refine allOff_of_on hrun.held.sixKro fun x hx => ?_
  obtain ⟨k, e, hlast, hholds⟩ := hrun.held.on x hx
  exact not_pressed_of_allUp hk hrun.counts (hsub ▸ hup) hbuf hu k ⟨e, hlast, hholds.1⟩

/-- Every action of the sample keymap is an ordinary one. -/
theorem sampleKeymap_ordinary (l : BitVec 8) (k : KeyPos) :
    (sampleKeymap l k).ordinary = true := by
  unfold sampleKeymap
  split <;> decide

/-- A tap that is cancelled and handed over again, a layer key and a layer
tap key. -/
theorem run_allOff_five_keys :
    (run sampleKeymap [down 4 0, down 0 10, down 5 20, up 0 40, .tick 300, up 5 310, up 4 320,
      down 3 400, .tick 700, down 1 710, up 3 720, up 1 730, .tick 1000] Tapping.init).act.AllOff :=
  run_allOff sampleKeymap sampleKeymap_ordinary [down 4 0, down 0 10, down 5 20, up 0 40,
    .tick 300, up 5 310, up 4 320, down 3 400, .tick 700, down 1 710, up 3 720, up 1 730,
    .tick 1000] (by decide +kernel) (by decide +kernel) (by decide +kernel) (by decide +kernel)
    (by decide +kernel) (by decide +kernel) (by decide +kernel) (by decide +kernel)

/-- The layer goes off between the two times the tap key is handed over:
the first turns left ctrl on, the second and the release are for left
shift. -/
theorem modifier_stuck :
    let inputs := [down 4 0, down 1 10, down 5 20, up 1 30, up 4 40, .tick 300, up 5 310,
      .tick 600]
    let s := run sampleKeymap inputs Tapping.init
    (∀ l k, (sampleKeymap l k).ordinary = true) ∧ NoOverflow sampleKeymap inputs Tapping.init ∧
      Alternating (inputs.map (·.event)) ∧ AllUp (inputs.map (·.event)) ∧
      (inputs.map (·.event.time.toNat)).Pairwise (· ≤ ·) ∧ s.waitingBuffer.toList = [] ∧
      s.isTapping = false ∧ s.act.realMods = 1 ∧ ¬s.act.AllOff := by
  refine ⟨sampleKeymap_ordinary, by decide +kernel, by decide +kernel, by decide +kernel,
    by decide +kernel, by decide +kernel, by decide +kernel, by decide +kernel, by decide +kernel⟩

end Ch583Kbd.Tmk
