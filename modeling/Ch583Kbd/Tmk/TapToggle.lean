/-
Ch583Kbd.Tmk.TapToggle — typing a tap toggle key.

The press of a tap inverts the layer while its count is below
`TAPPING_TOGGLE`, the release while it is at most that. So the taps below
the threshold invert twice, the one at the threshold inverts once, with its
release, and the later ones not at all. The first press is executed
together with its release, which waits in the buffer meanwhile; from then
on every event is executed at once.

`Phase count inverted down` is the state between two events of the key:
the count of the tapping key, whether the layer is inverted and whether the
key is down. The count stops at 15, beyond the threshold.
-/
import Ch583Kbd.Tmk.LayerCodes
import Ch583Kbd.Tmk.Calls

namespace Ch583Kbd.Tmk

open Ch583Kbd.Lib TappingState

/-! ## The key -/

theorem isTap_actionLayerTapToggle (l : Fin 32) : (actionLayerTapToggle l).isTap = true := by
  revert l
  decide

section Key

variable {K : Keymap} {key : KeyPos} {l : Fin 32}
  (hK : ∀ layer, K layer key = actionLayerTapToggle l)

include hK

/-- Every event of the key performs the tap toggle. -/
theorem actionOf_tapToggle (s : ActionState) {e : KeyEvent} (hkey : e.key = key)
    (hreal : e.isNoEvent = false) : s.actionOf K e = actionLayerTapToggle l := by
  rw [ActionState.actionOf, if_neg (by simp [hreal]), hkey]
  exact hK _

theorem isTap_tapToggle (s : ActionState) {e : KeyEvent} (hkey : e.key = key)
    (hreal : e.isNoEvent = false) : (s.actionOf K e).isTap = true := by
  rw [actionOf_tapToggle hK s hkey hreal]
  exact isTap_actionLayerTapToggle l

/-- What executing an event of the key does to the layers. -/
theorem processAction_tapToggle (r : KeyRecord) (s : ActionState) (hkey : r.event.key = key)
    (hreal : r.event.isNoEvent = false) : (processAction K r s).2.layerState =
      if (if r.event.pressed then r.tap.count < tappingToggle
          else r.tap.count ≤ tappingToggle) then
        s.layerState ^^^ 1#32 <<< l.val
      else s.layerState := by
  have htrack : (s.track K r.event).layerState = s.layerState := by
    unfold ActionState.track
    split <;> rfl
  rw [processAction, if_neg (by simp [hreal]), actionOf_tapToggle hK s hkey hreal]
  simp only [ActionState.perform_layerTapToggle]
  rw [← htrack]
  cases r.event.pressed <;> simp only [Bool.false_eq_true, if_true, if_false] <;> split <;> rfl

end Key

/-! ## The states in between -/

/-- The layers, with the bit of `l` inverted or not. -/
def invertedIf (inverted : Bool) (l : Fin 32) (layers : BitVec 32) : BitVec 32 :=
  if inverted then layers ^^^ 1#32 <<< l.val else layers

/-- Inverting the layer once more inverts it the other way. -/
theorem invertedIf_xor (inverted : Bool) (l : Fin 32) (layers : BitVec 32) :
    invertedIf inverted l layers ^^^ 1#32 <<< l.val = invertedIf (!inverted) l layers := by
  cases inverted
  · rfl
  · show layers ^^^ 1#32 <<< l.val ^^^ 1#32 <<< l.val = layers
    rw [BitVec.xor_assoc, BitVec.xor_self, BitVec.xor_zero]

/-- The event is within the term of an earlier one. -/
def Within (earlier e : KeyEvent) : Prop := (timerDiff16 e.time earlier.time).toNat < tappingTerm

instance (earlier e : KeyEvent) : Decidable (Within earlier e) :=
  inferInstanceAs (Decidable (_ < _))

namespace TappingState

/-- No key is being tapped and nothing waits. -/
def Idle (s : Tapping) : Prop := s.isTapping = false ∧ s.waitingBuffer.isEmpty = true

/-- The key was last pressed or released at the event `last`. -/
structure Phase (layers : BitVec 32) (l : Fin 32) (key : KeyPos) (count : Nat)
    (inverted down : Bool)
    (last : KeyEvent) (v : View) : Prop where
  waiting : v.waitingBuffer = []
  event : v.tappingKey.event = last
  key : last.key = key
  real : last.isNoEvent = false
  pressed : last.pressed = down
  tap : v.tappingKey.tap = { count := count }
  layers : v.act.layerState = invertedIf inverted l layers

namespace Phase

variable {layers : BitVec 32} {l : Fin 32} {key : KeyPos} {count : Nat} {inverted down : Bool}
variable {last e : KeyEvent} {v : View}

theorem isTapping (h : Phase layers l key count inverted down last v) : v.isTapping = true := by
  simp [TappingState.isTapping, h.event, h.real]

theorem isTappingPressed (h : Phase layers l key count inverted down last v) :
    v.isTappingPressed = down := by
  simp [TappingState.isTappingPressed, h.isTapping, h.event, h.pressed]

theorem isTappingReleased (h : Phase layers l key count inverted down last v) :
    v.isTappingReleased = !down := by
  simp [TappingState.isTappingReleased, h.isTapping, h.event, h.pressed]

/-- The tapping key is undecided while it is down without a count. -/
theorem undecided (h : Phase layers l key count inverted down last v) :
    v.undecided = (down && count == 0) := by
  simp [TappingState.undecided, h.isTappingPressed, h.tap]

/-- The tapping key is settled while it is down with a count. -/
theorem settled (h : Phase layers l key count inverted down last v) :
    v.settled = (down && count != 0) := by
  simp [TappingState.settled, h.isTappingPressed, h.tap]

/-- An event within the term of the last one is within that of the tapping key. -/
theorem withinTappingTerm (h : Phase layers l key count inverted down last v)
    (hw : Within last e) : v.withinTappingTerm e = true := by
  rw [TappingState.withinTappingTerm, h.event]
  exact decide_eq_true hw

theorem key_eq (h : Phase layers l key count inverted down last v) (hkey : e.key = key) :
    e.key = v.tappingKey.event.key := by
  rw [h.event, h.key, hkey]

/-- A `TICK` is not an event of the key. -/
theorem key_ne (h : Phase layers l key count inverted down last v) (hwf : e.WellFormed)
    (hn : e.isNoEvent = true) : e.key ≠ v.tappingKey.event.key := by
  intro he
  rw [h.event] at he
  rw [hwf.real_of_key he h.real] at hn
  simp at hn

/-- The timer and the LEDs do not matter. -/
theorem submit (h : Phase layers l key count inverted down last v) (inp : Input) :
    Phase layers l key count inverted down last (v.submit inp) :=
  ⟨h.waiting, h.event, h.key, h.real, h.pressed, h.tap, h.layers⟩

end Phase

end TappingState

/-! ## One call -/

section Exec

variable {K : Keymap}

/-- With an empty buffer no event overflows. -/
theorem empty_no_overflow (s : Tapping) (inp : Input) (h : s.waitingBuffer.isEmpty = true) :
    overflows K inp s = false := by
  have hends : (processTapping K (s.record inp) (s.submit inp)).2.2.waitingBuffer.ends =
      s.waitingBuffer.ends := processTapping_ends _ _
  have hroom : (processTapping K (s.record inp) (s.submit inp)).2.2.waitingBuffer.isFull =
      false := by
    obtain ⟨hhead, htail⟩ := Prod.mk.inj hends
    have heq : s.waitingBuffer.tail = s.waitingBuffer.head := by
      simpa [RingQueue.isEmpty] using h
    rw [RingQueue.isFull, hhead, htail, heq, beq_eq_false_iff_ne]
    intro hnext
    have hval := congrArg Fin.val hnext
    have hlt := s.waitingBuffer.head.isLt
    simp only [RingQueue.next, waitingBufferSize] at hval hlt
    omega
  simp [overflows, hroom]

theorem isEmpty_of_view {s : Tapping} {v : View} (hs : s.view = v) (hv : v.waitingBuffer = []) :
    s.waitingBuffer.isEmpty = true := by
  subst hs
  exact (RingQueue.isEmpty_iff _).mpr hv

/-- The call of `process_tapping` for the new event; what is consumed, and
a TICK, ends the call of `action_exec`. -/
theorem actionExec_step (inp : Input) (s : Tapping) (h : s.waitingBuffer.isEmpty = true) :
    ∃ consumed r' w, TapStep K (s.view.submit inp) (s.view.record inp) consumed r' w ∧
      (w.waitingBuffer = [] → consumed = true ∨ inp.event.isNoEvent = true →
        (actionExec K inp s).view = w) ∧
      (w.waitingBuffer = [] → consumed = false → inp.event.isNoEvent = false →
        ∃ t : Tapping, t.view = w.withBuffer [r'] ∧
          (actionExec K inp s) = t.replay K waitingBufferSize) := by
  obtain ⟨consumed, r', w, hstep, hout⟩ := offer_spec inp s (empty_no_overflow (K := K) s inp h)
  have hevent : r'.event = inp.event := congrArg Prod.snd hstep.record_tag
  refine ⟨consumed, r', w, hstep, fun hw hdone => ?_, fun hw hnot hreal => ⟨_, ?_, rfl⟩⟩
  · rw [putBack, if_pos (by rwa [hevent])] at hout
    rw [actionExec, actionTappingProcess, replay_empty _ _ (isEmpty_of_view hout hw)]
    exact hout
  · rw [hout, putBack, if_neg (by simp [hnot, hevent, hreal]), hw]
    rfl

/-- The loop over a buffer with one record is one step, and keeps the record if
it was refused. -/
theorem replay_single (t : Tapping) {v : View} {r : KeyRecord} (ht : t.view = v.withBuffer [r])
    (hr : r.event.isNoEvent = false) :
    ∃ consumed r' w, TapStep K (v.withBuffer []) r consumed r' w ∧
      (consumed = true → w.waitingBuffer = [] →
        (t.replay K waitingBufferSize).view = w) := by
  have hbuffer : t.view.waitingBuffer = [r] := by rw [ht]; rfl
  have hne : t.waitingBuffer.isEmpty = false := by
    by_contra he
    rw [Bool.not_eq_false, RingQueue.isEmpty_iff] at he
    exact absurd (hbuffer.symm.trans he) (by simp)
  have hreal : RealBuffer t.view := by
    intro x hx
    rw [hbuffer, List.mem_singleton] at hx
    rw [hx, hr]
  obtain ⟨xs, r', w, hq, hstep, hout⟩ := round_spec (K := K) t hne hreal
  rw [hbuffer] at hq
  obtain ⟨hslot, hxs⟩ := List.cons.inj hq
  rw [← hslot, ← hxs, ht] at hstep
  refine ⟨_, r', w, hstep, fun hc hw => ?_⟩
  rw [putBack, if_pos (Or.inl hc)] at hout
  rw [replay_succ 7 t hne, if_pos hc, replay_empty _ _ (isEmpty_of_view hout hw)]
  exact hout

end Exec

/-! ## The four events -/

section Events

variable {K : Keymap} {key : KeyPos} {l : Fin 32} {layers : BitVec 32} {count : Nat}
variable {inverted down : Bool} {last : KeyEvent} {s : Tapping} {inp : Input}

/-- A `TICK` within the term changes nothing. -/
theorem TappingState.Phase.tick (h : Phase layers l key count inverted down last s.view)
    (hn : inp.event.isNoEvent = true) (hw : Within last inp.event) :
    Phase layers l key count inverted down last (actionExec K inp s).view := by
  obtain ⟨consumed, r', w, hstep, hdone, -⟩ :=
    actionExec_step (K := K) inp s (isEmpty_of_view rfl h.waiting)
  have hu := h.submit inp
  have hwithin := hu.withinTappingTerm hw
  have hne := hu.key_ne inp.wf hn
  have hp : inp.event.pressed = false := (inp.wf hn).2
  suffices hsame : w = s.view.submit inp by
    rw [hdone (by rw [hsame]; exact hu.waiting) (Or.inr hn), hsame]
    exact hu
  cases hstep with
  | firstTap _ hs =>
    simp only [settledBy, isTappingKey, Bool.and_eq_true, beq_iff_eq] at hs
    exact absurd hs.1.1.2.symm hne
  | early _ _ hr _ _ _ => simp [KeyEvent.isReleased, record, hn] at hr
  | wait _ _ _ _ => exact if_neg (by simp [record, hp])
  | timeout _ hout => exact absurd (hwithin.symm.trans hout) (by simp)
  | tapRelease _ hk _ => exact absurd hk hne
  | start _ _ hpr _ _ _ => simp [KeyEvent.isPressed, record, hn] at hpr
  | sequential _ _ hpr _ _ _ => simp [record, hp] at hpr
  | again _ _ hpr _ _ => simp [record, hp] at hpr
  | pass _ he _ _ _ => simp [record, hn] at he
  | releasedTimeout _ hout => exact absurd (hwithin.symm.trans hout) (by simp)
  | tick _ _ _ => rfl

variable (hK : ∀ layer, K layer key = actionLayerTapToggle l)

include hK

/-- The release of a counted tap is executed with its count. -/
theorem TappingState.Phase.tapRelease {v w : View} {r r' : KeyRecord} {consumed : Bool}
    (h : Phase layers l key count inverted true last v) (hc : 0 < count)
    (hkey : r.event.key = key) (hr : r.event.isReleased = true) (hw : Within last r.event)
    (hstep : TapStep K v r consumed r' w) : consumed = true ∧
      Phase layers l key count (if count ≤ tappingToggle then !inverted else inverted) false r.event
        w := by
  obtain ⟨hreal, hpressed⟩ := r.event.isReleased_iff.mp hr
  have hundecided : v.undecided = false := by
    rw [h.undecided]
    simp
    omega
  have hsettled : v.settled = true := by
    rw [h.settled]
    simp
    omega
  have hreleased : v.isTappingReleased = false := h.isTappingReleased
  have hsame := h.key_eq hkey
  cases hstep with
  | firstTap hu _ => exact absurd (hundecided.symm.trans hu) (by simp)
  | early hu _ _ _ _ _ => exact absurd (hundecided.symm.trans hu) (by simp)
  | wait hu _ _ _ => exact absurd (hundecided.symm.trans hu) (by simp)
  | timeout hu _ => exact absurd (hundecided.symm.trans hu) (by simp)
  | start _ _ hp _ _ _ =>
    exact absurd (hpressed.symm.trans (r.event.isPressed_iff.mp hp).2) (by simp)
  | sequential hr _ _ _ _ _ => exact absurd (hreleased.symm.trans hr) (by simp)
  | again hr _ _ _ _ => exact absurd (hreleased.symm.trans hr) (by simp)
  | pass _ _ _ hset _ => exact absurd (hpressed.symm.trans (hset hsettled hsame)) (by simp)
  | releasedTimeout hr _ => exact absurd (hreleased.symm.trans hr) (by simp)
  | tick _ he _ => exact absurd (hreal.symm.trans he) (by simp)
  | tapRelease _ _ _ =>
    refine ⟨rfl, h.waiting, ?_, hkey, hreal, hpressed, ?_, ?_⟩
    · rw [h.withinTappingTerm hw]
      rfl
    · rw [h.withinTappingTerm hw]
      exact h.tap
    · have hexec := processAction_tapToggle hK (r.withTap v.tappingKey.tap) v.act hkey hreal
      simp only [KeyRecord.withTap_event, hpressed, KeyRecord.withTap_tap, h.tap,
        Bool.false_eq_true, if_false, h.layers, invertedIf_xor] at hexec
      rw [handThen_act, h.tap, hexec]
      split <;> rfl

variable (hkey : inp.event.key = key)

include hkey

/-- The first press waits to be decided. -/
theorem TappingState.Idle.press (h : Idle s) (hp : inp.event.isPressed = true) :
    Phase s.act.layerState l key 0 false true inp.event (actionExec K inp s).view := by
  obtain ⟨hreal, hpressed⟩ := inp.event.isPressed_iff.mp hp
  obtain ⟨consumed, r', w, hstep, hdone, -⟩ := actionExec_step (K := K) inp s h.2
  have hidle : (s.view.submit inp).isTapping = false := h.1
  have hempty : (s.view.submit inp).waitingBuffer = [] := (RingQueue.isEmpty_iff _).mp h.2
  have hup : (s.view.submit inp).isTappingPressed = false := by simp [isTappingPressed, hidle]
  have hreleased : (s.view.submit inp).isTappingReleased = false := by
    simp [isTappingReleased, hidle]
  have hundecided : (s.view.submit inp).undecided = false := by simp [undecided, hup]
  have hsettled : (s.view.submit inp).settled = false := by simp [settled, hup]
  have htap := isTap_tapToggle hK (s.view.submit inp).act hkey hreal
  cases hstep with
  | firstTap hu _ => exact absurd (hundecided.symm.trans hu) (by simp)
  | early hu _ _ _ _ _ => exact absurd (hundecided.symm.trans hu) (by simp)
  | wait hu _ _ _ => exact absurd (hundecided.symm.trans hu) (by simp)
  | timeout hu _ => exact absurd (hundecided.symm.trans hu) (by simp)
  | tapRelease hd _ _ => exact absurd (hsettled.symm.trans hd) (by simp)
  | sequential hr _ _ _ _ _ => exact absurd (hreleased.symm.trans hr) (by simp)
  | again hr _ _ _ _ => exact absurd (hreleased.symm.trans hr) (by simp)
  | pass _ _ _ _ ht => exact absurd (htap.symm.trans (ht hpressed)) (by simp)
  | releasedTimeout hr _ => exact absurd (hreleased.symm.trans hr) (by simp)
  | tick _ he _ => exact absurd (hreal.symm.trans he) (by simp)
  | start _ _ _ _ _ hscan =>
    have hstarted : (s.view.submit inp).started K (s.view.record inp) =
        { (s.view.submit inp).lookUp K inp.event with tappingKey := s.view.record inp } := by
      rw [started, if_neg (by simp [hsettled])]
      rfl
    rw [hstarted] at hscan
    cases hscan with
    | hit pre x post _ hq _ _ => exact absurd (hempty.symm.trans hq) (by simp)
    | miss _ =>
      rw [hdone hempty (Or.inl rfl)]
      refine ⟨hempty, rfl, hkey, hreal, hpressed, rfl, ?_⟩
      show (ActionState.track K _ inp.event).layerState = s.act.layerState
      unfold ActionState.track
      split <;> rfl

/-- The release of the first tap: the press is executed, and then the
release, which waits. -/
theorem TappingState.Phase.firstRelease (h : Phase layers l key 0 inverted true last s.view)
    (hr : inp.event.isReleased = true) (hw : Within last inp.event) :
    Phase layers l key 1 inverted false inp.event (actionExec K inp s).view := by
  obtain ⟨hreal, hpressed⟩ := inp.event.isReleased_iff.mp hr
  obtain ⟨consumed, r', w, hstep, -, hwait⟩ :=
    actionExec_step (K := K) inp s (isEmpty_of_view rfl h.waiting)
  have hu := h.submit inp
  have hwithin := hu.withinTappingTerm hw
  have hundecided : (s.view.submit inp).undecided = true := by simp [hu.undecided]
  have hsettled : (s.view.submit inp).settled = false := by simp [hu.settled]
  have hreleased : (s.view.submit inp).isTappingReleased = false := by simp [hu.isTappingReleased]
  have hsame := hu.key_eq hkey
  have hsettledBy : (s.view.submit inp).settledBy (s.view.record inp) = true := by
    simp only [settledBy, isTappingKey, hu.isTapping, Bool.and_eq_true, beq_iff_eq,
      Bool.not_eq_true']
    exact ⟨⟨⟨trivial, hsame.symm⟩, hpressed⟩, hwithin⟩
  cases hstep with
  | early _ _ _ hk _ _ => exact absurd hsame hk
  | wait _ _ hs _ => exact absurd (hsettledBy.symm.trans hs) (by simp)
  | timeout _ hout => exact absurd (hwithin.symm.trans hout) (by simp)
  | tapRelease hd _ _ => exact absurd (hsettled.symm.trans hd) (by simp)
  | start _ hu' _ _ _ _ => exact absurd (hundecided.symm.trans hu') (by simp)
  | sequential hr _ _ _ _ _ => exact absurd (hreleased.symm.trans hr) (by simp)
  | again hr _ _ _ _ => exact absurd (hreleased.symm.trans hr) (by simp)
  | pass hu' _ _ _ _ => exact absurd (hundecided.symm.trans hu') (by simp)
  | releasedTimeout hr _ => exact absurd (hreleased.symm.trans hr) (by simp)
  | tick hu' _ _ => exact absurd (hundecided.symm.trans hu') (by simp)
  | firstTap _ _ =>
    -- the press, executed with a count of 1
    have hpress : Phase layers l key 1 (!inverted) true last
        ((s.view.submit inp).tapped K) := by
      have hfst : ((s.view.submit inp).hand K ((s.view.submit inp).tappingKey.withCount 1)).1 =
          (s.view.submit inp).tappingKey.withCount 1 :=
        hand_fst_of_uninterrupted _ _ (by simp [hu.tap])
      have hexec := processAction_tapToggle hK ((s.view.submit inp).tappingKey.withCount 1)
        (s.view.submit inp).act (by simp [hu.event, h.key]) (by simp [hu.event, h.real])
      simp only [KeyRecord.withCount_event, KeyRecord.withCount_count, hu.event, h.pressed,
        hu.layers, invertedIf_xor, if_true] at hexec
      rw [if_pos (by decide)] at hexec
      refine ⟨hu.waiting, ?_, h.key, h.real, h.pressed, ?_, hexec⟩
      · rw [tapped, handThen_tappingKey, hfst]
        exact hu.event
      · rw [tapped, handThen_tappingKey, hfst]
        simp [KeyRecord.withCount, hu.tap]
    obtain ⟨t, ht, hrun⟩ := hwait hu.waiting rfl hreal
    obtain ⟨consumed', r'', w', hstep', hdone⟩ := replay_single (K := K) t ht hreal
    have hnow : Phase layers l key 1 (!inverted) true last
        (((s.view.submit inp).tapped K).withBuffer []) :=
      ⟨rfl, hpress.event, hpress.key, hpress.real, hpress.pressed, hpress.tap, hpress.layers⟩
    obtain ⟨hconsumed, hphase⟩ :=
      hnow.tapRelease hK (by decide) hkey hr hw hstep'
    rw [hrun, hdone hconsumed hphase.waiting]
    rw [if_pos (by decide), Bool.not_not] at hphase
    exact hphase

/-- A later release inverts the layer while the count is within
`TAPPING_TOGGLE`. -/
theorem TappingState.Phase.release (h : Phase layers l key count inverted true last s.view)
    (hc : 0 < count) (hr : inp.event.isReleased = true) (hw : Within last inp.event) :
    Phase layers l key count (if count ≤ tappingToggle then !inverted else inverted) false inp.event
      (actionExec K inp s).view := by
  obtain ⟨consumed, r', w, hstep, hdone, -⟩ :=
    actionExec_step (K := K) inp s (isEmpty_of_view rfl h.waiting)
  obtain ⟨hconsumed, hphase⟩ := (h.submit inp).tapRelease hK hc hkey hr hw hstep
  rw [hdone hphase.waiting (Or.inl hconsumed)]
  exact hphase

/-- The press of a sequential tap has one count more, up to 15, and inverts the
layer below `TAPPING_TOGGLE`. -/
theorem TappingState.Phase.press {next : Nat}
    (h : Phase layers l key count inverted false last s.view) (hc : 0 < count)
    (hnext : (if count < 15 then count + 1 else count) = next)
    (hp : inp.event.isPressed = true) (hw : Within last inp.event) :
    Phase layers l key next (if next < tappingToggle then !inverted else inverted) true inp.event
      (actionExec K inp s).view := by
  obtain ⟨hreal, hpressed⟩ := inp.event.isPressed_iff.mp hp
  obtain ⟨consumed, r', w, hstep, hdone, -⟩ :=
    actionExec_step (K := K) inp s (isEmpty_of_view rfl h.waiting)
  have hu := h.submit inp
  have hwithin := hu.withinTappingTerm hw
  have hundecided : (s.view.submit inp).undecided = false := by simp [hu.undecided]
  have hsettled : (s.view.submit inp).settled = false := by simp [hu.settled]
  have hreleased : (s.view.submit inp).isTappingReleased = true := by simp [hu.isTappingReleased]
  have hsame := hu.key_eq hkey
  cases hstep with
  | firstTap hu _ => exact absurd (hundecided.symm.trans hu) (by simp)
  | early hu _ _ _ _ _ => exact absurd (hundecided.symm.trans hu) (by simp)
  | wait hu _ _ _ => exact absurd (hundecided.symm.trans hu) (by simp)
  | timeout hu _ => exact absurd (hundecided.symm.trans hu) (by simp)
  | tapRelease hd _ _ => exact absurd (hsettled.symm.trans hd) (by simp)
  | start _ _ _ _ hrel _ => exact absurd hsame (hrel hreleased).2
  | pass _ _ hrel _ _ => exact absurd hsame ((hrel hreleased).2 hpressed)
  | releasedTimeout _ hout => exact absurd (hwithin.symm.trans hout) (by simp)
  | tick _ he _ => exact absurd (hreal.symm.trans he) (by simp)
  | again _ _ _ _ hi =>
    rw [hu.tap] at hi
    simp at hi
    omega
  | sequential _ _ _ _ _ _ =>
    have htap : (s.view.submit inp).nextTap = { count := next } := by
      simp [nextTap, hu.tap, hnext]
    have hexec := processAction_tapToggle hK ((s.view.record inp).withTap { count := next })
      (s.view.submit inp).act hkey hreal
    have hpress : (s.view.record inp).event.pressed = true := hpressed
    simp only [KeyRecord.withTap_event, hpress, KeyRecord.withTap_tap, if_true, hu.layers,
      invertedIf_xor] at hexec
    rw [hdone hu.waiting (Or.inl rfl)]
    refine ⟨hu.waiting, rfl, hkey, hreal, hpressed, htap, ?_⟩
    rw [handThen_act, htap, hexec]
    split <;> rfl

end Events

/-! ## Taps -/

/-- One press and release of a key, with the TICKs after each. -/
structure QuickTap (key : KeyPos) where
  press : Input
  held : List Input := []
  release : Input
  rest : List Input := []
  press_event : press.event.isPressed = true ∧ press.event.key = key
  release_event : release.event.isReleased = true ∧ release.event.key = key
  /-- The release is within the term of the press. -/
  typed : Within press.event release.event
  held_ticks : ∀ t ∈ held, t.event.isNoEvent = true ∧ Within press.event t.event
  rest_ticks : ∀ t ∈ rest, t.event.isNoEvent = true ∧ Within release.event t.event

namespace QuickTap

variable {key : KeyPos}

def inputs (p : QuickTap key) : List Input := p.press :: p.held ++ p.release :: p.rest

/-- Each next press is within the term of the release before it. -/
def Consecutive (taps : List (QuickTap key)) : Prop :=
  taps.IsChain fun p q => Within p.release.event q.press.event

end QuickTap

section Runs

variable {K : Keymap} {key : KeyPos} {l : Fin 32} {layers : BitVec 32} {count : Nat}
variable {inverted down : Bool} {last : KeyEvent}

/-- `TICK`s within the term change nothing, by induction over them. -/
theorem run_ticks (ticks : List Input)
    (hticks : ∀ t ∈ ticks, t.event.isNoEvent = true ∧ Within last t.event) :
    ∀ s : Tapping, Phase layers l key count inverted down last s.view →
      Phase layers l key count inverted down last (run K ticks s).view := by
  induction ticks with
  | nil => exact fun _ h => h
  | cons t ticks ih =>
    intro s h
    obtain ⟨hn, hw⟩ := hticks t List.mem_cons_self
    exact ih (fun t' ht' => hticks t' (List.mem_cons_of_mem _ ht')) _ (h.tick hn hw)

variable (hK : ∀ layer, K layer key = actionLayerTapToggle l)

include hK

/-- The first tap leaves the layer as it was, and the key up with the count 1. -/
theorem run_firstTap (p : QuickTap key) (s : Tapping) (h : Idle s) :
    Phase s.act.layerState l key 1 false false p.release.event (run K p.inputs s).view := by
  have hpress := h.press hK p.press_event.2 p.press_event.1
  have hheld := run_ticks (K := K) p.held p.held_ticks _ hpress
  have hrelease := hheld.firstRelease hK p.release_event.2 p.release_event.1 p.typed
  rw [QuickTap.inputs, List.cons_append, run_cons, run_append, run_cons]
  exact run_ticks p.rest p.rest_ticks _ hrelease

/-- The layer is inverted once by the tap with the threshold's count. -/
theorem run_nextTap (p : QuickTap key) {n : Nat} (hn : 0 < n) (s : Tapping)
    (h : Phase layers l key (min n 15) (decide (tappingToggle ≤ n)) false last s.view)
    (hw : Within last p.press.event) :
    Phase layers l key (min (n + 1) 15) (decide (tappingToggle ≤ n + 1)) false p.release.event
      (run K p.inputs s).view := by
  have hnext : (if min n 15 < 15 then min n 15 + 1 else min n 15) = min (n + 1) 15 := by
    split <;> omega
  have hpress := h.press hK p.press_event.2 (by omega) hnext p.press_event.1 hw
  have hheld := run_ticks (K := K) p.held p.held_ticks _ hpress
  have hrelease :=
    hheld.release hK p.release_event.2 (by omega) p.release_event.1 p.typed
  have hrest := run_ticks (K := K) p.rest p.rest_ticks _ hrelease
  have hinverted : (if min (n + 1) 15 ≤ tappingToggle then
        !(if min (n + 1) 15 < tappingToggle then !decide (tappingToggle ≤ n)
          else decide (tappingToggle ≤ n))
      else if min (n + 1) 15 < tappingToggle then !decide (tappingToggle ≤ n)
        else decide (tappingToggle ≤ n)) = decide (tappingToggle ≤ n + 1) := by
    simp only [tappingToggle]
    rcases Nat.lt_trichotomy (n + 1) 5 with hlt | heq | hgt
    · simp [show min (n + 1) 15 ≤ 5 by omega, show min (n + 1) 15 < 5 by omega,
        show ¬ 5 ≤ n by omega, show ¬ 5 ≤ n + 1 by omega]
    · simp [heq, show ¬ 5 ≤ n by omega]
    · simp [show ¬ min (n + 1) 15 ≤ 5 by omega, show ¬ min (n + 1) 15 < 5 by omega,
        show 5 ≤ n by omega, show 5 ≤ n + 1 by omega]
  rw [hinverted] at hrest
  rw [QuickTap.inputs, List.cons_append, run_cons, run_append, run_cons]
  exact hrest

/-- **After `n` taps** the count is `n` up to 15, and the layer is inverted from
`TAPPING_TOGGLE` on, by induction over the taps. -/
theorem run_taps (taps : List (QuickTap key)) : ∀ {n : Nat}, 0 < n → ∀ (s : Tapping)
    (p : QuickTap key),
    Phase layers l key (min n 15) (decide (tappingToggle ≤ n)) false p.release.event s.view →
    QuickTap.Consecutive (p :: taps) → ∃ last,
      Phase layers l key (min (n + taps.length) 15) (decide (tappingToggle ≤ n + taps.length)) false
        last (run K (taps.flatMap QuickTap.inputs) s).view := by
  induction taps with
  | nil => exact fun _ s p h _ => ⟨_, h⟩
  | cons q taps ih =>
    intro n hn s p h hchain
    obtain ⟨hw, hrest⟩ := List.isChain_cons_cons.mp hchain
    have hstep := run_nextTap hK q hn s h hw
    obtain ⟨last, hlast⟩ := ih (Nat.succ_pos n) _ q hstep hrest
    refine ⟨last, ?_⟩
    rw [List.flatMap_cons, run_append, List.length_cons]
    rwa [show n + (taps.length + 1) = n + 1 + taps.length by omega]

end Runs

/-- **Tap toggle.** From the idle state, `n` taps of a tap toggle key of
layer `l` that follow each other within the term invert bit `l` of the
layer state if `n` reaches `TAPPING_TOGGLE`, and change no other bit. -/
theorem run_tapToggle (K : Keymap) (key : KeyPos) (l : Fin 32)
    (hK : ∀ layer, K layer key = actionLayerTapToggle l) (s : Tapping) (hidle : Idle s)
    (taps : List (QuickTap key)) (hchain : QuickTap.Consecutive taps) (i : Nat) :
    (run K (taps.flatMap QuickTap.inputs) s).act.layerState.getLsbD i =
      if i = l ∧ tappingToggle ≤ taps.length then !s.act.layerState.getLsbD i
      else s.act.layerState.getLsbD i := by
  cases taps with
  | nil => simp [run, tappingToggle]
  | cons p taps =>
    have hfirst := run_firstTap hK p s hidle
    obtain ⟨last, hlast⟩ := run_taps (n := 1) hK taps (by decide) _ p hfirst hchain
    have hlayers : (run K ((p :: taps).flatMap QuickTap.inputs) s).act.layerState =
        invertedIf (decide (tappingToggle ≤ 1 + taps.length)) l s.act.layerState := by
      rw [List.flatMap_cons, run_append]
      exact hlast.layers
    rw [hlayers, List.length_cons, Nat.add_comm 1]
    by_cases hn : tappingToggle ≤ taps.length + 1
    · rw [decide_eq_true hn, invertedIf, if_pos rfl, invertBit_word]
      simp [LayerOp.apply, hn]
    · rw [decide_eq_false hn]
      simp [invertedIf, hn]

/-- Five quick taps of a key for layer 3 leave the layer on. -/
theorem run_tapToggle_five :
    let K : Keymap := fun _ _ => actionLayerTapToggle 3
    let tap : QuickTap ⟨0, 0⟩ :=
      { press := .switch 0 0 true 1, release := .switch 0 0 false 1,
        press_event := by decide, release_event := by decide, typed := by decide,
        held_ticks := by simp, rest_ticks := by simp }
    (run K ((List.replicate 5 tap).flatMap QuickTap.inputs) Tapping.init).act.layerState.getLsbD 3 =
      true :=
  run_tapToggle _ ⟨0, 0⟩ 3 (fun _ => rfl) Tapping.init ⟨rfl, rfl⟩ _
    (by simp [QuickTap.Consecutive, List.replicate]; decide) 3

end Ch583Kbd.Tmk
