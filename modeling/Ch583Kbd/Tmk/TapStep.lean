/-
Ch583Kbd.Tmk.TapStep — what one call of `process_tapping` can do.

`TapStep K v r consumed r' w` has one constructor for each thing the
code does with a record `r` in a state `v`: `r'` is what it leaves behind
`keyp`, `w` the state. It speaks of the machine with a list for a buffer
(`View`). `processTapping_step` says that the code's machine, read through
`view`, takes such a step; every invariant of a run is proved by cases on
it.

The states of the machine are four: `undecided` (a tap key is down and it
is open whether it is a tap), `settled` (down, count above 0), released
and idle.
-/
import Ch583Kbd.Tmk.ActionTapping

namespace Ch583Kbd.Tmk

open Ch583Kbd.Lib

/-! ## Looking up twice -/

namespace ActionState

@[simp] theorem layerState_track (K : Keymap) (s : ActionState) (e : KeyEvent) :
    (s.track K e).layerState = s.layerState := by
  unfold track; split <;> rfl

@[simp] theorem defaultLayerState_track (K : Keymap) (s : ActionState) (e : KeyEvent) :
    (s.track K e).defaultLayerState = s.defaultLayerState := by
  unfold track; split <;> rfl

@[simp] theorem currentLayerForKey_track (K : Keymap) (s : ActionState) (e : KeyEvent)
    (k : KeyPos) : (s.track K e).currentLayerForKey K k = s.currentLayerForKey K k := by
  simp [currentLayerForKey]

theorem track_of_not_pressed (K : Keymap) (s : ActionState) (e : KeyEvent)
    (h : e.isPressed = false) : s.track K e = s := by
  simp [track, h]

/-- A second lookup of the same event finds the same action. -/
@[simp] theorem actionOf_track (K : Keymap) (s : ActionState) (e : KeyEvent) :
    (s.track K e).actionOf K e = s.actionOf K e := by
  by_cases hp : e.isPressed = true
  · have hpressed := (e.isPressed_iff.mp hp).2
    simp [actionOf, layerFor, hpressed]
  · rw [track_of_not_pressed K s e (by simpa using hp)]

/-- A second lookup of the same event records the same layer. -/
@[simp] theorem track_track (K : Keymap) (s : ActionState) (e : KeyEvent) :
    (s.track K e).track K e = s.track K e := by
  by_cases hp : e.isPressed = true
  · simp only [track, hp, if_true, setLayerPressed, currentLayerForKey]
    congr 1
    funext k
    split <;> rfl
  · rw [track_of_not_pressed K s e (by simpa using hp),
      track_of_not_pressed K s e (by simpa using hp)]

end ActionState

/-- `is_tap_key` before `process_action` changes nothing. -/
theorem processAction_track (K : Keymap) (r : KeyRecord) (s : ActionState) :
    processAction K r (s.track K r.event) = processAction K r s := by
  simp only [processAction, ActionState.actionOf_track, ActionState.track_track]
  split
  · next h => rw [ActionState.track_of_not_pressed]; simp [KeyEvent.isPressed, h]
  · rfl

/-- `is_tap_key` looks the action up, and records the layer of a press on the
way. -/
theorem isTapKey_eq (K : Keymap) (e : KeyEvent) (s : ActionState) :
    isTapKey K e s = (!e.isNoEvent && (s.actionOf K e).isTap, s.track K e) := by
  unfold isTapKey
  split
  · next h => rw [ActionState.track_of_not_pressed] <;> simp [KeyEvent.isPressed, h]
  · next h => simp [ActionState.layerSwitchGetAction, h]

namespace TappingState

variable {Q : Type} {K : Keymap}

/-! ## What `process_action` leaves alone -/

@[simp] theorem hand_tappingKey (r : KeyRecord) (s : TappingState Q) :
    (s.hand K r).2.tappingKey = s.tappingKey := rfl
@[simp] theorem hand_waitingBuffer (r : KeyRecord) (s : TappingState Q) :
    (s.hand K r).2.waitingBuffer = s.waitingBuffer := rfl
@[simp] theorem hand_submitted (r : KeyRecord) (s : TappingState Q) :
    (s.hand K r).2.submitted = s.submitted := rfl
@[simp] theorem hand_act (r : KeyRecord) (s : TappingState Q) :
    (s.hand K r).2.act = (processAction K r s.act).2 := rfl
theorem hand_fst (r : KeyRecord) (s : TappingState Q) :
    (s.hand K r).1 = (processAction K r s.act).1 := rfl

/-- The entry of the log that handing over `r` makes. -/
def entry (K : Keymap) (r : KeyRecord) (s : TappingState Q) : Handed :=
  ⟨r, (processAction K r s.act).1, s.act.actionOf K r.event⟩

/-- Handing a real event over appends it to the log. -/
theorem hand_handed (r : KeyRecord) (s : TappingState Q) (h : r.event.isNoEvent = false) :
    (s.hand K r).2.handed = s.handed ++ [s.entry K r] := by
  simp [hand, entry, h]

/-- Handing a `TICK` over does nothing. -/
theorem hand_noEvent (r : KeyRecord) (s : TappingState Q) (h : r.event.isNoEvent = true) :
    s.hand K r = (r, s) := by
  simp [hand, processAction, h]

/-- The record after `process_action` is the record, or a press whose
tap was cancelled. -/
theorem hand_fst_eq (r : KeyRecord) (s : TappingState Q) :
    (s.hand K r).1 = r ∨
      r.event.pressed = true ∧ 0 < r.tap.count ∧ r.tap.interrupted = true ∧
        (s.act.actionOf K r.event).isModsTapKey = true ∧ (s.hand K r).1 = r.withCount 0 := by
  rw [hand_fst, processAction]
  split
  · exact .inl rfl
  · simp only [cancelTap]
    split
    · next h => exact .inr ⟨h.2.1, h.2.2.1, h.2.2.2, h.1, rfl⟩
    · exact .inl rfl

/-- A release comes back as it was handed over. -/
theorem hand_fst_of_released (r : KeyRecord) (s : TappingState Q) (h : r.event.pressed = false) :
    (s.hand K r).1 = r := by
  rcases hand_fst_eq (K := K) r s with he | ⟨hp, -⟩
  · exact he
  · rw [h] at hp; simp at hp

/-- A record without a count comes back as it was handed over. -/
theorem hand_fst_of_zero (r : KeyRecord) (s : TappingState Q) (h : r.tap.count = 0) :
    (s.hand K r).1 = r := by
  rcases hand_fst_eq (K := K) r s with he | ⟨-, hc, -⟩
  · exact he
  · omega

/-- A tap that was not interrupted is not cancelled. -/
theorem hand_fst_of_uninterrupted (r : KeyRecord) (s : TappingState Q)
    (h : r.tap.interrupted = false) : (s.hand K r).1 = r := by
  rcases hand_fst_eq (K := K) r s with he | ⟨-, -, hi, -⟩
  · exact he
  · rw [h] at hi; simp at hi

@[simp] theorem hand_fst_event (r : KeyRecord) (s : TappingState Q) :
    (s.hand K r).1.event = r.event := by
  rcases hand_fst_eq (K := K) r s with he | ⟨-, -, -, -, he⟩
  · rw [he]
  · rw [he]; rfl

@[simp] theorem hand_fst_origin (r : KeyRecord) (s : TappingState Q) :
    (s.hand K r).1.origin = r.origin := by
  rcases hand_fst_eq (K := K) r s with he | ⟨-, -, -, -, he⟩
  · rw [he]
  · rw [he]; rfl

@[simp] theorem hand_fst_tag (r : KeyRecord) (s : TappingState Q) :
    (s.hand K r).1.tag = r.tag := by
  simp [KeyRecord.tag]

@[simp] theorem hand_fst_interrupted (r : KeyRecord) (s : TappingState Q) :
    (s.hand K r).1.tap.interrupted = r.tap.interrupted := by
  rcases hand_fst_eq (K := K) r s with he | ⟨-, -, -, -, he⟩
  · rw [he]
  · rw [he]; rfl

/-! ## The four states -/

/-- A tap key is down and it is open whether it is a tap. -/
def undecided (s : TappingState Q) : Bool := s.isTappingPressed && s.tappingKey.tap.count == 0

/-- A tap key is down and counts as a tap. -/
def settled (s : TappingState Q) : Bool := s.isTappingPressed && s.tappingKey.tap.count != 0

/-- The record is the release that makes the tapping key a tap. -/
def settledBy (s : TappingState Q) (r : KeyRecord) : Bool :=
  s.isTappingKey r.event.key && !r.event.pressed && s.withinTappingTerm r.event

/-- `is_tap_key` looks the event up. -/
def lookUp (K : Keymap) (e : KeyEvent) (s : TappingState Q) : TappingState Q :=
  { s with act := s.act.track K e }

theorem isTapKey_fst (e : KeyEvent) (s : TappingState Q) :
    (s.isTapKey K e).1 = (!e.isNoEvent && (s.act.actionOf K e).isTap) := by
  simp [isTapKey, Tmk.isTapKey_eq]

theorem isTapKey_snd (e : KeyEvent) (s : TappingState Q) :
    (s.isTapKey K e).2 = s.lookUp K e := by
  simp [isTapKey, Tmk.isTapKey_eq, lookUp]

/-- Hand `r` over and make `t` the tapping key. -/
def handThen (K : Keymap) (r t : KeyRecord) (s : TappingState Q) : TappingState Q :=
  { (s.hand K r).2 with tappingKey := t }

@[simp] theorem handThen_tappingKey (r t : KeyRecord) (s : TappingState Q) :
    (s.handThen K r t).tappingKey = t := rfl
@[simp] theorem handThen_waitingBuffer (r t : KeyRecord) (s : TappingState Q) :
    (s.handThen K r t).waitingBuffer = s.waitingBuffer := rfl
@[simp] theorem handThen_submitted (r t : KeyRecord) (s : TappingState Q) :
    (s.handThen K r t).submitted = s.submitted := rfl
@[simp] theorem handThen_act (r t : KeyRecord) (s : TappingState Q) :
    (s.handThen K r t).act = (processAction K r s.act).2 := rfl

/-- The log after a record was handed over and another became the tapping key. -/
theorem handThen_handed (r t : KeyRecord) (s : TappingState Q)
    (h : r.event.isNoEvent = false) :
    (s.handThen K r t).handed = s.handed ++ [s.entry K r] := hand_handed r s h

/-- The tapping key is handed over with a count of 1. -/
def tapped (K : Keymap) (s : TappingState Q) : TappingState Q :=
  s.handThen K (s.tappingKey.withCount 1) (s.hand K (s.tappingKey.withCount 1)).1

@[simp] theorem tapped_tag (s : TappingState Q) :
    (s.tapped K).tappingKey.tag = s.tappingKey.tag :=
  hand_fst_tag (s.tappingKey.withCount 1) s

/-- "Start": the record becomes the tapping key; a last tap of more than
one is released first. -/
def started (K : Keymap) (r : KeyRecord) (s : TappingState Q) : TappingState Q :=
  let s1 := s.lookUp K r.event
  if s.settled ∧ s.tappingKey.tap.count > 1 then
    s1.handThen K (s1.lastTapRelease r.event.time) r
  else { s1 with tappingKey := r }

/-- "interrupted when other key is pressed". -/
def interruptedBy (e : KeyEvent) (s : TappingState Q) : TappingState Q :=
  { s with tappingKey :=
      if s.isTappingReleased ∧ e.pressed then s.tappingKey.interrupt else s.tappingKey }

/-- The count of a sequential tap. -/
def nextTap (s : TappingState Q) : Tap :=
  { s.tappingKey.tap with
    count := if s.tappingKey.tap.count < 15 then s.tappingKey.tap.count + 1
      else s.tappingKey.tap.count }

end TappingState

/-! ## The machine with a list -/

/-- The state with the buffer read as a list. -/
def TappingState.view (s : Tapping) : View := { s with waitingBuffer := s.waitingBuffer.toList }

namespace TappingState

/-- The same state with another buffer. -/
def withBuffer (q : List KeyRecord) (v : View) : View := { v with waitingBuffer := q }

/-- `waiting_buffer_typed` on the list. -/
def typed (e : KeyEvent) (v : View) : Bool :=
  v.waitingBuffer.any fun x => e.key == x.event.key && e.pressed != x.event.pressed

/-- `waiting_buffer_scan_tap` on the list. -/
inductive Scan (K : Keymap) (v : View) : View → Prop
  | miss (h : v.undecided = true → ∀ x ∈ v.waitingBuffer, v.settledBy x = false) : Scan K v v
  | hit (pre : List KeyRecord) (x : KeyRecord) (post : List KeyRecord)
      (hu : v.undecided = true) (hq : v.waitingBuffer = pre ++ x :: post)
      (hpre : ∀ y ∈ pre, v.settledBy y = false) (hx : v.settledBy x = true) :
      Scan K v ((v.withBuffer (pre ++ x.withCount 1 :: post)).tapped K)

end TappingState

open TappingState in
/-- What `process_tapping` does with `r`. -/
inductive TapStep (K : Keymap) (v : View) (r : KeyRecord) : Bool → KeyRecord → View → Prop
  | firstTap (hu : v.undecided = true) (hs : v.settledBy r = true) :
      TapStep K v r false (r.withTap (v.tapped K).tappingKey.tap) (v.tapped K)
  | early (hu : v.undecided = true) (hw : v.withinTappingTerm r.event = true)
      (hr : r.event.isReleased = true) (hk : r.event.key ≠ v.tappingKey.event.key)
      (ht : typed r.event v = false) (hn : v.retains K r = false) :
      TapStep K v r true r (v.handThen K r v.tappingKey)
  | wait (hu : v.undecided = true) (hw : v.withinTappingTerm r.event = true)
      (hs : v.settledBy r = false)
      (hr : r.event.isReleased = true → typed r.event v = true ∨ v.retains K r = true) :
      TapStep K v r false r
        (if r.event.pressed then { v with tappingKey := v.tappingKey.interrupt } else v)
  | timeout (hu : v.undecided = true) (hw : v.withinTappingTerm r.event = false) :
      TapStep K v r false r (v.handThen K v.tappingKey {})
  | tapRelease (hd : v.settled = true) (hk : r.event.key = v.tappingKey.event.key)
      (hp : r.event.pressed = false) :
      TapStep K v r true (r.withTap v.tappingKey.tap)
        (v.handThen K (r.withTap v.tappingKey.tap)
          (if v.withinTappingTerm r.event then r.withTap v.tappingKey.tap else {}))
  | start (w : View) (hu : v.undecided = false) (hp : r.event.isPressed = true)
      (ht : (v.act.actionOf K r.event).isTap = true)
      (hrel : v.isTappingReleased = true →
        v.withinTappingTerm r.event = true ∧ r.event.key ≠ v.tappingKey.event.key)
      (hscan : Scan K (v.started K r) w) :
      TapStep K v r true r w
  | sequential (hr : v.isTappingReleased = true) (hw : v.withinTappingTerm r.event = true)
      (hp : r.event.pressed = true) (hk : r.event.key = v.tappingKey.event.key)
      (hi : v.tappingKey.tap.interrupted = false) (hc : 0 < v.tappingKey.tap.count) :
      TapStep K v r true (r.withTap v.nextTap)
        (v.handThen K (r.withTap v.nextTap) (r.withTap v.nextTap))
  | again (hr : v.isTappingReleased = true) (hw : v.withinTappingTerm r.event = true)
      (hp : r.event.pressed = true) (hk : r.event.key = v.tappingKey.event.key)
      (hi : v.tappingKey.tap.interrupted = true ∨ v.tappingKey.tap.count = 0) :
      TapStep K v r true r { v with tappingKey := r }
  | pass (hu : v.undecided = false) (he : r.event.isNoEvent = false)
      (hrel : v.isTappingReleased = true → v.withinTappingTerm r.event = true ∧
        (r.event.pressed = true → r.event.key ≠ v.tappingKey.event.key))
      (hset : v.settled = true → r.event.key = v.tappingKey.event.key → r.event.pressed = true)
      (ht : r.event.pressed = true → (v.act.actionOf K r.event).isTap = false) :
      TapStep K v r true (v.hand K r).1
        (v.handThen K r (v.interruptedBy r.event).tappingKey)
  | releasedTimeout (hr : v.isTappingReleased = true)
      (hw : v.withinTappingTerm r.event = false) :
      TapStep K v r false r { v with tappingKey := {} }
  | tick (hu : v.undecided = false) (he : r.event.isNoEvent = true)
      (hrel : v.isTappingReleased = true → v.withinTappingTerm r.event = true) :
      TapStep K v r true r v

/-! ## The code takes a step -/

namespace TappingState

variable {K : Keymap}

/-- `waiting_buffer_typed` reads the buffer only. -/
theorem typed_view (e : KeyEvent) (s : Tapping) :
    typed e s.view = s.waitingBufferTyped e :=
  (RingQueue.any_indices s.waitingBuffer
    fun x => e.key == x.event.key && e.pressed != x.event.pressed).symm

/-- The scan of the ring is the scan of the list. -/
theorem scan_view (s : Tapping) : Scan K s.view (s.waitingBufferScanTap K).view := by
  unfold waitingBufferScanTap
  split
  · next hc =>
    refine .miss fun hu => ?_
    simp only [undecided, view, Bool.and_eq_true, beq_iff_eq] at hu
    omega
  · next hc =>
    split
    · next hp =>
      refine .miss fun hu => ?_
      simp [undecided, isTappingPressed, view] at hu hp
      simp [hp] at hu
    · next hp =>
      dsimp only
      split
      · next hf =>
        have hnone := (RingQueue.find_indices_none s.waitingBuffer s.settledBy).mp hf
        exact .miss fun _ => hnone
      · next i hf =>
        obtain ⟨pre, post, hq, hpre, hx, hset⟩ :=
          RingQueue.find_indices s.waitingBuffer s.settledBy i hf
        have hu : s.view.undecided = true := by
          have ht : s.isTapping = true := by
            simp only [settledBy, isTappingKey, Bool.and_eq_true] at hx
            exact hx.1.1.1
          simp only [undecided, isTappingPressed, view, Bool.and_eq_true, beq_iff_eq]
          simp only [Bool.not_eq_true, Bool.not_eq_false'] at hp
          exact ⟨⟨ht, hp⟩, by omega⟩
        have hstep := Scan.hit (K := K) (v := s.view) pre _ post hu hq hpre hx
        rw [← hset] at hstep
        exact hstep

theorem scan_view_of (s : Tapping) {v : View} (h : s.view = v) :
    Scan K v (s.waitingBufferScanTap K).view := h ▸ scan_view s

/-- Looking the action up before a record is handed over changes nothing. -/
theorem hand_lookUp {Q : Type} (r : KeyRecord) (s : TappingState Q) :
    (s.lookUp K r.event).hand K r = s.hand K r := by
  simp only [hand, lookUp, processAction_track, ActionState.actionOf_track]

/-- Looking the action up before a record is passed on changes nothing. -/
theorem pass_lookUp (r : KeyRecord) (s : Tapping) :
    (s.lookUp K r.event).pass K r = s.pass K r := by
  simp only [pass, hand_lookUp]

/-- A settled tapping key is neither undecided nor released. -/
theorem settled_phase {s : Tapping} (hd : s.settled = true) :
    s.view.undecided = false ∧ s.view.isTappingReleased = false ∧
      s.tappingKey.tap.count ≠ 0 := by
  simp only [settled, isTappingPressed, Bool.and_eq_true, bne_iff_ne, ne_eq] at hd
  refine ⟨?_, ?_, hd.2⟩
  · simp [undecided, view, hd.2]
  · simp [isTappingReleased, view, hd.1.2]

/-- A press of a tap key while the last tap key is still down. -/
theorem start_settled (r : KeyRecord) (s : Tapping) (hd : s.settled = true)
    (hp : r.event.isPressed = true) (ht : (s.act.actionOf K r.event).isTap = true) :
    TapStep K s.view r true r ((s.lookUp K r.event).startWhileTapped K r).view := by
  obtain ⟨hu, hrel, -⟩ := settled_phase hd
  refine .start _ hu hp ht (fun h => by rw [hrel] at h; simp at h) ?_
  unfold startWhileTapped started
  have hv : s.view.settled = true := hd
  by_cases hc : s.tappingKey.tap.count > 1
  · have hc' : s.view.settled = true ∧ s.view.tappingKey.tap.count > 1 := ⟨hv, hc⟩
    have hl : (s.lookUp K r.event).tappingKey.tap.count > 1 := hc
    simp only [if_pos hl, if_pos hc']
    exact scan_view_of _ rfl
  · have hc' : ¬(s.view.settled = true ∧ s.view.tappingKey.tap.count > 1) := fun h => hc h.2
    have hl : ¬(s.lookUp K r.event).tappingKey.tap.count > 1 := hc
    simp only [if_neg hl, if_neg hc']
    exact scan_view_of _ rfl

/-- A press of a tap key while no tap key is down. -/
theorem start_unsettled (r : KeyRecord) (s : Tapping) (hd : s.isTappingPressed = false)
    (hp : r.event.isPressed = true) (ht : (s.act.actionOf K r.event).isTap = true)
    (hrel : s.isTappingReleased = true →
      s.withinTappingTerm r.event = true ∧ r.event.key ≠ s.tappingKey.event.key) :
    TapStep K s.view r true r
      (waitingBufferScanTap K { s.lookUp K r.event with tappingKey := r }).view := by
  have hd' : s.view.isTappingPressed = false := hd
  have hv : s.view.settled = false := by simp [settled, hd']
  have hu : s.view.undecided = false := by simp [undecided, hd']
  refine .start _ hu hp ht hrel ?_
  simp only [started, hv, Bool.false_eq_true, false_and, if_false]
  exact scan_view_of _ rfl

/-- The two branches for a settled tapping key share this part. -/
theorem settled_step (r : KeyRecord) (s : Tapping) (hd : s.settled = true)
    (hreal : r.event.pressed = true → r.event.isPressed = true)
    (hk : ¬(s.isTappingKey r.event.key = true ∧ (!r.event.pressed) = true))
    (p : Bool × KeyRecord × Tapping)
    (hp : p = if ((s.isTapKey K r.event).1 = true ∧ r.event.pressed = true)
      then (true, r, (s.isTapKey K r.event).2.startWhileTapped K r)
      else (s.isTapKey K r.event).2.pass K r) :
    TapStep K s.view r p.1 p.2.1 p.2.2.view := by
  obtain ⟨hu, hrel, -⟩ := settled_phase hd
  rw [isTapKey_fst, isTapKey_snd, pass_lookUp] at hp
  by_cases ht : (!r.event.isNoEvent && (s.act.actionOf K r.event).isTap) = true ∧
      r.event.pressed = true
  · rw [if_pos ht] at hp
    subst hp
    simp only [Bool.and_eq_true] at ht
    exact start_settled r s hd (hreal ht.2) ht.1.2
  · rw [if_neg ht] at hp
    subst hp
    by_cases hn : r.event.isNoEvent = true
    · have hsame : s.pass K r = (true, r, s) := by simp only [pass, hand_noEvent r s hn]
      rw [hsame]
      exact .tick hu hn fun h => by rw [hrel] at h; simp at h
    · rw [Bool.not_eq_true] at hn
      have hpass := TapStep.pass (K := K) (v := s.view) (r := r) hu hn
        (fun h => by rw [hrel] at h; simp at h)
        (fun _ hkey => by
          by_contra hnp
          refine hk ⟨?_, by simpa using hnp⟩
          have hs : s.isTapping = true := by
            simp only [settled, isTappingPressed, Bool.and_eq_true] at hd
            exact hd.1.1
          simp only [isTappingKey, hs, Bool.true_and, beq_iff_eq]
          exact hkey.symm)
        (fun hpr => by
          by_contra hta
          rw [Bool.not_eq_false] at hta
          have hta' : (s.act.actionOf K r.event).isTap = true := hta
          exact ht ⟨by simp [hn, hta'], hpr⟩)
      have hi : s.view.interruptedBy r.event = s.view := by
        simp [interruptedBy, hrel]
      rw [hi] at hpass
      exact hpass

/-- An undecided tapping key and a record within the term that does not
settle it. -/
theorem undecided_step (r : KeyRecord) (s : Tapping) (hu : s.undecided = true)
    (hW : s.withinTappingTerm r.event = true)
    (hK : ¬(s.isTappingKey r.event.key = true ∧ (!r.event.pressed) = true))
    (p : Bool × KeyRecord × Tapping)
    (hp : p = if r.event.isReleased = true ∧ (!s.waitingBufferTyped r.event) = true
      then if s.retains K r = true then (false, r, s) else s.pass K r
      else (false, r,
        if r.event.pressed then { s with tappingKey := s.tappingKey.interrupt } else s)) :
    TapStep K s.view r p.1 p.2.1 p.2.2.view := by
  have ht : s.isTapping = true := by
    simp only [undecided, isTappingPressed, Bool.and_eq_true] at hu
    exact hu.1.1
  have hs : s.view.settledBy r = false := by
    simp only [Bool.not_eq_true', not_and, Bool.not_eq_false] at hK
    simp only [settledBy, Bool.and_eq_false_iff, Bool.not_eq_false']
    by_cases hk : s.isTappingKey r.event.key = true
    · exact .inl (.inr (hK hk))
    · exact .inl (.inl ((Bool.not_eq_true _).mp hk))
  by_cases hr : r.event.isReleased = true ∧ (!s.waitingBufferTyped r.event) = true
  · have hrel := (r.event.isReleased_iff.mp hr.1)
    have htyped : typed r.event s.view = false := by
      rw [typed_view]
      simpa using hr.2
    have hpr : (if r.event.pressed = true then
        ({ s with tappingKey := s.tappingKey.interrupt } : Tapping) else s) = s := by
      simp [hrel.2]
    by_cases hn : s.retains K r = true
    · rw [if_pos hr, if_pos hn, ← hpr] at hp
      have hwait := TapStep.wait (K := K) (v := s.view) (r := r) hu hW hs fun _ => .inr hn
      rw [hp]
      simp only [hrel.2, Bool.false_eq_true, if_false] at hwait ⊢
      exact hwait
    · rw [if_pos hr, if_neg hn] at hp
      rw [hp]
      have hkey : r.event.key ≠ s.tappingKey.event.key := by
        intro he
        exact hK ⟨by simp [isTappingKey, ht, he], by simp [hrel.2]⟩
      have hearly := TapStep.early (K := K) (v := s.view) (r := r) hu hW hr.1 hkey htyped
        ((Bool.not_eq_true _).mp hn)
      have hfst : (s.hand K r).1 = r := hand_fst_of_released r s hrel.2
      simp only [pass, hfst]
      exact hearly
  · rw [if_neg hr] at hp
    rw [hp]
    have hwait := TapStep.wait (K := K) (v := s.view) (r := r) hu hW hs fun h => by
      rw [typed_view]
      refine .inl ?_
      by_contra hnt
      exact hr ⟨h, by simpa using hnt⟩
    cases hpr : r.event.pressed <;> simp only [hpr] at hwait ⊢ <;> exact hwait

/-- "Start" or "process" in a state without a tapping key that is down. -/
theorem unsettled_step (r : KeyRecord) (s : Tapping) (hd : s.isTappingPressed = false)
    (hp : r.event.isPressed = true)
    (hrel : s.isTappingReleased = true →
      s.withinTappingTerm r.event = true ∧ r.event.key ≠ s.tappingKey.event.key)
    (p : Bool × KeyRecord × Tapping)
    (hres : p = if (s.isTapKey K r.event).1 = true
      then (true, r,
        waitingBufferScanTap K { (s.isTapKey K r.event).2 with tappingKey := r })
      else ((s.isTapKey K r.event).2.interruptedBy r.event).pass K r) :
    TapStep K s.view r p.1 p.2.1 p.2.2.view := by
  obtain ⟨hn, hpr⟩ := r.event.isPressed_iff.mp hp
  have hd' : s.view.isTappingPressed = false := hd
  have hu : s.view.undecided = false := by simp [undecided, hd']
  have hset : s.view.settled = false := by simp [settled, hd']
  rw [isTapKey_fst, isTapKey_snd, hn, Bool.not_false, Bool.true_and] at hres
  by_cases ht : (s.act.actionOf K r.event).isTap = true
  · rw [if_pos ht] at hres
    rw [hres]
    exact start_unsettled r s hd hp ht hrel
  · rw [if_neg ht] at hres
    have hpass := TapStep.pass (K := K) (v := s.view) (r := r) hu hn
      (fun h => ⟨(hrel h).1, fun _ => (hrel h).2⟩)
      (fun h => by rw [hset] at h; simp at h) (fun _ => (Bool.not_eq_true _).mp ht)
    have hswap : (s.lookUp K r.event).interruptedBy r.event =
        (s.interruptedBy r.event).lookUp K r.event := rfl
    rw [hres, hswap, pass_lookUp]
    exact hpass

/-- The release of a settled tapping key takes over its tap. -/
theorem tapRelease_step (r : KeyRecord) (s : Tapping) (hd : s.settled = true)
    (hK : s.isTappingKey r.event.key = true ∧ (!r.event.pressed) = true)
    (p : Bool × KeyRecord × Tapping)
    (hp : p = if s.withinTappingTerm r.event = true
      then (true, (s.hand K (r.withTap s.tappingKey.tap)).1,
        { (s.hand K (r.withTap s.tappingKey.tap)).2 with
          tappingKey := (s.hand K (r.withTap s.tappingKey.tap)).1 })
      else (true, (s.hand K (r.withTap s.tappingKey.tap)).1,
        { (s.hand K (r.withTap s.tappingKey.tap)).2 with tappingKey := {} })) :
    TapStep K s.view r p.1 p.2.1 p.2.2.view := by
  have hk : r.event.key = s.view.tappingKey.event.key := by
    have := hK.1
    simp only [isTappingKey, Bool.and_eq_true, beq_iff_eq] at this
    exact this.2.symm
  have hpr : r.event.pressed = false := by simpa using hK.2
  have hstep := TapStep.tapRelease (K := K) (v := s.view) (r := r) hd hk hpr
  have hfst : (s.hand K (r.withTap s.tappingKey.tap)).1 = r.withTap s.tappingKey.tap :=
    hand_fst_of_released _ s hpr
  rw [hfst] at hp
  by_cases hW : s.withinTappingTerm r.event = true
  · have hW' : s.view.withinTappingTerm r.event = true := hW
    rw [if_pos hW] at hp
    rw [if_pos hW'] at hstep
    subst hp
    exact hstep
  · have hW' : ¬s.view.withinTappingTerm r.event = true := hW
    rw [if_neg hW] at hp
    rw [if_neg hW'] at hstep
    subst hp
    exact hstep

/-- Without a tapping key that is down, everything but a press is processed
in place. -/
theorem pass_step (r : KeyRecord) (s : Tapping) (hd : s.isTappingPressed = false)
    (hpr : r.event.pressed = false)
    (hw : s.isTappingReleased = true → s.withinTappingTerm r.event = true)
    (p : Bool × KeyRecord × Tapping) (hp : p = s.pass K r) :
    TapStep K s.view r p.1 p.2.1 p.2.2.view := by
  have hd' : s.view.isTappingPressed = false := hd
  have hu : s.view.undecided = false := by simp [undecided, hd']
  have hset : s.view.settled = false := by simp [settled, hd']
  subst hp
  by_cases hn : r.event.isNoEvent = true
  · simp only [pass, hand_noEvent r s hn]
    exact .tick hu hn hw
  · have hpass := TapStep.pass (K := K) (v := s.view) (r := r) hu ((Bool.not_eq_true _).mp hn)
      (fun h => ⟨hw h, fun h' => by rw [hpr] at h'; simp at h'⟩)
      (fun h => by rw [hset] at h; simp at h) (fun h' => by rw [hpr] at h'; simp at h')
    simp only [interruptedBy, hpr, Bool.false_eq_true, and_false, if_false] at hpass
    exact hpass

/-- The tapping key is pressed once more within the term. -/
theorem pressedAgain_step (r : KeyRecord) (s : Tapping) (hR : s.isTappingReleased = true)
    (hW : s.withinTappingTerm r.event = true) (hpr : r.event.pressed = true)
    (hK : s.isTappingKey r.event.key = true) (p : Bool × KeyRecord × Tapping)
    (hp : p = if (!s.tappingKey.tap.interrupted) = true ∧ s.tappingKey.tap.count > 0
      then (true, (s.hand K (r.withTap s.nextTap)).1,
        { (s.hand K (r.withTap s.nextTap)).2 with
          tappingKey := (s.hand K (r.withTap s.nextTap)).1 })
      else (true, r, { s with tappingKey := r })) :
    TapStep K s.view r p.1 p.2.1 p.2.2.view := by
  have hk : r.event.key = s.view.tappingKey.event.key := by
    simp only [isTappingKey, Bool.and_eq_true, beq_iff_eq] at hK
    exact hK.2.symm
  by_cases hS : (!s.tappingKey.tap.interrupted) = true ∧ s.tappingKey.tap.count > 0
  · have hi : s.tappingKey.tap.interrupted = false := by simpa using hS.1
    have hfst : (s.hand K (r.withTap s.nextTap)).1 = r.withTap s.nextTap :=
      hand_fst_of_uninterrupted _ s hi
    rw [if_pos hS, hfst] at hp
    subst hp
    exact .sequential hR hW hpr hk hi hS.2
  · rw [if_neg hS] at hp
    subst hp
    refine .again hR hW hpr hk ?_
    by_cases hi : s.tappingKey.tap.interrupted = true
    · exact .inl hi
    · have hi' : (!s.tappingKey.tap.interrupted) = true := by simpa using hi
      exact .inr (Nat.eq_zero_of_not_pos fun hc => hS ⟨hi', hc⟩)

/-- **Every call of `process_tapping` is one of the steps of `TapStep`.** -/
theorem processTapping_step (r : KeyRecord) (s : Tapping)
    (hwf : r.event.WellFormed) :
    TapStep K s.view r (processTapping K r s).1 (processTapping K r s).2.1
      (processTapping K r s).2.2.view := by
  have hreal : r.event.pressed = true → r.event.isPressed = true :=
    fun hp => r.event.isPressed_iff.mpr ⟨hwf.real_of_pressed hp, hp⟩
  generalize hres : processTapping K r s = p
  unfold processTapping at hres
  -- the branches of the source: a tapping key that is down, that was released,
  -- and none
  by_cases hP : s.isTappingPressed = true
  · simp only [if_pos hP] at hres
    by_cases hC : s.tappingKey.tap.count = 0
    · have hu : s.view.undecided = true := by
        simp only [undecided, Bool.and_eq_true, beq_iff_eq]
        exact ⟨hP, hC⟩
      simp only [if_pos hC] at hres
      by_cases hW : s.withinTappingTerm r.event = true
      · simp only [if_pos hW] at hres
        by_cases hK : s.isTappingKey r.event.key = true ∧ (!r.event.pressed) = true
        · rw [if_pos hK] at hres
          subst hres
          have hs : s.view.settledBy r = true := by
            simp only [settledBy, Bool.and_eq_true]
            exact ⟨hK, hW⟩
          exact .firstTap hu hs
        · rw [if_neg hK] at hres
          exact undecided_step r s hu hW hK p hres.symm
      · rw [if_neg hW] at hres
        subst hres
        exact .timeout hu ((Bool.not_eq_true _).mp hW)
    · -- a tapping key that is down and counts as a tap
      have hd : s.settled = true := by
        simp only [settled, hP, Bool.true_and, bne_iff_ne, ne_eq]
        exact hC
      simp only [if_neg hC] at hres
      by_cases hK : s.isTappingKey r.event.key = true ∧ (!r.event.pressed) = true
      · simp only [if_pos hK] at hres
        exact tapRelease_step r s hd hK p hres.symm
      · simp only [if_neg hK, ite_self] at hres
        exact settled_step r s hd hreal hK p hres.symm
  · have hP' : s.isTappingPressed = false := (Bool.not_eq_true _).mp hP
    simp only [if_neg hP] at hres
    by_cases hR : s.isTappingReleased = true
    · simp only [if_pos hR] at hres
      by_cases hW : s.withinTappingTerm r.event = true
      · simp only [if_pos hW] at hres
        by_cases hpr : r.event.pressed = true
        · simp only [if_pos hpr] at hres
          by_cases hK : s.isTappingKey r.event.key = true
          · simp only [if_pos hK] at hres
            exact pressedAgain_step r s hR hW hpr hK p hres.symm
          · have hne : r.event.key ≠ s.tappingKey.event.key := by
              intro he
              refine hK ?_
              simp only [isTappingReleased, Bool.and_eq_true] at hR
              simp only [isTappingKey, hR.1, he, beq_self_eq_true, Bool.and_self]
            have hrel : (s.lookUp K r.event).isTappingReleased = true ∧
                r.event.pressed = true := ⟨hR, hpr⟩
            simp only [if_neg hK] at hres
            refine unsettled_step r s hP' (hreal hpr) (fun _ => ⟨hW, hne⟩) p ?_
            rw [← hres]
            have hi : ((s.isTapKey K r.event).2.interruptedBy r.event) =
                { (s.isTapKey K r.event).2 with
                  tappingKey := (s.isTapKey K r.event).2.tappingKey.interrupt } := by
              rw [isTapKey_snd]
              simp only [interruptedBy]
              rw [if_pos hrel]
            rw [hi]
        · simp only [if_neg hpr] at hres
          exact pass_step r s hP' ((Bool.not_eq_true _).mp hpr) (fun _ => hW) p hres.symm
      · simp only [if_neg hW] at hres
        subst hres
        exact .releasedTimeout hR ((Bool.not_eq_true _).mp hW)
    · simp only [if_neg hR] at hres
      by_cases hpr : r.event.pressed = true
      · simp only [if_pos hpr] at hres
        refine unsettled_step r s hP' (hreal hpr) (fun h => absurd h hR) p ?_
        have hi : ((s.isTapKey K r.event).2.interruptedBy r.event) =
            (s.isTapKey K r.event).2 := by
          have hrel : ¬((s.lookUp K r.event).isTappingReleased = true ∧
              r.event.pressed = true) := fun h => hR h.1
          rw [isTapKey_snd]
          simp only [interruptedBy]
          rw [if_neg hrel]
        rw [hi, ← hres]
      · simp only [if_neg hpr] at hres
        exact pass_step r s hP' ((Bool.not_eq_true _).mp hpr) (fun h => absurd h hR) p hres.symm

/-! ## What no part of a call changes -/

section Unmoved

variable {β : Type} {f : Tapping → β}

/-- A reading of the state that neither the lookups and calls into the
action layer nor writes to `tapping_key` and to the buffer's slots change. -/
structure Unmoved (K : Keymap) (f : Tapping → β) : Prop where
  tappingKey : ∀ (s : Tapping) key, f { s with tappingKey := key } = f s
  slot : ∀ (s : Tapping) i r, f { s with waitingBuffer := s.waitingBuffer.setSlot i r } = f s
  hand : ∀ r (s : Tapping), f (s.hand K r).2 = f s
  isTapKey : ∀ e (s : Tapping), f (s.isTapKey K e).2 = f s

namespace Unmoved

theorem handTappingKey (hf : Unmoved K f) (s : Tapping) : f (s.handTappingKey K) = f s :=
  (hf.tappingKey _ _).trans (hf.hand _ s)

/-- The scan of the buffer moves nothing. -/
theorem scan (hf : Unmoved K f) (s : Tapping) : f (s.waitingBufferScanTap K) = f s := by
  unfold waitingBufferScanTap
  dsimp only
  split
  · rfl
  · split
    · rfl
    · split
      · rfl
      · rw [hf.handTappingKey]
        exact (hf.tappingKey { s with waitingBuffer := _ } _).trans (hf.slot s _ _)

/-- Starting while another key is tapped moves nothing. -/
theorem startWhileTapped (hf : Unmoved K f) (r : KeyRecord) (s : Tapping) :
    f (s.startWhileTapped K r) = f s := by
  unfold TappingState.startWhileTapped
  dsimp only
  rw [hf.scan, hf.tappingKey]
  split
  · exact hf.hand _ s
  · rfl

theorem ite_snd {p : Prop} [Decidable p] {a b : Bool × KeyRecord × Tapping} {c : β}
    (ha : f a.2.2 = c) (hb : f b.2.2 = c) : f (if p then a else b).2.2 = c := by
  split
  · exact ha
  · exact hb

/-- No branch of `process_tapping` moves what stays unmoved in its parts. -/
theorem processTapping (hf : Unmoved K f) (r : KeyRecord) (s : Tapping) :
    f (processTapping K r s).2.2 = f s := by
  have hpass : ∀ s : Tapping, f (s.pass K r).2.2 = f s := fun s => hf.hand r s
  have hlookup := hf.isTapKey r.event s
  have hhand : ∀ r' key, f { (s.hand K r').2 with tappingKey := key } = f s := fun r' _ =>
    (hf.tappingKey _ _).trans (hf.hand r' s)
  have hscan : ∀ key, f
    ({ (s.isTapKey K r.event).2 with tappingKey := key }.waitingBufferScanTap K) =
      f s := fun _ => (hf.scan _).trans ((hf.tappingKey _ _).trans hlookup)
  have hsettled : f ((s.isTapKey K r.event).2.startWhileTapped K r) = f s :=
    (hf.startWhileTapped r _).trans hlookup
  unfold TappingState.processTapping
  dsimp only
  refine ite_snd (ite_snd (ite_snd ?_ ?_) (ite_snd ?_ ?_)) (ite_snd (ite_snd ?_ ?_) ?_)
  -- undecided
  · refine ite_snd ?_ (ite_snd (ite_snd rfl (hpass s)) ?_)
    · exact (hf.handTappingKey _).trans (hf.tappingKey s _)
    · dsimp only
      split
      · exact hf.tappingKey s _
      · rfl
  -- settled, in time
  · exact ite_snd (hhand _ _) (ite_snd hsettled ((hpass _).trans hlookup))
  -- timeouts of both
  · exact (hf.tappingKey _ _).trans (hf.handTappingKey s)
  · exact ite_snd (hhand _ _) (ite_snd hsettled ((hpass _).trans hlookup))
  -- released
  · refine ite_snd (ite_snd (ite_snd (hhand _ _) (hf.tappingKey s _)) ?_) (hpass s)
    exact ite_snd (hscan _) ((hpass _).trans ((hf.tappingKey _ _).trans hlookup))
  · exact hf.tappingKey s _
  -- idle
  · exact ite_snd (ite_snd (hscan _) ((hpass _).trans hlookup)) (hpass s)

end Unmoved

end Unmoved

/-! ## The indices of the ring -/

/-- `process_tapping` moves neither index of the buffer. -/
theorem processTapping_ends (r : KeyRecord) (s : Tapping) :
    (processTapping K r s).2.2.waitingBuffer.ends = s.waitingBuffer.ends := by
  have hends : Unmoved K fun s : Tapping => s.waitingBuffer.ends :=
    ⟨fun _ _ => rfl, fun _ _ _ => rfl, fun _ _ => rfl, fun _ _ => rfl⟩
  exact hends.processTapping r s

/-- `process_tapping` takes nothing off the buffer. -/
theorem processTapping_tail (r : KeyRecord) (s : Tapping) :
    (processTapping K r s).2.2.waitingBuffer.tail = s.waitingBuffer.tail :=
  (Prod.mk.inj (processTapping_ends r s)).2

end TappingState

end Ch583Kbd.Tmk
