/-
Ch583Kbd.Tmk.FirstInFirstOut — a press resolves to the action it would
have if every event were executed at once.

`fifo` is the plain queue: `process_action` of the submitted events one
after the other, each with the tap count it is handed over with. The
waiting buffer delays a press, and its layer is looked up when it is
handed over. By then every earlier event has been executed, and of the
later ones only releases of keys pressed before the tap ("Process release
event of a key pressed before tapping starts").

The modifiers among these are retained till the end of the tapping, the
layer keys are not: a press that waits is then looked up without their
layer (`earlyKeepsLayers` excludes it). A tap of more than one that is
released at once and again by its own release switches the layers twice
(`forcedKeepsLayers`).
-/
import Ch583Kbd.Tmk.KeyOrder
import Ch583Kbd.Tmk.LayerPressed

namespace Ch583Kbd.Tmk

open Ch583Kbd.Lib TappingState

variable {K : Keymap}

/-! ## The queue -/

/-- The tap with which submission `i` was first handed over. -/
def firstTapOf (handed : List Handed) (i : Nat) : Tap :=
  ((handed.find? fun h => h.before.origin == some i).map (·.before.tap)).getD {}

/-- The action layer after the first `n` events, executed in the order of
submission. No layer depends on the timer or the LEDs. -/
def fifo (K : Keymap) (taps : Nat → Tap) (events : List KeyEvent) : Nat → ActionState
  | 0 => {}
  | n + 1 =>
    match events[n]? with
    | some e => (processAction K { event := e, tap := taps n } (fifo K taps events n)).2
    | none => fifo K taps events n

/-- A press that was handed over executed the action of the queue. -/
def Resolves (K : Keymap) (queue : Nat → ActionState) (h : Handed) : Prop :=
  h.before.event.pressed = true → ∀ j, h.before.origin = some j →
    h.action = (queue j).actionOf K h.before.event

instance (queue : Nat → ActionState) (h : Handed) : Decidable (Resolves K queue h) :=
  match ho : h.before.origin with
  | none => isTrue fun _ j hj => by rw [ho] at hj; simp at hj
  | some j =>
    decidable_of_iff (h.before.event.pressed = true →
      h.action = (queue j).actionOf K h.before.event)
      ⟨fun hr hp i hi => Option.some.inj (ho.symm.trans hi) ▸ hr hp, fun hr hp => hr hp j ho⟩

/-- Every press executed the action of the queue. -/
def ResolvedInOrder (K : Keymap) (events : List KeyEvent) (handed : List Handed) : Prop :=
  ∀ h ∈ handed, Resolves K (fifo K (firstTapOf handed) events) h

instance (events : List KeyEvent) (handed : List Handed) :
    Decidable (ResolvedInOrder K events handed) :=
  inferInstanceAs (Decidable (∀ _ ∈ _, _))

/-! ## The rules -/

/-- No release that acts on the layers is executed while a press from
before it waits. -/
def earlyKeepsLayers (K : Keymap) : CallRule := fun _ r v =>
  v.undecided = true → v.withinTappingTerm r.event = true → r.event.isReleased = true →
    r.event.key ≠ v.tappingKey.event.key → typed r.event v = false → v.retains K r = false →
      (v.act.actionOf K r.event).movesLayers r.tap.count = false

/-- The release that a new tap forces does not act on the layers. -/
def forcedKeepsLayers (K : Keymap) : CallRule := fun _ r v =>
  v.settled = true → r.event.isPressed = true → (v.act.actionOf K r.event).isTap = true →
    v.tappingKey.tap.count > 1 →
      ((v.lookUp K r.event).act.actionOf K (v.lastTapRelease r.event.time).event).movesLayers
        v.tappingKey.tap.count = false

instance (src : Source) (r : KeyRecord) (v : View) : Decidable (earlyKeepsLayers K src r v) :=
  inferInstanceAs (Decidable (_ → _ → _ → _ → _ → _ → _))

instance (src : Source) (r : KeyRecord) (v : View) : Decidable (forcedKeepsLayers K src r v) :=
  inferInstanceAs (Decidable (_ → _ → _ → _ → _))

/-! ## Two states that look an event up alike -/

section Lookup

variable {e : KeyEvent} {s s' : ActionState}

/-- The states agree on what a lookup of `e` reads. A press reads nothing
of the layer that it records. -/
structure SameLookup (e : KeyEvent) (s s' : ActionState) : Prop where
  layerState : s.layerState = s'.layerState
  defaultLayerState : s.defaultLayerState = s'.defaultLayerState
  layerPressed : ∀ k, (e.isPressed = true → k ≠ e.key) → s.layerPressed k = s'.layerPressed k

theorem SameLookup.of_layers (h : s.layers = s'.layers) : SameLookup e s s' := by
  obtain ⟨hl, hd, hp⟩ := ActionState.layers_eq_iff.mp h
  exact ⟨hl, hd, fun k _ => congrFun hp k⟩

/-- States that agree for a lookup answer the same action. -/
theorem SameLookup.actionOf (h : SameLookup e s s') : s.actionOf K e = s'.actionOf K e := by
  cases hp : e.isPressed with
  | true =>
    rw [actionOf_press s hp, actionOf_press s' hp,
      ActionState.currentLayerForKey_congr K e.key h.layerState h.defaultLayerState]
  | false =>
    cases hr : e.isReleased with
    | true =>
      rw [actionOf_release s hr, actionOf_release s' hr,
        h.layerPressed e.key fun hp' => by rw [hp] at hp'; simp at hp']
    | false =>
      have hn : e.isNoEvent = true := by
        by_contra hn
        cases hpr : e.pressed <;> simp [KeyEvent.isPressed, KeyEvent.isReleased, hn, hpr] at hp hr
      simp [ActionState.actionOf, hn]

/-- Recording the layer of a press brings the layers into agreement. -/
theorem SameLookup.track (h : SameLookup e s s') :
    (s.track K e).layers = (s'.track K e).layers := by
  refine ActionState.layers_eq_iff.mpr ⟨?_, ?_, funext fun k => ?_⟩
  · simpa using h.layerState
  · simpa using h.defaultLayerState
  · by_cases hk : e.isPressed = true ∧ e.key = k
    · obtain ⟨hp, rfl⟩ := hk
      rw [layerPressed_track s hp, layerPressed_track s' hp,
        ActionState.currentLayerForKey_congr K e.key h.layerState h.defaultLayerState]
    · have hkeep : ∀ t : ActionState, (t.track K e).layerPressed k = t.layerPressed k := by
        intro t
        by_cases hne : e.key = k
        · rw [ActionState.track_of_not_pressed K t e (by simpa using fun hp => hk ⟨hp, hne⟩)]
        · exact layerPressed_track_of_ne t hne
      rw [hkeep, hkeep]
      exact h.layerPressed k fun hp hne => hk ⟨hp, hne.symm⟩

/-- Executed in both, the event leaves the layers alike. -/
theorem SameLookup.processAction {r r' : KeyRecord} (h : SameLookup r.event s s')
    (he : r'.event = r.event) (hc : r.tap.count = r'.tap.count) :
    (processAction K r s).2.layers = (processAction K r' s').2.layers := by
  unfold Tmk.processAction
  rw [he]
  by_cases hn : r.event.isNoEvent = true
  · have htrack := h.track (K := K)
    have hp : r.event.isPressed = false := by simp [KeyEvent.isPressed, hn]
    rw [ActionState.track_of_not_pressed K s _ hp,
      ActionState.track_of_not_pressed K s' _ hp] at htrack
    simpa [hn] using htrack
  · simp only [hn, h.actionOf (K := K)]
    exact ActionState.perform_layers_congr h.track _ _ hc

/-- Only a press writes `layer_pressed`, and only for its key. -/
theorem processAction_layerPressed {r : KeyRecord} {k : KeyPos} (s : ActionState)
    (hk : r.event.isPressed = true → k ≠ r.event.key) :
    (processAction K r s).2.layerPressed k = s.layerPressed k := by
  have htrack : (s.track K r.event).layerPressed k = s.layerPressed k := by
    cases hp : r.event.isPressed with
    | true => exact layerPressed_track_of_ne s (hk hp).symm
    | false => rw [ActionState.track_of_not_pressed K s _ hp]
  unfold Tmk.processAction
  split
  · rfl
  · exact (congrFun (ActionState.perform_layerPressed _ _ _ _) k).trans htrack

/-- A release that does not act on the layers leaves them alone. -/
theorem processAction_layers_of_release {r : KeyRecord} (hr : r.event.isReleased = true)
    (h : (s.actionOf K r.event).movesLayers r.tap.count = false) :
    (processAction K r s).2.layers = s.layers := by
  obtain ⟨hreal, hp⟩ := r.event.isReleased_iff.mp hr
  have htrack : s.track K r.event = s :=
    ActionState.track_of_not_pressed K s _ (by simp [KeyEvent.isPressed, hp])
  simp only [processAction, hreal, hp, htrack]
  exact s.perform_layers_of_release _ r.tap h

/-- A modifier tap key only has its layer recorded. -/
theorem processAction_layers_of_modsTap {r : KeyRecord} (hreal : r.event.isNoEvent = false)
    (h : (s.actionOf K r.event).isModsTapKey = true) :
    (processAction K r s).2.layers = (s.track K r.event).layers := by
  simp only [processAction, hreal]
  exact (s.track K r.event).perform_layers_of_modsTap _ _ _ h

end Lookup

/-! ## The queue beside the machine -/

section Queue

variable {taps taps' : Nat → Tap} {events : List KeyEvent}

/-- The first-in first-out execution reads the tap counts of real events only. -/
theorem fifo_congr (n : Nat) (h : ∀ i e, i < n → events[i]? = some e → e.isNoEvent = false →
    taps i = taps' i) : fifo K taps events n = fifo K taps' events n := by
  induction n with
  | zero => rfl
  | succ n ih =>
    simp only [fifo, ih fun i e hi => h i e (Nat.lt_succ_of_lt hi)]
    cases he : events[n]? with
    | none => rfl
    | some e =>
      cases hn : e.isNoEvent with
      | true => simp [processAction, hn]
      | false => rw [h n e (Nat.lt_succ_self n) he hn]

/-- Later events change nothing of what came before. -/
theorem fifo_append (l : List KeyEvent) (n : Nat) (h : n ≤ events.length) :
    fifo K taps (events ++ l) n = fifo K taps events n := by
  induction n with
  | zero => rfl
  | succ n ih => simp only [fifo, ih (Nat.le_of_succ_le h), List.getElem?_append_left h]

end Queue

section FirstTap

variable {handed : List Handed} {x : Handed} {i : Nat}

theorem firstTapOf_concat_delivered (h : ∃ y ∈ handed, y.before.origin = some i) :
    firstTapOf (handed ++ [x]) i = firstTapOf handed i := by
  obtain ⟨y, hy, ho⟩ := h
  have hsome : (handed.find? fun h => h.before.origin == some i).isSome = true := by
    rw [List.find?_isSome]
    exact ⟨y, hy, by simp [ho]⟩
  obtain ⟨z, hz⟩ := Option.isSome_iff_exists.mp hsome
  simp [firstTapOf, List.find?_append, hz]

theorem firstTapOf_concat_of_ne (h : x.before.origin ≠ some i) :
    firstTapOf (handed ++ [x]) i = firstTapOf handed i := by
  simp [firstTapOf, List.find?_append, h]

theorem firstTapOf_concat_self (h : ¬∃ y ∈ handed, y.before.origin = some i)
    (hx : x.before.origin = some i) : firstTapOf (handed ++ [x]) i = x.before.tap := by
  have hnone : (handed.find? fun h => h.before.origin == some i) = none := by
    rw [List.find?_eq_none]
    exact fun y hy ho => h ⟨y, hy, by simpa using ho⟩
  simp [firstTapOf, List.find?_append, hnone, hx]

end FirstTap

/-- The queue over the events submitted so far. -/
abbrev queue (K : Keymap) (v : View) : Nat → ActionState :=
  fifo K (firstTapOf v.handed) v.submitted

section Step

variable {v w : View} {r t : KeyRecord} {p i : Nat}

/-- The queue executes one event more, with the tap count of its first delivery. -/
theorem queue_succ {n : Nat} {e : KeyEvent} (h : v.submitted[n]? = some e) :
    queue K v (n + 1) =
      (processAction K { event := e, tap := firstTapOf v.handed n } (queue K v n)).2 := by
  simp [fifo, h]

/-- Handing a record over does not change what the queue has done before its
turn. -/
theorem queue_handThen (hreal : r.event.isNoEvent = false) (n : Nat)
    (h : ∀ i, r.origin = some i → i < n → Delivered v i) :
    queue K (v.handThen K r t) n = queue K v n := by
  refine fifo_congr n fun i e hi _ _ => ?_
  rw [handThen_handed r t v hreal]
  by_cases ho : r.origin = some i
  · exact firstTapOf_concat_delivered (h i ho hi)
  · exact firstTapOf_concat_of_ne ho

/-! ## Where the queue stands -/

/-- Submission `i` was executed although the queue has only come to `p`:
it is a release that does not act on the layers, and no press of its key
waits. -/
structure Early (K : Keymap) (v : View) (p i : Nat) (e : KeyEvent) : Prop where
  released : e.isReleased = true
  keeps : (K ((queue K v p).layerPressed e.key) e.key).movesLayers
    (firstTapOf v.handed i).count = false
  presses : ∀ m d, m < i → v.submitted[m]? = some d → d.isPressed = true → d.key = e.key →
    Delivered v m

/-- The machine has executed the first `p` events and some early releases,
and its layers are those of the queue. -/
structure Queued (K : Keymap) (v : View) (p : Nat) : Prop where
  le : p ≤ v.submitted.length
  done : ∀ i e, i < p → v.submitted[i]? = some e → e.isNoEvent = false → Delivered v i
  early : ∀ i e, p ≤ i → v.submitted[i]? = some e → Delivered v i → Early K v p i e
  resolved : ∀ h ∈ v.handed, h.before.event.pressed = true → ∀ j, h.before.origin = some j →
    j < p ∧ h.action = (queue K v j).actionOf K h.before.event
  layerState : v.act.layerState = (queue K v p).layerState
  defaultLayerState : v.act.defaultLayerState = (queue K v p).defaultLayerState

/-- An early release stays one while the layer of its key stays. -/
theorem Early.handThen {p' : Nat} {e : KeyEvent} (h : Early K v p i e) (hd : Delivered v i)
    (hreal : r.event.isNoEvent = false)
    (hl : (queue K (v.handThen K r t) p').layerPressed e.key = (queue K v p).layerPressed e.key) :
    Early K (v.handThen K r t) p' i e where
  released := h.released
  keeps := by
    rw [hl, handThen_handed r t v hreal, firstTapOf_concat_delivered hd]
    exact h.keeps
  presses m d hm hd' hp hk := (h.presses m d hm hd' hp hk).handThen r t

/-- Executing the early releases in their turn changes nothing. -/
theorem Queued.skip (h : Queued K v p) {n : Nat} (hpn : p ≤ n)
    (hall : ∀ m e, m < n → v.submitted[m]? = some e → e.isNoEvent = false → Delivered v m) :
    (queue K v n).layers = (queue K v p).layers := by
  induction n, hpn using Nat.le_induction with
  | base => rfl
  | succ n hpn ih =>
    have ih := ih fun m e hm => hall m e (Nat.lt_succ_of_lt hm)
    cases he : v.submitted[n]? with
    | none =>
      have hsame : queue K v (n + 1) = queue K v n := by simp [queue, fifo, he]
      rw [hsame, ih]
    | some e =>
      rw [queue_succ he]
      cases hn : e.isNoEvent with
      | true =>
        rw [← ih]
        simp [processAction, hn]
      | false =>
        have hearly := h.early n e hpn he (hall n e (Nat.lt_succ_self n) he hn)
        refine (processAction_layers_of_release hearly.released ?_).trans ih
        rw [actionOf_release _ hearly.released, (ActionState.layers_eq_iff.mp ih).2.2]
        exact hearly.keeps

/-- A record handed over in its turn executes what the queue does. -/
theorem Queued.deliver (h : Queued K v p) (hs : StandsFor v r i)
    (hnd : ¬Delivered v i) (hreal : r.event.isNoEvent = false)
    (hall : ∀ m e, m < i → v.submitted[m]? = some e → e.isNoEvent = false → Delivered v m)
    (htable : ∀ k, (r.event.isPressed = true → k ≠ r.event.key) →
      v.act.layerPressed k = (queue K v p).layerPressed k) :
    Queued K (v.handThen K r t) (i + 1) ∧
      (v.handThen K r t).act.layers = (queue K (v.handThen K r t) (i + 1)).layers := by
  have hlt := (List.getElem?_eq_some_iff.mp hs.2).1
  have hpi : p ≤ i := by
    by_contra hip
    exact hnd (h.done i _ (Nat.lt_of_not_le hip) hs.2 hreal)
  have hskip := ActionState.layers_eq_iff.mp (h.skip hpi hall)
  have hlook : SameLookup r.event v.act (queue K v i) :=
    ⟨h.layerState.trans hskip.1.symm, h.defaultLayerState.trans hskip.2.1.symm,
      fun k hk => (htable k hk).trans (congrFun hskip.2.2 k).symm⟩
  have hqueue : ∀ n, n ≤ i → queue K (v.handThen K r t) n = queue K v n := by
    refine fun n hn => queue_handThen hreal n fun m hm hmn => ?_
    have heq : i = m := Option.some.inj (hs.1.symm.trans hm)
    omega
  have htap : firstTapOf (v.handThen K r t).handed i = r.tap := by
    rw [handThen_handed r t v hreal]
    exact firstTapOf_concat_self hnd hs.1
  have hlayers : (v.handThen K r t).act.layers = (queue K (v.handThen K r t) (i + 1)).layers := by
    rw [queue_succ (v := v.handThen K r t) hs.2, htap, hqueue i le_rfl]
    exact hlook.processAction rfl rfl
  have hdel := delivered_handThen (K := K) r t v hreal
  refine ⟨⟨hlt, fun m e hm he hn => ?_, fun m e hm he hd => ?_, fun x hx hp j hj => ?_,
    (ActionState.layers_eq_iff.mp hlayers).1, (ActionState.layers_eq_iff.mp hlayers).2.1⟩, hlayers⟩
  · rcases Nat.lt_or_ge m i with hmi | hmi
    · exact (hdel m).mpr (.inl (hall m e hmi he hn))
    · obtain rfl : m = i := by omega
      exact (hdel m).mpr (.inr hs.1)
  · -- the event executed is not the press of an early release
    have hmi : m ≠ i := by omega
    have hd' : Delivered v m := ((hdel m).mp hd).resolve_right fun ho =>
      hmi (Option.some.inj (ho.symm.trans hs.1))
    have hearly := h.early m e (by omega) he hd'
    have hne : r.event.isPressed = true → e.key ≠ r.event.key := fun hp hk =>
      hnd (hearly.presses i r.event (by omega) hs.2 hp hk.symm)
    refine hearly.handThen hd' hreal ?_
    rw [← (ActionState.layers_eq_iff.mp hlayers).2.2, handThen_act,
      processAction_layerPressed v.act hne]
    exact htable e.key hne
  · rw [handThen_handed r t v hreal] at hx
    rcases List.mem_append.mp hx with hx | hx
    · obtain ⟨hjp, hact⟩ := h.resolved x hx hp j hj
      exact ⟨by omega, by rw [hqueue j (by omega)]; exact hact⟩
    · rw [List.mem_singleton.mp hx] at hj ⊢
      have hji : i = j := Option.some.inj (hs.1.symm.trans hj)
      subst hji
      exact ⟨Nat.lt_succ_self i, by rw [hqueue i le_rfl]; exact hlook.actionOf⟩

/-- An event is executed out of turn, and leaves the layers alone. -/
theorem Queued.aside (h : Queued K v p) (hreal : r.event.isNoEvent = false)
    (hkeep : (processAction K r v.act).2.layers = v.act.layers)
    (hold : ∀ i, r.origin = some i → i < p → Delivered v i)
    (hearly : ∀ i e, r.origin = some i → p ≤ i → v.submitted[i]? = some e →
      Early K (v.handThen K r t) p i e)
    (hresolved : r.event.pressed = true → ∀ j, r.origin = some j →
      j < p ∧ v.act.actionOf K r.event = (queue K v j).actionOf K r.event) :
    Queued K (v.handThen K r t) p := by
  have hlayers := ActionState.layers_eq_iff.mp hkeep
  have hdel := delivered_handThen (K := K) r t v hreal
  have hqueue : ∀ n, n ≤ p → queue K (v.handThen K r t) n = queue K v n := fun n hn =>
    queue_handThen hreal n fun i ho hi => hold i ho (Nat.lt_of_lt_of_le hi hn)
  refine ⟨h.le, fun i e hi he hn => (hdel i).mpr (.inl (h.done i e hi he hn)),
    fun i e hi he hd => ?_, fun x hx hp j hj => ?_, ?_, ?_⟩
  · by_cases hdi : Delivered v i
    · exact (h.early i e hi he hdi).handThen hdi hreal
        (congrArg (·.layerPressed e.key) (hqueue p le_rfl))
    · exact hearly i e (((hdel i).mp hd).resolve_left hdi) hi he
  · rw [handThen_handed r t v hreal] at hx
    rcases List.mem_append.mp hx with hx | hx
    · obtain ⟨hjp, hact⟩ := h.resolved x hx hp j hj
      exact ⟨hjp, by rw [hqueue j (Nat.le_of_lt hjp)]; exact hact⟩
    · rw [List.mem_singleton.mp hx] at hp hj ⊢
      obtain ⟨hjp, hact⟩ := hresolved hp j hj
      exact ⟨hjp, by rw [hqueue j (Nat.le_of_lt hjp)]; exact hact⟩
  · rw [hqueue p le_rfl]
    exact hlayers.1.trans h.layerState
  · rw [hqueue p le_rfl]
    exact hlayers.2.1.trans h.defaultLayerState

/-- The queue has passed the presses that were handed over. -/
theorem Queued.pressed_lt (h : Queued K v p) (hc : Core v) (hs : StandsFor v r i)
    (hp : r.event.pressed = true) (hd : Delivered v i) : i < p := by
  obtain ⟨x, hx, ho⟩ := hd
  have hev := Option.some.inj (((hc.logged x hx).2.2.2 i ho).symm.trans hs.2)
  exact (h.resolved x hx (hev ▸ hp) i ho).1

/-- The lookups, the buffer and the tapping key do not move the queue. -/
theorem Queued.update (h : Queued K v p) (t : KeyRecord) (q : List KeyRecord) (a : ActionState)
    (hl : a.layerState = v.act.layerState) (hd : a.defaultLayerState = v.act.defaultLayerState) :
    Queued K { v with tappingKey := t, waitingBuffer := q, act := a } p where
  le := h.le
  done := h.done
  early i e hi he hdel := by
    obtain ⟨hrel, hkeeps, hpresses⟩ := h.early i e hi he hdel
    exact ⟨hrel, hkeeps, hpresses⟩
  resolved := h.resolved
  layerState := hl.trans h.layerState
  defaultLayerState := hd.trans h.defaultLayerState

/-! ## The tapping key -/

/-- The undecided tapping key has not been handed over. -/
def Fresh (v : View) : Prop :=
  v.undecided = true ∧ ∀ i, v.tappingKey.origin = some i → ¬Delivered v i

/-- The tapping key, submission `i`, was handed over and its tap cancelled.
Handed over again it executes the same action. -/
structure CancelledTap (K : Keymap) (v : View) (i : Nat) : Prop where
  action : v.act.actionOf K v.tappingKey.event = (queue K v i).actionOf K v.tappingKey.event
  mods : (v.act.actionOf K v.tappingKey.event).isModsTapKey = true
  recorded : (v.act.track K v.tappingKey.event).layers = v.act.layers

/-- What holds between two calls. The layer of a tapping key that has not
been handed over is recorded before its turn. -/
structure Resolving (K : Keymap) (v : View) (p : Nat) : Prop where
  queued : Queued K v p
  layerPressed : ∀ k, (Fresh v → k ≠ v.tappingKey.event.key) →
    v.act.layerPressed k = (queue K v p).layerPressed k
  cancelled : v.undecided = true → ∀ i, v.tappingKey.origin = some i → Delivered v i →
    CancelledTap K v i

/-- Without an undecided tapping key the layers are those of the queue. -/
theorem Queued.resolving (h : Queued K v p) (hu : v.undecided = false)
    (hl : v.act.layers = (queue K v p).layers) : Resolving K v p where
  queued := h
  layerPressed k _ := congrFun (ActionState.layers_eq_iff.mp hl).2.2 k
  cancelled hu' := by
    rw [hu] at hu'
    simp at hu'

/-- While no tapping key is fresh, no layer is recorded before its turn. -/
theorem Resolving.layers (h : Resolving K v p) (hf : ¬Fresh v) :
    v.act.layers = (queue K v p).layers :=
  ActionState.layers_eq_iff.mpr ⟨h.queued.layerState, h.queued.defaultLayerState,
    funext fun k => h.layerPressed k fun hf' => absurd hf' hf⟩

theorem not_fresh_of_not_undecided (hu : v.undecided = false) : ¬Fresh v := fun hf => by
  rw [hf.1] at hu
  simp at hu

/-- The tapping key is handed over for the first time. -/
theorem Queued.tapped (h : Queued K v p) (hs : StandsFor v v.tappingKey i) (hnd : ¬Delivered v i)
    (hu : v.undecided = true)
    (hall : ∀ m e, m < i → v.submitted[m]? = some e → e.isNoEvent = false → Delivered v m)
    (htable : ∀ k, k ≠ v.tappingKey.event.key →
      v.act.layerPressed k = (queue K v p).layerPressed k) :
    Resolving K (v.tapped K) (i + 1) := by
  obtain ⟨hreal, hp, -⟩ := undecided_real hu
  obtain ⟨hqueued, hlayers⟩ := h.deliver (r := v.tappingKey.withCount 1)
    (t := (v.hand K (v.tappingKey.withCount 1)).1) hs hnd hreal hall
    fun k hk => htable k (hk (v.tappingKey.event.isPressed_iff.mpr ⟨hreal, hp⟩))
  refine ⟨hqueued, fun k _ => congrFun (ActionState.layers_eq_iff.mp hlayers).2.2 k, ?_⟩
  intro hu' j hj _
  rcases hand_fst_eq (K := K) (v.tappingKey.withCount 1) v with he | ⟨-, -, -, hmods, -⟩
  · have hone : (v.tapped K).tappingKey.tap.count = 1 := congrArg (·.tap.count) he
    rw [(undecided_real hu').2.2] at hone
    simp at hone
  -- a tap that is cancelled only has its layer recorded
  have hev : (v.tapped K).tappingKey.event = v.tappingKey.event :=
    hand_fst_event (K := K) (v.tappingKey.withCount 1) v
  have hor : (v.tapped K).tappingKey.origin = v.tappingKey.origin :=
    hand_fst_origin (K := K) (v.tappingKey.withCount 1) v
  have hact : (v.tapped K).act.layers = (v.act.track K v.tappingKey.event).layers :=
    processAction_layers_of_modsTap (r := v.tappingKey.withCount 1) hreal hmods
  have hsame : (v.tapped K).act.actionOf K v.tappingKey.event =
      v.act.actionOf K v.tappingKey.event := by
    rw [(SameLookup.of_layers hact).actionOf, ActionState.actionOf_track]
  have hentry : v.entry K (v.tappingKey.withCount 1) ∈ (v.tapped K).handed := by
    rw [TappingState.tapped, handThen_handed (v.tappingKey.withCount 1) _ v hreal]
    exact List.mem_append_right _ List.mem_cons_self
  have hturn := (hqueued.resolved _ hentry hp j (hor ▸ hj)).2
  refine ⟨?_, ?_, ?_⟩
  · rw [hev, hsame]
    exact hturn
  · rw [hev, hsame]
    exact hmods
  · rw [hev, (SameLookup.of_layers hact).track, ActionState.track_track, hact]

/-- A tapping key that is handed over again executes the same action. -/
theorem Resolving.handAgain (h : Resolving K v p) (hc : Core v) (hu : v.undecided = true)
    (hs : StandsFor v v.tappingKey i) (hd : Delivered v i) (n : Nat) :
    Queued K (v.handThen K (v.tappingKey.withCount n) t) p ∧
      (v.handThen K (v.tappingKey.withCount n) t).act.layers = v.act.layers ∧
      ∀ m, queue K (v.handThen K (v.tappingKey.withCount n) t) m = queue K v m := by
  obtain ⟨hreal, hp, -⟩ := undecided_real hu
  have hcan := h.cancelled hu i hs.1 hd
  have hkeep : (processAction K (v.tappingKey.withCount n) v.act).2.layers = v.act.layers :=
    (processAction_layers_of_modsTap (r := v.tappingKey.withCount n) hreal hcan.mods).trans
      hcan.recorded
  have hip := h.queued.pressed_lt hc hs hp hd
  have hself : ∀ j, (v.tappingKey.withCount n).origin = some j → j = i := fun j hj =>
    Option.some.inj (hj.symm.trans hs.1)
  have hqueued := h.queued.aside (r := v.tappingKey.withCount n)
    (t := t) hreal hkeep (fun j hj _ => hself j hj ▸ hd)
    (fun j e hj hpj => by rw [hself j hj] at hpj; omega)
    (fun _ j hj => hself j hj ▸ ⟨hip, hcan.action⟩)
  exact ⟨hqueued, hkeep, fun m => queue_handThen (r := v.tappingKey.withCount n) hreal m
    fun j hj _ => hself j hj ▸ hd⟩

/-- Whether a tap was cancelled depends on the layers and the tapping key. -/
theorem CancelledTap.congr (h : CancelledTap K v i) (hl : w.act.layers = v.act.layers)
    (he : w.tappingKey.event = v.tappingKey.event) (hq : queue K w i = queue K v i) :
    CancelledTap K w i := by
  have hlook : SameLookup v.tappingKey.event w.act v.act := .of_layers hl
  refine ⟨?_, ?_, ?_⟩
  · rw [he, hq, hlook.actionOf]
    exact h.action
  · rw [he, hlook.actionOf]
    exact h.mods
  · rw [he, hlook.track, hl]
    exact h.recorded

/-! ## A step -/

/-- Every earlier event is executed before a record is consumed. -/
theorem AtHand.all_before (hr : AtHand v r) (hu : v.undecided = false)
    (hreal : r.event.isNoEvent = false) (hs : StandsFor v r i) :
    ∀ m e, m < i → v.submitted[m]? = some e → e.isNoEvent = false → Delivered v m := by
  intro m e hm he hn
  have hfirst : ∀ x ∈ v.waitingBuffer, r.origin < x.origin := by
    rcases hr.place hreal with hfirst | ⟨hu', -⟩
    · exact hfirst
    · rw [hu] at hu'
      simp at hu'
  refine before_inHand (R := everything) hr.core hr.accounted (fun hu' => ?_)
    (fun x hx _ => hfirst x hx) i hs.1 m e hm he hn
  rw [hu] at hu'
  simp at hu'

/-- Every earlier event is executed before the undecided tapping key. -/
theorem AtHand.all_before_tapping (hr : AtHand v r) (hu : v.undecided = true)
    (hs : StandsFor v v.tappingKey i) :
    ∀ m e, m < i → v.submitted[m]? = some e → e.isNoEvent = false → Delivered v m :=
  fun m e hm he hn => before_tapping (R := everything) hr.core hu hr.inHand hr.accounted hr.ahead
    (fun _ => hr.younger hu) i hs.1 m e hm he hn

/-- Without an undecided tapping key the record in hand has its turn. -/
theorem Resolving.inTurn (h : Resolving K v p) (hr : AtHand v r) (hu : v.undecided = false)
    (hreal : r.event.isNoEvent = false) (tap : Tap) (ht : t.undecided = false) :
    ∃ p', Resolving K (v.handThen K (r.withTap tap) t) p' := by
  obtain ⟨i, hs, hnd⟩ := (hr.inHand hreal).stands
  obtain ⟨hqueued, hlayers⟩ := h.queued.deliver (r := r.withTap tap) (t := t) hs hnd hreal
    (hr.all_before hu hreal hs) fun k _ =>
      congrFun (ActionState.layers_eq_iff.mp (h.layers (not_fresh_of_not_undecided hu))).2.2 k
  exact ⟨i + 1, hqueued.resolving ht hlayers⟩

/-- "Start": the lookup records a layer, and the release that is forced
leaves the layers alone. -/
theorem Resolving.started (h : Resolving K v p) (hu : v.undecided = false)
    (hreal : r.event.isNoEvent = false)
    (hforced : v.settled = true → v.tappingKey.tap.count > 1 →
      ((v.lookUp K r.event).act.actionOf K (v.lastTapRelease r.event.time).event).movesLayers
        v.tappingKey.tap.count = false) :
    Queued K (v.started K r) p ∧ ∀ k, k ≠ r.event.key →
      (v.started K r).act.layerPressed k = (queue K (v.started K r) p).layerPressed k := by
  have hlook : Queued K (v.lookUp K r.event) p :=
    h.queued.update _ _ _ (by simp) (by simp)
  have htable : ∀ k, k ≠ r.event.key →
      (v.lookUp K r.event).act.layerPressed k = (queue K v p).layerPressed k := by
    intro k hk
    exact (layerPressed_track_of_ne v.act hk.symm).trans
      (h.layerPressed k fun hf => absurd hf (not_fresh_of_not_undecided hu))
  unfold TappingState.started
  dsimp only
  split
  · next hset =>
    have hlast : (v.lastTapRelease r.event.time).event.isNoEvent = false :=
      lastTapRelease_real hset.1 hreal
    have hkeep : (processAction K (v.lastTapRelease r.event.time) (v.lookUp K r.event).act).2.layers
        = (v.lookUp K r.event).act.layers :=
      processAction_layers_of_release (KeyEvent.isReleased_iff _ |>.mpr ⟨hlast, rfl⟩)
        (hforced hset.1 hset.2)
    have hnone : ∀ {P : Prop} (j : Nat), (v.lastTapRelease r.event.time).origin = some j → P :=
      fun j hj => by simp [lastTapRelease] at hj
    refine ⟨hlook.aside (r := v.lastTapRelease r.event.time) hlast hkeep (fun j hj => hnone j hj)
      (fun j _ hj => hnone j hj) fun _ j hj => hnone j hj, fun k hk => ?_⟩
    refine (congrFun (ActionState.layers_eq_iff.mp hkeep).2.2 k).trans ((htable k hk).trans ?_)
    exact congrArg (·.layerPressed k) (queue_handThen (v := v.lookUp K r.event)
      (r := v.lastTapRelease r.event.time) hlast p fun j hj => hnone j hj).symm
  · exact ⟨hlook.update r _ _ rfl rfl, htable⟩

/-- The undecided tapping key is handed over, once more if its tap was
cancelled. -/
theorem Resolving.dropTapping (h : Resolving K v p) (hr : AtHand v r) (hu : v.undecided = true) :
    ∃ p', Resolving K (v.handThen K v.tappingKey {}) p' := by
  obtain ⟨hreal, hp, -⟩ := undecided_real hu
  obtain ⟨i, hs, -⟩ := hr.core.tapping hreal
  have hidle : (v.handThen K v.tappingKey {}).undecided = false := rfl
  by_cases hd : Delivered v i
  · obtain ⟨hqueued, hact, hqueue⟩ := h.handAgain (t := {}) hr.core hu hs hd
      v.tappingKey.tap.count
    refine ⟨p, hqueued.resolving hidle ?_⟩
    rw [hqueue p]
    exact hact.trans (h.layers fun hf => hf.2 i hs.1 hd)
  · obtain ⟨hqueued, hlayers⟩ := h.queued.deliver (t := {}) hs hd hreal
      (hr.all_before_tapping hu hs) fun k hk => h.layerPressed k fun _ =>
        hk (v.tappingKey.event.isPressed_iff.mpr ⟨hreal, hp⟩)
    exact ⟨i + 1, hqueued.resolving hidle hlayers⟩

/-- The release settles the undecided tapping key, once more if its tap was
cancelled. -/
theorem Resolving.tapped (h : Resolving K v p) (hr : AtHand v r) (hu : v.undecided = true) :
    ∃ p', Resolving K (v.tapped K) p' := by
  obtain ⟨i, hs, -⟩ := hr.core.tapping (undecided_real hu).1
  by_cases hd : Delivered v i
  · obtain ⟨hqueued, hact, hqueue⟩ := h.handAgain (K := K)
      (t := (v.hand K (v.tappingKey.withCount 1)).1) hr.core hu hs hd 1
    have hor : (v.tapped K).tappingKey.origin = v.tappingKey.origin :=
      hand_fst_origin (K := K) (v.tappingKey.withCount 1) v
    refine ⟨p, hqueued, fun k _ => ?_, fun _ j hj _ => ?_⟩
    · have hlayers := hact.trans (h.layers fun hf => hf.2 i hs.1 hd)
      exact (congrFun (ActionState.layers_eq_iff.mp hlayers).2.2 k).trans
        (congrArg (·.layerPressed k) (hqueue p)).symm
    · obtain rfl : i = j := Option.some.inj (hs.1.symm.trans (hor.symm.trans hj))
      exact (h.cancelled hu i hs.1 hd).congr hact
        (hand_fst_event (K := K) (v.tappingKey.withCount 1) v) (hqueue i)
  · exact ⟨i + 1, h.queued.tapped hs hd hu (hr.all_before_tapping hu hs) fun k hk =>
      h.layerPressed k fun _ => hk⟩

/-- A release of a key pressed before the tap does not wait for its turn. -/
theorem Resolving.early (h : Resolving K v p) (hr : AtHand v r) (hu : v.undecided = true)
    (hrel : r.event.isReleased = true) (hk : r.event.key ≠ v.tappingKey.event.key)
    (ht : typed r.event v = false)
    (hkeeps : (v.act.actionOf K r.event).movesLayers r.tap.count = false) :
    Resolving K (v.handThen K r v.tappingKey) p := by
  obtain ⟨hreal, hp⟩ := r.event.isReleased_iff.mp hrel
  obtain ⟨i, hs, hnd⟩ := (hr.inHand hreal).stands
  have hself : ∀ j, r.origin = some j → j = i := fun j hj => Option.some.inj (hj.symm.trans hs.1)
  have hpi : p ≤ i := by
    by_contra hip
    exact hnd (h.queued.done i _ (Nat.lt_of_not_le hip) hs.2 hreal)
  have hkeep : (processAction K r v.act).2.layers = v.act.layers :=
    processAction_layers_of_release hrel hkeeps
  have hnotself : ∀ m, m < i → r.origin ≠ some m := fun m hm ho => by
    rw [hself m ho] at hm
    omega
  -- no press of its key waits
  have hpresses : ∀ m d, m < i → v.submitted[m]? = some d → d.isPressed = true →
      d.key = r.event.key → Delivered v m := by
    intro m d hm hd hdp hdk
    obtain ⟨hdreal, hdpr⟩ := d.isPressed_iff.mp hdp
    rcases hr.accounted m d hd hdreal with hdel | ⟨-, ho⟩ | ⟨x, hx, ho⟩ | ⟨-, ho⟩
    · exact hdel
    · obtain ⟨n, hn, -⟩ := hr.core.tapping (undecided_real hu).1
      have hev : v.tappingKey.event = d := congrArg Prod.snd (hn.tag_eq ho hd)
      exact absurd (hev ▸ hdk.symm) hk
    · obtain ⟨-, n, hn, -⟩ := hr.core.buffered x hx
      have hev : x.event = d := congrArg Prod.snd (hn.tag_eq ho hd)
      simp only [typed, List.any_eq_false, Bool.and_eq_true, beq_iff_eq, bne_iff_ne, ne_eq,
        not_and, not_not] at ht
      have hsame := ht x hx (by rw [hev, hdk])
      rw [hp, hev, hdpr] at hsame
      simp at hsame
    · exact absurd ho (hnotself m hm)
  have hqueue : ∀ m, m ≤ p → queue K (v.handThen K r v.tappingKey) m = queue K v m :=
    fun m hm => queue_handThen hreal m fun j hj hjm => by
      rw [hself j hj] at hjm
      omega
  have hapart : ∀ j, v.tappingKey.origin = some j →
      Delivered (v.handThen K r v.tappingKey) j → Delivered v j := fun j hj hd =>
    ((delivered_handThen r v.tappingKey v hreal j).mp hd).resolve_right fun ho =>
      (hr.inHand hreal).tapping_apart (undecided_real hu).1 (hj.trans ho.symm)
  refine ⟨h.queued.aside hreal hkeep (fun j hj hjp => ?_) (fun j e hj _ he => ?_) fun hpr => ?_,
    fun k hfresh => ?_, fun _ j hj hd => ?_⟩
  · rw [hself j hj] at hjp
    omega
  · obtain rfl := hself j hj
    obtain rfl : r.event = e := Option.some.inj (hs.2.symm.trans he)
    refine ⟨hrel, ?_, fun m d hm hd' hp' hk' => (hpresses m d hm hd' hp' hk').handThen r _⟩
    rw [hqueue p le_rfl, handThen_handed r _ v hreal, firstTapOf_concat_self hnd hs.1,
      ← h.layerPressed r.event.key fun _ => hk, ← actionOf_release (K := K) v.act hrel]
    exact hkeeps
  · rw [hp] at hpr
    simp at hpr
  · rw [hqueue p le_rfl]
    refine (congrFun (ActionState.layers_eq_iff.mp hkeep).2.2 k).trans
      (h.layerPressed k fun hf => ?_)
    exact hfresh ⟨hf.1, fun j hj hd => hf.2 j hj (hapart j hj hd)⟩
  · have hd' := hapart j hj hd
    obtain ⟨n, hn, -⟩ := hr.core.tapping (undecided_real hu).1
    obtain rfl : n = j := Option.some.inj (hn.1.symm.trans hj)
    have hlt := h.queued.pressed_lt hr.core hn (undecided_real hu).2.1 hd'
    exact (h.cancelled hu n hj hd').congr hkeep rfl (hqueue n (Nat.le_of_lt hlt))

/-- A press in hand becomes the tapping key and records its layer before its
turn. -/
theorem Queued.start (h : Queued K v p) (hu : v.tappingKey.undecided = true)
    (hs : StandsFor v v.tappingKey i) (hnd : ¬Delivered v i)
    (htable : ∀ k, k ≠ v.tappingKey.event.key →
      v.act.layerPressed k = (queue K v p).layerPressed k) : Resolving K v p := by
  have hself : ∀ j, v.tappingKey.origin = some j → ¬Delivered v j := fun j hj =>
    Option.some.inj (hs.1.symm.trans hj) ▸ hnd
  exact ⟨h, fun k hk => htable k (hk ⟨hu, hself⟩), fun _ j hj hd => absurd hd (hself j hj)⟩

/-- **A step keeps the layers those of the queue.** -/
theorem TapStep.resolving {src : Source} {consumed : Bool} {r' : KeyRecord}
    (h : TapStep K v r consumed r' w) (hr : AtHand v r) (hearly : earlyKeepsLayers K src r v)
    (hforced : forcedKeepsLayers K src r v) (hq : Resolving K v p) : ∃ p', Resolving K w p' := by
  cases h with
  | firstTap hu hs => exact hq.tapped hr hu
  | early hu hw hrel hk ht hn =>
    exact ⟨p, hq.early hr hu hrel hk ht (hearly hu hw hrel hk ht hn)⟩
  | wait hu hw hs hrel =>
    refine ⟨p, ?_⟩
    split
    · refine ⟨hq.queued.update _ _ _ rfl rfl, hq.layerPressed, fun _ i hi hd => ?_⟩
      obtain ⟨ha, hm, hl⟩ := hq.cancelled hu i hi hd
      exact ⟨ha, hm, hl⟩
    · exact hq
  | timeout hu hw => exact hq.dropTapping hr hu
  | tapRelease hset hk hp =>
    have hreal := hr.wf.real_of_key hk (settled_real hset).1
    refine hq.inTurn hr ?_ hreal _ ?_
    · by_contra hu
      exact (settled_real hset).2.2 (undecided_real (by simpa using hu)).2.2
    · split
      · simp [KeyRecord.undecided, hp]
      · rfl
  | start w hu hp ht hrel hscan =>
    obtain ⟨hreal, hpr⟩ := r.event.isPressed_iff.mp hp
    obtain ⟨i, hs, hnd⟩ := (hr.inHand hreal).stands
    obtain ⟨hqueued, htable⟩ := hq.started hu hreal fun hset => hforced hset hp ht
    have hnd' : ¬Delivered (v.started K r) i := fun hd =>
      hnd ((delivered_started (fun _ => hreal) i).mp hd)
    have hs' : StandsFor (v.started K r) (v.started K r).tappingKey i := by
      rw [started_tappingKey]
      exact ⟨hs.1, by rw [started_submitted]; exact hs.2⟩
    have hu' : (v.started K r).undecided = true := by
      rw [undecided_eq, started_tappingKey]
      exact (hr.inHand hreal).toTapping hpr
    have htable' : ∀ k, k ≠ (v.started K r).tappingKey.event.key →
        (v.started K r).act.layerPressed k = (queue K (v.started K r) p).layerPressed k := by
      rw [started_tappingKey]
      exact htable
    cases hscan with
    | miss hm => exact ⟨p, hqueued.start hu' hs' hnd' htable'⟩
    | hit pre x post hu'' hq' hpre hx =>
      -- its release waits already: the press is a tap, and resolved with that
      refine ⟨i + 1, (hqueued.update _ _ _ rfl rfl).tapped hs' hnd' hu' (fun m e hm he hn => ?_)
        htable'⟩
      have he' : (v.started K r).submitted[m]? = some e := he
      rw [started_submitted] at he'
      exact (hr.all_before hu hreal hs m e hm he' hn).started r
  | sequential hrel hw hp hk hi hcount =>
    have hreal := hr.wf.real_of_pressed hp
    refine hq.inTurn hr ?_ hreal _ ?_
    · by_contra hu
      have hpr := (undecided_real (by simpa using hu)).2.1
      rw [(released_real hrel).2] at hpr
      simp at hpr
    · have hnext : v.nextTap.count ≠ 0 := by
        simp only [nextTap]
        split <;> omega
      simp [KeyRecord.undecided, hnext]
  | again hrel hw hp hk hi =>
    have hin := hr.inHand (hr.wf.real_of_pressed hp)
    -- the press becomes the tapping key and is resolved when its turn comes
    obtain ⟨i, hs, hnd⟩ := hin.stands
    have hu : v.undecided = false := by
      by_contra hu
      have hpr := (undecided_real (by simpa using hu)).2.1
      rw [(released_real hrel).2] at hpr
      simp at hpr
    exact ⟨p, (hq.queued.update r _ _ rfl rfl).start (hin.toTapping hp) hs hnd
      fun k _ => hq.layerPressed k fun hf => absurd hf (not_fresh_of_not_undecided hu)⟩
  | pass hu he hrel hset ht =>
    refine hq.inTurn hr hu he r.tap ?_
    rw [← hu]
    unfold interruptedBy
    dsimp only
    split <;> rfl
  | releasedTimeout hrel hw =>
    have hu : v.undecided = false := by
      by_contra hu
      have hpr := (undecided_real (by simpa using hu)).2.1
      rw [(released_real hrel).2] at hpr
      simp at hpr
    exact ⟨p, (hq.queued.update {} _ _ rfl rfl).resolving rfl
      (hq.layers (not_fresh_of_not_undecided hu))⟩
  | tick hu he hrel => exact ⟨p, hq⟩

end Step

/-! ## Runs -/

/-- A new submission is behind the queue. -/
theorem Resolving.submit {v : View} {p : Nat} (h : Resolving K v p) (hc : Core v) (inp : Input) :
    Resolving K (v.submit inp) p := by
  have hqueue : ∀ n, n ≤ p → queue K (v.submit inp) n = queue K v n := fun n hn =>
    fifo_append [inp.event] n (Nat.le_trans hn h.queued.le)
  have hold : ∀ {i e}, i < v.submitted.length → (v.submit inp).submitted[i]? = some e →
      v.submitted[i]? = some e := fun hi he => (List.getElem?_append_left hi).symm.trans he
  have hdel : ∀ i, Delivered (v.submit inp) i → i < v.submitted.length := by
    rintro i ⟨x, hx, ho⟩
    exact (List.getElem?_eq_some_iff.mp ((hc.logged x hx).2.2.2 i ho)).1
  have hlt : ∀ {i}, i < p → i < v.submitted.length := fun hi => Nat.lt_of_lt_of_le hi h.queued.le
  refine ⟨⟨?_, fun i e hi he hn => h.queued.done i e hi (hold (hlt hi) he) hn,
    fun i e hi he hd => ?_, fun x hx hp j hj => ?_, ?_, ?_⟩, fun k hk => ?_, fun hu i hi hd => ?_⟩
  · exact Nat.le_trans h.queued.le (by simp [TappingState.submit])
  · obtain ⟨hrel, hkeeps, hpresses⟩ := h.queued.early i e hi (hold (hdel i hd) he) hd
    refine ⟨hrel, ?_, fun m d hm hd' hp hk =>
      hpresses m d hm (hold (Nat.lt_trans hm (hdel i hd)) hd') hp hk⟩
    rw [hqueue p le_rfl]
    exact hkeeps
  · obtain ⟨hjp, hact⟩ := h.queued.resolved x hx hp j hj
    exact ⟨hjp, by rw [hqueue j (Nat.le_of_lt hjp)]; exact hact⟩
  · rw [hqueue p le_rfl]
    exact h.queued.layerState
  · rw [hqueue p le_rfl]
    exact h.queued.defaultLayerState
  · rw [hqueue p le_rfl]
    exact h.layerPressed k hk
  · obtain ⟨n, hn, -⟩ := hc.tapping (undecided_real (v := v) hu).1
    obtain rfl : n = i := Option.some.inj (hn.1.symm.trans hi)
    have hip := h.queued.pressed_lt hc hn (undecided_real (v := v) hu).2.1 hd
    exact (h.cancelled hu n hi hd).congr rfl rfl (hqueue n (Nat.le_of_lt hip))

/-- At the start the queue has executed nothing. -/
theorem resolving_init : Resolving K Tapping.init.view 0 where
  queued := {
    le := Nat.zero_le _
    done := fun i e hi => absurd hi (Nat.not_lt_zero i)
    early := fun i e _ he => by simp [Tapping.init, view] at he
    resolved := fun x hx => by simp [Tapping.init, view] at hx
    layerState := rfl
    defaultLayerState := rfl }
  layerPressed k _ := rfl
  cancelled hu := (Bool.false_ne_true hu).elim

/-- **Presses resolve in order.** In a run in which no event is submitted
past records that wait and no release that acts on the layers is executed
early or forced, every press executes the action of the queue. -/
theorem run_resolvedInOrder (K : Keymap) (inputs : List Input)
    (hno : NoOverflow K inputs Tapping.init)
    (hstrand : Obeys K noStranding inputs Tapping.init)
    (hearly : Obeys K (earlyKeepsLayers K) inputs Tapping.init)
    (hforced : Obeys K (forcedKeepsLayers K) inputs Tapping.init) :
    ResolvedInOrder K (inputs.map (·.event)) (run K inputs Tapping.init).handed := by
  have hrule := Obeys.and _ _ (Obeys.and _ _ hstrand hearly) hforced
  obtain ⟨p, hp⟩ := run_step_invariant (J := fun v => ∃ p, Resolving K v p)
    (fun v q ⟨p, h⟩ => ⟨p, h.queued.update _ q _ rfl rfl, h.layerPressed, fun hu i hi hd => by
      obtain ⟨ha, hm, hl⟩ := h.cancelled hu i hi hd
      exact ⟨ha, hm, hl⟩⟩)
    (fun v inp hb ⟨p, h⟩ => ⟨p, h.submit hb.core inp⟩)
    (fun _ _ _ _ _ _ hr ⟨⟨_, he⟩, hf⟩ hstep ⟨_, h⟩ => hstep.resolving hr he hf h)
    (fun _ _ _ h => h.1.1) inputs hno hrule ⟨0, resolving_init⟩
  have hsub := run_submitted inputs Tapping.init realBuffer_init hno
  rw [show Tapping.init.submitted = [] from rfl, List.nil_append] at hsub
  intro x hx hpr j hj
  rw [← hsub]
  exact (hp.queued.resolved x hx hpr j hj).2

/-- A letter and a layer key are down when the tap key is pressed; the
letter is released early, the layer key after the tap. -/
theorem run_resolvedInOrder_layer_held :
    let inputs := [down 5 0, down 4 5, down 1 10, up 5 20, up 1 40, up 4 60, down 5 80, up 5 90]
    ResolvedInOrder sampleKeymap (inputs.map (·.event))
      (run sampleKeymap inputs Tapping.init).handed :=
  run_resolvedInOrder sampleKeymap
    [down 5 0, down 4 5, down 1 10, up 5 20, up 1 40, up 4 60, down 5 80, up 5 90]
    (by decide +kernel) (by decide +kernel) (by decide +kernel) (by decide +kernel)

/-- The letter pressed at 213 goes before the layer key pressed at 211,
which is still in the buffer. -/
theorem letter_overtakes_layer :
    let inputs := [down 0 0, down 1 11, down 4 211, down 5 213]
    NoOverflow sampleKeymap inputs Tapping.init ∧
      ¬ResolvedInOrder sampleKeymap (inputs.map (·.event))
        (run sampleKeymap inputs Tapping.init).handed := by
  refine ⟨by decide +kernel, by decide +kernel⟩

/-- A layer key is released while the tap key is undecided: the tap key is
looked up without its layer. -/
example :
    let inputs := [down 4 0, down 1 10, up 4 20, .tick 400]
    Obeys sampleKeymap noStranding inputs Tapping.init ∧
      ¬ResolvedInOrder sampleKeymap (inputs.map (·.event))
        (run sampleKeymap inputs Tapping.init).handed := by
  refine ⟨by decide +kernel, by decide +kernel⟩

end Ch583Kbd.Tmk
