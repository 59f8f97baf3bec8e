/-
Ch583Kbd.Tmk.LayerPressed — what the actions do to the layers and to
`layer_pressed`.

The lookup of a press records its layer, and the release is looked up
there. No action writes the table (`perform_layerPressed`), so a key keeps
its layer until it is pressed again.

`layers` is all that a lookup reads. What an action makes of it depends on
nothing else in the state (`perform_layers_congr`), and most actions leave
it alone; of the releases, all but those that `movesLayers` names.
-/
import Ch583Kbd.Tmk.ActionTheorems

namespace Ch583Kbd.Tmk

/-! ## The lookup -/

section Track

variable {K : Keymap}

/-- An event records the layer of its own key only. -/
theorem layerPressed_track_of_ne (s : ActionState) {e : KeyEvent} {k : KeyPos} (hk : e.key ≠ k) :
    (s.track K e).layerPressed k = s.layerPressed k := by
  unfold ActionState.track
  split
  · exact if_neg (Ne.symm hk)
  · rfl

/-- A press records the layer it is looked up in. -/
theorem layerPressed_track (s : ActionState) {e : KeyEvent} (hp : e.isPressed = true) :
    (s.track K e).layerPressed e.key = s.currentLayerForKey K e.key := by
  rw [ActionState.track, if_pos hp]
  exact if_pos rfl

/-- A press looks its action up in the layers that are on. -/
theorem actionOf_press (s : ActionState) {e : KeyEvent} (hp : e.isPressed = true) :
    s.actionOf K e = K (s.currentLayerForKey K e.key) e.key := by
  obtain ⟨hreal, hpr⟩ := e.isPressed_iff.mp hp
  simp [ActionState.actionOf, ActionState.layerFor, hreal, hpr]

/-- A release takes the layer that was recorded. -/
theorem actionOf_release (s : ActionState) {e : KeyEvent} (hr : e.isReleased = true) :
    s.actionOf K e = K (s.layerPressed e.key) e.key := by
  obtain ⟨hreal, hpr⟩ := e.isReleased_iff.mp hr
  simp [ActionState.actionOf, ActionState.layerFor, hreal, hpr]

/-- The release of a key is looked up as its press. -/
theorem layerPressed_track_self (s : ActionState) {e : KeyEvent} (hp : e.isPressed = true) :
    K ((s.track K e).layerPressed e.key) e.key = s.actionOf K e := by
  rw [layerPressed_track s hp, actionOf_press s hp]

end Track

namespace ActionState

/-! ## The layers -/

/-- What a lookup reads. -/
def layers (s : ActionState) : BitVec 32 × BitVec 32 × (KeyPos → BitVec 8) :=
  (s.layerState, s.defaultLayerState, s.layerPressed)

theorem layers_eq_iff {s s' : ActionState} : s.layers = s'.layers ↔
    s.layerState = s'.layerState ∧ s.defaultLayerState = s'.defaultLayerState ∧
      s.layerPressed = s'.layerPressed := by
  simp [layers]

/-- The lookup reads the two layer words only. -/
theorem currentLayerForKey_congr {s s' : ActionState} (K : Keymap) (k : KeyPos)
    (hl : s.layerState = s'.layerState) (hd : s.defaultLayerState = s'.defaultLayerState) :
    s.currentLayerForKey K k = s'.currentLayerForKey K k := by
  rw [currentLayerForKey, currentLayerForKey, hl, hd]

/-! ## The actions that leave them alone -/

variable (s : ActionState)

theorem ite_layers {p : Prop} [Decidable p] {a b : ActionState}
    {l : BitVec 32 × BitVec 32 × (KeyPos → BitVec 8)}
    (ha : a.layers = l) (hb : b.layers = l) : (if p then a else b).layers = l := by
  split
  · exact ha
  · exact hb

@[simp] theorem sendKeyboardReport_layers : s.sendKeyboardReport.layers = s.layers := by
  unfold sendKeyboardReport
  exact ite_layers (ite_layers rfl rfl) rfl

@[simp] theorem hostSystemSend_layers (c : BitVec 16) :
    (s.hostSystemSend c).layers = s.layers := ite_layers rfl rfl

@[simp] theorem hostConsumerSend_layers (c : BitVec 16) :
    (s.hostConsumerSend c).layers = s.layers := ite_layers rfl rfl

@[simp] theorem addKey_layers (c : BitVec 8) : (s.addKey c).layers = s.layers := rfl
@[simp] theorem delKey_layers (c : BitVec 8) : (s.delKey c).layers = s.layers := rfl
@[simp] theorem addMods_layers (m : BitVec 8) : (s.addMods m).layers = s.layers := rfl
@[simp] theorem delMods_layers (m : BitVec 8) : (s.delMods m).layers = s.layers := rfl
@[simp] theorem addWeakMods_layers (m : BitVec 8) : (s.addWeakMods m).layers = s.layers := rfl
@[simp] theorem delWeakMods_layers (m : BitVec 8) : (s.delWeakMods m).layers = s.layers := rfl
@[simp] theorem setOneshotMods_layers (m : BitVec 8) :
    (s.setOneshotMods m).layers = s.layers := rfl
@[simp] theorem clearOneshotMods_layers : s.clearOneshotMods.layers = s.layers := rfl

@[simp] theorem tapLock_layers (c : BitVec 8) : (s.tapLock c).layers = s.layers := by
  simp [tapLock]

@[simp] theorem registerCode_layers (c : BitVec 8) : (s.registerCode c).layers = s.layers := by
  unfold registerCode
  split
  · rfl
  · split
    · split <;> simp
    · repeat' split
      all_goals simp

@[simp] theorem unregisterCode_layers (c : BitVec 8) :
    (s.unregisterCode c).layers = s.layers := by
  unfold unregisterCode
  split
  · rfl
  · split
    · split <;> simp
    · repeat' split
      all_goals simp

@[simp] theorem registerMods_layers (m : BitVec 8) : (s.registerMods m).layers = s.layers := by
  unfold registerMods
  split <;> simp

@[simp] theorem unregisterMods_layers (m : BitVec 8) :
    (s.unregisterMods m).layers = s.layers := by
  unfold unregisterMods
  split <;> simp

@[simp] theorem clearKeyboard_layers : s.clearKeyboard.layers = s.layers := by
  have hmouse : ∀ t : ActionState, t.mousekeySend.layers = t.layers := fun _ => rfl
  simp only [clearKeyboard, clearKeyboardButMods, hostConsumerSend_layers, hostSystemSend_layers,
    hmouse]
  exact sendKeyboardReport_layers _

@[simp] theorem doMods_layers (m code : BitVec 8) (pressed : Bool) :
    (s.doMods m code pressed).layers = s.layers := by
  unfold doMods
  split
  · split <;> simp
  · split <;> simp

@[simp] theorem doOneshot_layers (m : BitVec 8) (pressed : Bool) (n : Nat) :
    (s.doOneshot m pressed n).layers = s.layers := by
  unfold doOneshot
  split
  · split <;> simp
  · split <;> simp

@[simp] theorem doTapToggleMods_layers (m : BitVec 8) (pressed : Bool) (n : Nat) :
    (s.doTapToggleMods m pressed n).layers = s.layers := by
  unfold doTapToggleMods
  split
  · split
    · split <;> simp
    · rfl
  · split <;> simp

@[simp] theorem doModsTap_layers (m code : BitVec 8) (pressed : Bool) (tap : Tap) :
    (s.doModsTap m code pressed tap).layers = s.layers := by
  unfold doModsTap
  split
  · split
    · split <;> simp
    · simp
  · split <;> simp

@[simp] theorem doUsage_layers (a : Action) (pressed : Bool) :
    (s.doUsage a pressed).layers = s.layers := by
  unfold doUsage
  dsimp only
  split <;> simp

@[simp] theorem tapMods_layers (a : Action) (pressed : Bool) (tap : Tap) (m : BitVec 8) :
    (perform.tapMods s a pressed tap m).layers = s.layers := by
  unfold perform.tapMods
  split
  · simp
  · split <;> simp

/-- Only the layer actions touch the layers. -/
theorem perform_layers_of_kind (a : Action) (pressed : Bool) (tap : Tap)
    (hl : a.kindId ≠ .layer) (ht : a.kindId ≠ .layerTap) (he : a.kindId ≠ .layerTapExt) :
    (s.perform a pressed tap).layers = s.layers := by
  unfold perform
  cases hk : a.kindId with
  | mousekey => rfl
  | command =>
    dsimp only
    split <;> simp
  | layer => exact absurd hk hl
  | layerTap => exact absurd hk ht
  | layerTapExt => exact absurd hk he
  | _ => simp

/-- A modifier tap key does not touch the layers. -/
theorem perform_layers_of_modsTap (a : Action) (pressed : Bool) (tap : Tap)
    (h : a.isModsTapKey = true) : (s.perform a pressed tap).layers = s.layers := by
  simp only [Action.isModsTapKey, Bool.and_eq_true, Bool.or_eq_true, beq_iff_eq] at h
  refine perform_layers_of_kind s a pressed tap ?_ ?_ ?_ <;>
    rcases h.1.1 with hk | hk <;> simp [hk]

/-! ## The layer actions -/

/-- `layer_pressed` is not one of the layers an action switches. -/
@[simp] theorem doLayer_layerPressed (a : Action) (pressed : Bool) :
    (s.doLayer a pressed).layerPressed = s.layerPressed := by
  unfold doLayer
  dsimp only
  repeat' split
  all_goals rfl

theorem ite_layerPressed {p : Prop} [Decidable p] {a b : ActionState} {f : KeyPos → BitVec 8}
    (ha : a.layerPressed = f) (hb : b.layerPressed = f) :
    (if p then a else b).layerPressed = f := by
  split
  · exact ha
  · exact hb

@[simp] theorem doLayerTap_layerPressed (val : Nat) (code : BitVec 8) (pressed : Bool) (n : Nat) :
    (s.doLayerTap val code pressed n).layerPressed = s.layerPressed := by
  have hmods : ∀ m, ((s.layerOn val).registerMods m).layerPressed = s.layerPressed ∧
      ((s.layerOff val).unregisterMods m).layerPressed = s.layerPressed := fun m =>
    ⟨(layers_eq_iff.mp (registerMods_layers _ m)).2.2,
      (layers_eq_iff.mp (unregisterMods_layers _ m)).2.2⟩
  have hregister := (layers_eq_iff.mp (registerCode_layers s code)).2.2
  have hunregister := (layers_eq_iff.mp (unregisterCode_layers s code)).2.2
  unfold doLayerTap
  refine ite_layerPressed (ite_layerPressed (hmods _).1 (hmods _).2) ?_
  refine ite_layerPressed
    (ite_layerPressed (ite_layerPressed rfl rfl) (ite_layerPressed rfl rfl)) ?_
  refine ite_layerPressed (ite_layerPressed rfl rfl) ?_
  refine ite_layerPressed (ite_layerPressed rfl rfl) ?_
  refine ite_layerPressed (ite_layerPressed rfl rfl) ?_
  exact ite_layerPressed (ite_layerPressed hregister rfl) (ite_layerPressed hunregister rfl)

/-- No action writes `layer_pressed`. -/
theorem perform_layerPressed (a : Action) (pressed : Bool) (tap : Tap) :
    (s.perform a pressed tap).layerPressed = s.layerPressed := by
  by_cases hk : a.kindId = .layer ∨ a.kindId = .layerTap ∨ a.kindId = .layerTapExt
  · unfold perform
    rcases hk with hk | hk | hk <;> simp [hk]
  · simp only [not_or] at hk
    exact (layers_eq_iff.mp (perform_layers_of_kind s a pressed tap hk.1 hk.2.1 hk.2.2)).2.2

theorem clearKeyboard_layerPressed : s.clearKeyboard.layerPressed = s.layerPressed :=
  (layers_eq_iff.mp s.clearKeyboard_layers).2.2

variable {s} {s' : ActionState}

theorem ite_layers_congr {p : Prop} [Decidable p] {a b a' b' : ActionState}
    (ha : a.layers = a'.layers) (hb : b.layers = b'.layers) :
    (if p then a else b).layers = (if p then a' else b').layers := by
  split
  · exact ha
  · exact hb

/-- What a layer action does to the layers depends on the layers only. -/
theorem doLayer_layers_congr (h : s.layers = s'.layers) (a : Action) (pressed : Bool) :
    (s.doLayer a pressed).layers = (s'.doLayer a pressed).layers := by
  obtain ⟨hl, hd, hp⟩ := layers_eq_iff.mp h
  unfold doLayer
  dsimp only
  repeat' split
  all_goals simp [layers, defaultLayerAnd, defaultLayerOr, defaultLayerXor, layerAnd, layerOr,
    layerXor, hl, hd, hp]

/-- What a layer tap does to the layers depends on the layers only. -/
theorem doLayerTap_layers_congr (h : s.layers = s'.layers) (val : Nat) (code : BitVec 8)
    (pressed : Bool) (n : Nat) :
    (s.doLayerTap val code pressed n).layers = (s'.doLayerTap val code pressed n).layers := by
  obtain ⟨hl, hd, hp⟩ := layers_eq_iff.mp h
  have hon : (s.layerOn val).layers = (s'.layerOn val).layers := by
    simp [layers, layerOn, hl, hd, hp]
  have hoff : (s.layerOff val).layers = (s'.layerOff val).layers := by
    simp [layers, layerOff, hl, hd, hp]
  have hinvert : (s.layerInvert val).layers = (s'.layerInvert val).layers := by
    simp [layers, layerInvert, hl, hd, hp]
  have hmove : (s.layerMove val).layers = (s'.layerMove val).layers := by
    simp [layers, layerMove, hd, hp]
  have hclear : s.layerClear.layers = s'.layerClear.layers := by
    simp [layers, layerClear, hd, hp]
  have hmods : ∀ m,
      ((s.layerOn val).registerMods m).layers = ((s'.layerOn val).registerMods m).layers ∧
        ((s.layerOff val).unregisterMods m).layers =
          ((s'.layerOff val).unregisterMods m).layers := by
    simp [hon, hoff]
  have hcode : (s.registerCode code).layers = (s'.registerCode code).layers ∧
      (s.unregisterCode code).layers = (s'.unregisterCode code).layers := by
    simp [h]
  -- branch by branch, as the action has them
  unfold doLayerTap
  refine ite_layers_congr (ite_layers_congr (hmods _).1 (hmods _).2) ?_
  refine ite_layers_congr (ite_layers_congr (ite_layers_congr hinvert h)
    (ite_layers_congr hinvert h)) ?_
  refine ite_layers_congr (ite_layers_congr hon hoff) ?_
  refine ite_layers_congr (ite_layers_congr hoff hon) ?_
  refine ite_layers_congr (ite_layers_congr hmove hclear) ?_
  exact ite_layers_congr (ite_layers_congr hcode.1 hon) (ite_layers_congr hcode.2 hoff)

/-- What an action makes of the layers depends on the layers and the tap
count. -/
theorem perform_layers_congr (h : s.layers = s'.layers) (a : Action) (pressed : Bool)
    {tap tap' : Tap} (hc : tap.count = tap'.count) :
    (s.perform a pressed tap).layers = (s'.perform a pressed tap').layers := by
  by_cases hk : a.kindId = .layer ∨ a.kindId = .layerTap ∨ a.kindId = .layerTapExt
  · unfold perform
    rcases hk with hk | hk | hk
    · simp only [hk]
      exact doLayer_layers_congr h a pressed
    · simp only [hk, hc]
      exact doLayerTap_layers_congr h _ _ _ _
    · simp only [hk, hc]
      exact doLayerTap_layers_congr h _ _ _ _
  · simp only [not_or] at hk
    rw [perform_layers_of_kind s a pressed tap hk.1 hk.2.1 hk.2.2,
      perform_layers_of_kind s' a pressed tap' hk.1 hk.2.1 hk.2.2, h]

end ActionState

/-! ## The releases that act on the layers -/

/-- Whether the release of a key with this action acts on the layers. -/
def Action.movesLayers (a : Action) (tapCount : Nat) : Bool :=
  match a.kindId with
  | .layer => a.bitopOn == 0 || a.bitopOn &&& 2 != 0
  | .layerTap | .layerTapExt =>
    if isLayerMods a.layerTapCode then true
    else if a.layerTapCode = opTapToggle then tapCount ≤ tappingToggle
    else
      a.layerTapCode == opOnOff || a.layerTapCode == opOffOn || a.layerTapCode == opSetClear ||
        tapCount == 0
  | _ => false

namespace ActionState

variable (s : ActionState)

/-- A bit operation that names the press only does nothing on the release. -/
theorem doLayer_layers_of_release (a : Action) (h0 : a.bitopOn ≠ 0) (h2 : a.bitopOn &&& 2 = 0) :
    (s.doLayer a false).layers = s.layers := by
  unfold doLayer
  dsimp only
  rw [if_neg h0, if_neg fun h => h h2]

/-- The release of a layer tap that was tapped does nothing to the layers. -/
theorem doLayerTap_layers_of_release (val : Nat) (code : BitVec 8) (n : Nat)
    (hm : isLayerMods code = false) (ht : code = opTapToggle → tappingToggle < n)
    (hk : code ≠ opTapToggle →
      code ≠ opOnOff ∧ code ≠ opOffOn ∧ code ≠ opSetClear ∧ n ≠ 0) :
    (s.doLayerTap val code false n).layers = s.layers := by
  unfold doLayerTap
  rw [hm]
  by_cases hc : code = opTapToggle
  · simp [hc, Nat.not_le_of_gt (ht hc)]
  · obtain ⟨h1, h2, h3, hn⟩ := hk hc
    simp [hc, h1, h2, h3, Nat.pos_of_ne_zero hn]

/-- No release acts on the layers but those that `movesLayers` names. -/
theorem perform_layers_of_release (a : Action) (tap : Tap) (h : a.movesLayers tap.count = false) :
    (s.perform a false tap).layers = s.layers := by
  have htap : isLayerMods a.layerTapCode = false →
      (a.layerTapCode = opTapToggle → tappingToggle < tap.count) →
      (a.layerTapCode ≠ opTapToggle → a.layerTapCode ≠ opOnOff ∧ a.layerTapCode ≠ opOffOn ∧
        a.layerTapCode ≠ opSetClear ∧ tap.count ≠ 0) →
      (s.doLayerTap a.layerTapVal.toNat a.layerTapCode false tap.count).layers = s.layers :=
    doLayerTap_layers_of_release s _ _ _
  unfold Action.movesLayers at h
  by_cases hk : a.kindId = .layer ∨ a.kindId = .layerTap ∨ a.kindId = .layerTapExt
  · unfold perform
    rcases hk with hk | hk | hk
    · simp only [hk, Bool.or_eq_false_iff, beq_eq_false_iff_ne, bne_eq_false_iff_eq] at h ⊢
      exact doLayer_layers_of_release s a h.1 h.2
    all_goals
      simp only [hk] at h ⊢
      split at h
      · simp at h
      · next hm =>
        refine htap (by simpa using hm) (fun hc => ?_) fun hc => ?_
        · simpa [hc] using h
        · simpa [hc, and_assoc] using h
  · simp only [not_or] at hk
    exact perform_layers_of_kind s a false tap hk.1 hk.2.1 hk.2.2

end ActionState

end Ch583Kbd.Tmk
