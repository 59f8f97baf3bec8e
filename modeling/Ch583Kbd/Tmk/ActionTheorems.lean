/-
Ch583Kbd.Tmk.ActionTheorems — what the functions of the action layer do
not touch and do not read.

`config` is what no call of `process_action` changes. `s.after pre lt` is
`s` with an older history: `pre` was sent before, and `mousekey_send` ran
last at `lt`. Every function gives the same reports from both, so what was
sent is never read; the time of the last `mousekey_send` is only read by
`mousekey_task`, while a mouse key moves the pointer.
-/
import Ch583Kbd.Tmk.Action

namespace Ch583Kbd.Tmk

namespace ActionState

/-- `keyboard_protocol`, `keyboard_nkro` and the mouse parameters. -/
def config (s : ActionState) : BitVec 8 × Bool × MouseParams :=
  (s.keyboardProtocol, s.keyboardNkro, s.mouse.params)

/-- The same state with an older history. -/
def after (pre : List HostReport) (lt : BitVec 16) (s : ActionState) : ActionState :=
  { s with sent := pre ++ s.sent, mouse := { s.mouse with lastTimer := lt } }

variable {pre : List HostReport} {lt : BitVec 16} {s : ActionState}

/-- A function that leaves the configuration and the mouse alone, and does
not read the history. -/
structure Plain (f : ActionState → ActionState) : Prop where
  config : ∀ s, (f s).config = s.config
  mouse : ∀ s, (f s).mouse = s.mouse
  after : ∀ pre lt s, f (s.after pre lt) = (f s).after pre lt

theorem Plain.comp {f g : ActionState → ActionState} (hg : Plain g) (hf : Plain f) :
    Plain fun s => g (f s) where
  config s := (hg.config _).trans (hf.config s)
  mouse s := (hg.mouse _).trans (hf.mouse s)
  after pre lt s := by rw [hf.after, hg.after]

theorem plain_id : Plain fun s => s := ⟨fun _ => rfl, fun _ => rfl, fun _ _ _ => rfl⟩

/-- A choice that does not depend on the history. -/
theorem Plain.ite {p : ActionState → Prop} [∀ s, Decidable (p s)] {f g : ActionState → ActionState}
    (hp : ∀ pre lt s, p (s.after pre lt) ↔ p s) (hf : Plain f) (hg : Plain g) :
    Plain fun s => if p s then f s else g s where
  config s := by
    split
    · exact hf.config s
    · exact hg.config s
  mouse s := by
    split
    · exact hf.mouse s
    · exact hg.mouse s
  after pre lt s := by
    simp only [hp, hf.after, hg.after]
    split <;> rfl

theorem Plain.const_ite {p : Prop} [Decidable p] {f g : ActionState → ActionState}
    (hf : Plain f) (hg : Plain g) : Plain fun s => if p then f s else g s :=
  Plain.ite (fun _ _ _ => Iff.rfl) hf hg

/-! ## The functions that send -/

/-- Sending a report only appends it to the history. -/
theorem plain_send (r : HostReport) : Plain (·.send r) where
  config _ := rfl
  mouse _ := rfl
  after pre lt s := by
    simp [send, after]

theorem plain_hostKeyboardSend : Plain hostKeyboardSend where
  config _ := rfl
  mouse _ := rfl
  after pre lt s := by simp [hostKeyboardSend, send, after]

theorem plain_hostSystemSend (c : BitVec 16) : Plain (·.hostSystemSend c) where
  config s := by unfold hostSystemSend; split <;> rfl
  mouse s := by unfold hostSystemSend; split <;> rfl
  after pre lt s := by
    have hlast : (s.after pre lt).lastSystemReport = s.lastSystemReport := rfl
    simp only [hostSystemSend, hlast]
    split
    · rfl
    · simp [send, after]

theorem plain_hostConsumerSend (c : BitVec 16) : Plain (·.hostConsumerSend c) where
  config s := by unfold hostConsumerSend; split <;> rfl
  mouse s := by unfold hostConsumerSend; split <;> rfl
  after pre lt s := by
    have hlast : (s.after pre lt).lastConsumerReport = s.lastConsumerReport := rfl
    simp only [hostConsumerSend, hlast]
    split
    · rfl
    · simp [send, after]

/-- Changing the keyboard report is plain when the change does not read the
history. -/
theorem plain_setReport (f : ActionState → KeyReport) (hf : ∀ pre lt s, f (s.after pre lt) = f s) :
    Plain fun s => { s with keyReport := f s } where
  config _ := rfl
  mouse _ := rfl
  after pre lt s := by
    rw [hf]
    rfl

theorem plain_clearOneshotMods : Plain clearOneshotMods :=
  ⟨fun _ => rfl, fun _ => rfl, fun _ _ _ => rfl⟩

/-- Sending the keyboard report, its one-shot modifiers included, is plain. -/
theorem plain_sendKeyboardReport : Plain sendKeyboardReport := by
  refine plain_hostKeyboardSend.comp (Plain.ite (fun _ _ _ => Iff.rfl) ?_
    (plain_setReport _ fun _ _ _ => rfl))
  exact (Plain.ite (p := fun s => s.keyReport.hasAnykey ≠ 0) (fun _ _ _ => Iff.rfl)
    plain_clearOneshotMods plain_id).comp
    (plain_setReport (fun s => s.keyReport.setMods (s.realMods ||| s.weakMods ||| s.oneshotMods))
      fun _ _ _ => rfl)

/-! ## Modifiers and keys -/

theorem plain_addMods (m : BitVec 8) : Plain (·.addMods m) :=
  ⟨fun _ => rfl, fun _ => rfl, fun _ _ _ => rfl⟩
theorem plain_delMods (m : BitVec 8) : Plain (·.delMods m) :=
  ⟨fun _ => rfl, fun _ => rfl, fun _ _ _ => rfl⟩
theorem plain_addWeakMods (m : BitVec 8) : Plain (·.addWeakMods m) :=
  ⟨fun _ => rfl, fun _ => rfl, fun _ _ _ => rfl⟩
theorem plain_delWeakMods (m : BitVec 8) : Plain (·.delWeakMods m) :=
  ⟨fun _ => rfl, fun _ => rfl, fun _ _ _ => rfl⟩
theorem plain_setOneshotMods (m : BitVec 8) : Plain (·.setOneshotMods m) :=
  ⟨fun _ => rfl, fun _ => rfl, fun _ _ _ => rfl⟩
theorem plain_addKey (c : BitVec 8) : Plain (·.addKey c) :=
  ⟨fun _ => rfl, fun _ => rfl, fun _ _ _ => rfl⟩
theorem plain_delKey (c : BitVec 8) : Plain (·.delKey c) :=
  ⟨fun _ => rfl, fun _ => rfl, fun _ _ _ => rfl⟩

theorem plain_tapLock (c : BitVec 8) : Plain (·.tapLock c) :=
  plain_sendKeyboardReport.comp <| (plain_delKey c).comp <|
    plain_sendKeyboardReport.comp (plain_addKey c)

/-- `register_code` is plain, for every kind of code. -/
theorem plain_registerCode (code : BitVec 8) : Plain (·.registerCode code) := by
  unfold registerCode
  refine Plain.const_ite plain_id ?_
  cases lockingKey code with
  | some cl => exact Plain.ite (fun _ _ _ => Iff.rfl) plain_id (plain_tapLock cl.1)
  | none =>
    exact Plain.const_ite (plain_sendKeyboardReport.comp (plain_addKey code)) <|
      Plain.const_ite (plain_sendKeyboardReport.comp (plain_addMods _)) <|
      Plain.const_ite (plain_hostSystemSend _) <|
      Plain.const_ite (plain_hostConsumerSend _) plain_id

theorem plain_unregisterCode (code : BitVec 8) : Plain (·.unregisterCode code) := by
  unfold unregisterCode
  refine Plain.const_ite plain_id ?_
  cases lockingKey code with
  | some cl => exact Plain.ite (fun _ _ _ => Iff.rfl) plain_id (plain_tapLock cl.1)
  | none =>
    exact Plain.const_ite (plain_sendKeyboardReport.comp (plain_delKey code)) <|
      Plain.const_ite (plain_sendKeyboardReport.comp (plain_delMods _)) <|
      Plain.const_ite (plain_hostSystemSend _) <|
      Plain.const_ite (plain_hostConsumerSend _) plain_id

theorem plain_registerMods (m : BitVec 8) : Plain (·.registerMods m) :=
  Plain.const_ite (plain_sendKeyboardReport.comp (plain_addMods m)) plain_id

theorem plain_unregisterMods (m : BitVec 8) : Plain (·.unregisterMods m) :=
  Plain.const_ite (plain_sendKeyboardReport.comp (plain_delMods m)) plain_id

/-! ## Layers -/

/-- A change of the two layer words alone is plain. -/
theorem plain_layers (f g : BitVec 32 → BitVec 32) :
    Plain fun s => { s with
      layerState := f s.layerState, defaultLayerState := g s.defaultLayerState } :=
  ⟨fun _ => rfl, fun _ => rfl, fun _ _ _ => rfl⟩

theorem plain_layerOn (l : Nat) : Plain (·.layerOn l) := plain_layers (· ||| _) id
theorem plain_layerOff (l : Nat) : Plain (·.layerOff l) := plain_layers (· &&& _) id
theorem plain_layerInvert (l : Nat) : Plain (·.layerInvert l) := plain_layers (· ^^^ _) id
theorem plain_layerMove (l : Nat) : Plain (·.layerMove l) := plain_layers (fun _ => _) id
theorem plain_layerClear : Plain layerClear := plain_layers (fun _ => 0) id
theorem plain_layerAnd (m : BitVec 32) : Plain (·.layerAnd m) := plain_layers (· &&& m) id
theorem plain_layerOr (m : BitVec 32) : Plain (·.layerOr m) := plain_layers (· ||| m) id
theorem plain_layerXor (m : BitVec 32) : Plain (·.layerXor m) := plain_layers (· ^^^ m) id
theorem plain_defaultLayerAnd (m : BitVec 32) : Plain (·.defaultLayerAnd m) :=
  plain_layers id (· &&& m)
theorem plain_defaultLayerOr (m : BitVec 32) : Plain (·.defaultLayerOr m) :=
  plain_layers id (· ||| m)
theorem plain_defaultLayerXor (m : BitVec 32) : Plain (·.defaultLayerXor m) :=
  plain_layers id (· ^^^ m)

/-! ## The cases of `process_action` -/

theorem plain_doMods (m code : BitVec 8) (pressed : Bool) : Plain (·.doMods m code pressed) := by
  unfold doMods
  refine Plain.const_ite ?_ ?_
  · exact (plain_registerCode code).comp
      (Plain.const_ite (plain_sendKeyboardReport.comp (plain_addWeakMods m)) plain_id)
  · exact (Plain.const_ite (plain_sendKeyboardReport.comp (plain_delWeakMods m)) plain_id).comp
      (plain_unregisterCode code)

theorem plain_doOneshot (m : BitVec 8) (pressed : Bool) (n : Nat) :
    Plain (·.doOneshot m pressed n) := by
  unfold doOneshot
  refine Plain.const_ite (Plain.const_ite (plain_setOneshotMods m) (plain_registerMods m)) ?_
  exact Plain.const_ite plain_id ((plain_unregisterMods m).comp plain_clearOneshotMods)

theorem plain_doTapToggleMods (m : BitVec 8) (pressed : Bool) (n : Nat) :
    Plain (·.doTapToggleMods m pressed n) := by
  unfold doTapToggleMods
  refine Plain.const_ite (Plain.const_ite ?_ plain_id)
    (Plain.const_ite (plain_unregisterMods m) plain_id)
  exact Plain.ite (fun _ _ _ => Iff.rfl) (plain_unregisterMods m) (plain_registerMods m)

theorem plain_doModsTap (m code : BitVec 8) (pressed : Bool) (tap : Tap) :
    Plain (·.doModsTap m code pressed tap) := by
  unfold doModsTap
  refine Plain.const_ite (Plain.const_ite ?_ (plain_registerMods m)) ?_
  · exact Plain.const_ite (plain_registerMods m) (plain_registerCode code)
  · exact Plain.const_ite (plain_unregisterCode code) (plain_unregisterMods m)

theorem plain_doUsage (a : Action) (pressed : Bool) : Plain (·.doUsage a pressed) := by
  unfold doUsage
  dsimp only
  split
  · exact plain_hostSystemSend _
  · exact plain_hostConsumerSend _
  · exact plain_id

theorem plain_doLayer (a : Action) (pressed : Bool) : Plain (·.doLayer a pressed) := by
  unfold doLayer
  dsimp only
  refine Plain.const_ite (Plain.const_ite ?_ plain_id) (Plain.const_ite ?_ plain_id)
  · split
    · exact plain_defaultLayerAnd _
    · exact plain_defaultLayerOr _
    · exact plain_defaultLayerXor _
    · exact (plain_defaultLayerOr _).comp (plain_defaultLayerAnd _)
  · split
    · exact plain_layerAnd _
    · exact plain_layerOr _
    · exact plain_layerXor _
    · exact (plain_layerOr _).comp (plain_layerAnd _)

theorem plain_doLayerTap (val : Nat) (code : BitVec 8) (pressed : Bool) (n : Nat) :
    Plain (·.doLayerTap val code pressed n) := by
  unfold doLayerTap
  have hon := plain_layerOn val
  have hoff := plain_layerOff val
  have hinv := plain_layerInvert val
  refine Plain.const_ite (Plain.const_ite ((plain_registerMods _).comp hon)
    ((plain_unregisterMods _).comp hoff)) ?_
  refine Plain.const_ite (Plain.const_ite (Plain.const_ite hinv plain_id)
    (Plain.const_ite hinv plain_id)) ?_
  refine Plain.const_ite (Plain.const_ite hon hoff) ?_
  refine Plain.const_ite (Plain.const_ite hoff hon) ?_
  refine Plain.const_ite (Plain.const_ite (plain_layerMove val) plain_layerClear) ?_
  exact Plain.const_ite (Plain.const_ite (plain_registerCode code) hon)
    (Plain.const_ite (plain_unregisterCode code) hoff)

/-- The tap codes of a modifier action are plain. -/
theorem plain_tapMods (a : Action) (pressed : Bool) (tap : Tap) (m : BitVec 8) :
    Plain fun s => perform.tapMods s a pressed tap m := by
  unfold perform.tapMods
  refine Plain.const_ite (plain_doOneshot m pressed _) ?_
  exact Plain.const_ite (plain_doTapToggleMods m pressed _) (plain_doModsTap m _ pressed tap)

/-- Every action that is neither a mouse key nor the command leaves the
mouse alone. -/
theorem plain_perform (a : Action) (pressed : Bool) (tap : Tap)
    (hm : a.kindId ≠ .mousekey) (hc : a.kindId ≠ .command) : Plain (·.perform a pressed tap) := by
  unfold perform
  cases hk : a.kindId with
  | lmods => exact plain_doMods _ _ _
  | rmods => exact plain_doMods _ _ _
  | lmodsTap => exact plain_tapMods a pressed tap _
  | rmodsTap => exact plain_tapMods a pressed tap _
  | usage => exact plain_doUsage a pressed
  | mousekey => exact absurd hk hm
  | layer => exact plain_doLayer a pressed
  | layerTap => exact plain_doLayerTap _ _ _ _
  | layerTapExt => exact plain_doLayerTap _ _ _ _
  | command => exact absurd hk hc
  | macroPlay => exact plain_id
  | function => exact plain_id
  | backlight => exact plain_id
  | unknown => exact plain_id

theorem plain_track (K : Keymap) (e : KeyEvent) : Plain (·.track K e) := by
  unfold track
  exact Plain.const_ite ⟨fun _ => rfl, fun _ => rfl, fun _ _ _ => rfl⟩ plain_id

end ActionState

end Ch583Kbd.Tmk
