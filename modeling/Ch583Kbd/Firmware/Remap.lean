/-
Ch583Kbd.Firmware.Remap — keys that are down while the host rewrites the
keymap.

A press records the layer it was looked up in, not the action, and its
release is looked up again. `Held` says that every key that is down would
be released with the action it was pressed with. Key events and layer
changes keep that (`step_held`); a command keeps it if it leaves the
entries alone that the keys that are down were found in, which also means
not to switch between the two tables.
-/
import Ch583Kbd.Eeprom.Keymap
import Ch583Kbd.Firmware.FactoryKeymap
import Ch583Kbd.Tmk.HeldKeys
import Ch583Kbd.Tmk.LayerPressed
import Ch583Kbd.Usb.SingleKey

namespace Ch583Kbd.Firmware

open Ch583Kbd.Tmk Ch583Kbd.Lib Ch583Kbd.Lib.Block Ch583Kbd.Eeprom Ch583Kbd.Usb StorageType

variable (C : PageFlash.Cell (0xFF : Byte)) (img : Image)

/-! ## Runs with the presses in view -/

/-- The keys that are down: the action executed for the press, and whether
it was executed as a tap. -/
abbrev Downs := KeyPos → Option (Action × Bool)

/-- The keys down after a key event that is executed. -/
def Downs.record (down : Downs) (a : Action) (r : KeyRecord) : Downs := fun k =>
  if k = r.event.key then
    if r.event.pressed then some (a, (cancelTap a r).tap.count != 0) else none
  else down k

def watch (s : System) (down : Downs) : Event → Downs
  | .powerUp => fun _ => none
  | .key r =>
    if r.event.isNoEvent then down else down.record (s.act.actionOf (s.keymap img) r.event) r
  | _ => down

/-- `P` holds before every event of a run. -/
def EachStep (P : System → Downs → Event → Prop) (s : System) (down : Downs) : List Event → Prop
  | [] => True
  | e :: es => P s down e ∧
    ∀ s', s.step C img e = .ok s' → EachStep P s' (watch img s down e) es

/-- The release of a key executes the action of its press. -/
def SameAction (s : System) (down : Downs) : Event → Prop
  | .key r => r.event.isReleased = true → ∀ a tapped, down r.event.key = some (a, tapped) →
    s.act.actionOf (s.keymap img) r.event = a
  | _ => True

/-- After the release nothing is on that the press turned on. -/
def Undone (s : System) (down : Downs) : Event → Prop
  | .key r => r.event.isReleased = true → ∀ a tapped, down r.event.key = some (a, tapped) →
    ∀ x, a.turned tapped x → ¬ (s.processKey img r).act.On x
  | _ => True

/-- A command stays in its buffers, and with the bytes that it puts into
`keymap_block` the entries that the keys that are down were found in answer
as before. -/
def SparesHeld (s : System) (down : Downs) : Event → Prop
  | .recv command len data => (∃ h, hidOnRecv C img s.device command len data = .ok h) ∧
    ∀ offset bytes, keymapWrite command len data = some (offset, bytes) →
      ∀ k, (down k).isSome = true →
        actionForKey img (putBytes s.device.storage storageKeymap offset bytes)
          (s.act.layerPressed k) k = s.keymap img (s.act.layerPressed k) k
  | _ => True

/-- Every action executed is one that a release undoes, and a release comes
with a tap count above 0 exactly if its press was executed as a tap. -/
def Momentary (s : System) (down : Downs) : Event → Prop
  | .key r => r.event.isNoEvent = false →
    (s.act.actionOf (s.keymap img) r.event).ordinary = true ∧
    (r.event.pressed = false → ∀ a tapped, down r.event.key = some (a, tapped) →
      (r.tap.count != 0) = tapped)
  | .recv command _ _ => HidCommand.ofByte command ≠ some .enterDfu
  | _ => True

/-- A condition that gives `P` in the states of an invariant gives it in
every run from there. -/
theorem EachStep.of_invariant (inv : System → Downs → Prop) {cond P : System → Downs → Event → Prop}
    (hstep : ∀ s down e s', cond s down e → inv s down → s.step C img e = .ok s' →
      inv s' (watch img s down e))
    (hP : ∀ s down e, cond s down e → inv s down → P s down e) (events : List Event) :
    ∀ s down, inv s down → EachStep C img cond s down events → EachStep C img P s down events := by
  induction events with
  | nil => exact fun _ _ _ _ => trivial
  | cons e es ih =>
    intro s down hs hcond
    obtain ⟨hc, hrest⟩ := hcond
    refine ⟨hP s down e hc hs, ?_⟩
    intro s' hs'
    exact ih s' _ (hstep s down e s' hc hs hs') (hrest s' hs')

/-- Two conditions on every step of a run are one. -/
theorem EachStep.and {P Q : System → Downs → Event → Prop} (events : List Event) :
    ∀ {s down}, EachStep C img P s down events → EachStep C img Q s down events →
      EachStep C img (fun s down e => P s down e ∧ Q s down e) s down events := by
  induction events with
  | nil => exact fun _ _ => trivial
  | cons e es ih =>
    intro s down hp hq
    exact ⟨⟨hp.1, hq.1⟩, fun s' hs' => ih (hp.2 s' hs') (hq.2 s' hs')⟩

/-! ## The lookup of a release -/

theorem keymap_afterCommand (s : System) (h : Handled) :
    (s.afterCommand h).keymap img = actionForKey img h.device.storage := rfl

theorem layerPressed_afterCommand (s : System) (h : Handled) :
    (s.afterCommand h).act.layerPressed = s.act.layerPressed := by
  unfold System.afterCommand
  dsimp only
  split
  · exact ActionState.clearKeyboard_layerPressed s.act
  · rfl

/-- A key that is down would be released as it was pressed. -/
def Held (s : System) (down : Downs) : Prop :=
  ∀ k a tapped, down k = some (a, tapped) → s.keymap img (s.act.layerPressed k) k = a

/-- A key event records its layer as `store_or_get_action` does. -/
theorem processKey_layerPressed {s : System} {r : KeyRecord} (h : r.event.isNoEvent = false) :
    (s.processKey img r).act.layerPressed =
      (s.act.track (s.keymap img) r.event).layerPressed := by
  unfold System.processKey processAction
  simp only [h, Bool.false_eq_true, if_false]
  exact ActionState.perform_layerPressed _ _ _ _

/-- A key event keeps the record of the keys that are down. -/
theorem held_key {s : System} {down : Downs} (r : KeyRecord) (h : Held img s down) :
    Held img (s.processKey img r) (watch img s down (.key r)) := by
  cases hreal : r.event.isNoEvent with
  | true =>
    have hsame : s.processKey img r = s := by
      unfold System.processKey processAction
      rw [if_pos hreal]
    rw [hsame, watch, if_pos hreal]
    exact h
  | false =>
    rw [watch, if_neg (by simp [hreal])]
    intro k a tapped hk
    show s.keymap img ((s.processKey img r).act.layerPressed k) k = a
    rw [processKey_layerPressed img hreal]
    unfold Downs.record at hk
    by_cases heq : k = r.event.key
    · subst heq
      rw [if_pos rfl] at hk
      cases hp : r.event.pressed with
      | true =>
        rw [if_pos hp] at hk
        have hpressed : r.event.isPressed = true := r.event.isPressed_iff.mpr ⟨hreal, hp⟩
        rw [layerPressed_track_self (K := s.keymap img) s.act hpressed]
        exact congrArg Prod.fst (Option.some.inj hk)
      | false =>
        rw [if_neg (by simp [hp])] at hk
        cases hk
    · rw [if_neg heq] at hk
      rw [layerPressed_track_of_ne s.act (Ne.symm heq)]
      exact h k a tapped hk

/-- **Key events, layer changes and commands that spare the keys that are
down** keep their lookups. -/
theorem step_held (s : System) (down : Downs) (e : Event) (s' : System)
    (hspares : SparesHeld C img s down e) (h : Held img s down)
    (hstep : s.step C img e = .ok s') : Held img s' (watch img s down e) := by
  cases e with
  | powerUp =>
    intro k a tapped hk
    cases hk
  | key r =>
    cases hstep
    exact held_key img r h
  | layers layerState defaultLayerState =>
    cases hstep
    exact h
  | readings timer leds =>
    cases hstep
    exact h
  | recv command len data =>
    obtain ⟨handled, hrecv, rfl⟩ := step_recv C img hstep
    have hsame : ∀ k, (down k).isSome = true →
        actionForKey img handled.device.storage (s.act.layerPressed k) k =
          s.keymap img (s.act.layerPressed k) k := by
      intro k hk
      rcases hidOnRecv_keymapWrite img C s.device hrecv with
        ⟨hblock, hvalid⟩ | ⟨offset, bytes, hw, hafter⟩
      · exact actionForKey_congr img hblock hvalid _ k
      · rw [hafter]
        exact hspares.2 offset bytes hw k hk
    intro k a tapped hk
    have hdown : down k = some (a, tapped) := hk
    rw [keymap_afterCommand, layerPressed_afterCommand, hsame k (by rw [hdown]; rfl)]
    exact h k a tapped hdown

/-- In a record that is kept, a release answers the action of its press. -/
theorem sameAction_of_held (s : System) (down : Downs) (e : Event) (h : Held img s down) :
    SameAction img s down e := by
  cases e with
  | key r =>
    intro hrel a tapped hdown
    rw [actionOf_release s.act hrel]
    exact h r.event.key a tapped hdown
  | _ => exact trivial

/-- `SET_SINGLE_KEY` for another key spares the keys that are down, as long
as the stored keymap stays in use. -/
theorem spares_setSingleKey {s : System} {down : Downs} {layer : BitVec 8} {key : KeyPos}
    {keycode : BitVec 16} (hrange : InRange layer key) (hcode : keycode ≠ 0)
    (hvalid : s.device.storage.keymapValid = true)
    (hother : ∀ k, (down k).isSome = true → InRange (s.act.layerPressed k) k ∧
      ¬ (s.act.layerPressed k = layer ∧ k = key)) :
    SparesHeld C img s down (.recv 0x31 5 fun i => (keyData layer key keycode)[i]?) := by
  refine ⟨⟨_, (hidOnRecv_setSingleKey C img s.device layer key keycode).trans
    (setSingleKey_ok s.device keycode hrange)⟩, ?_⟩
  intro offset bytes hw k hk
  obtain ⟨rfl, rfl⟩ := Prod.mk.inj (Option.some.inj ((keymapWrite_setSingleKey keycode
    hrange).symm.trans hw))
  obtain ⟨hin, hne⟩ := hother k hk
  have hafter : (putKey s.device.storage layer key keycode).keymapValid = true :=
    (putKey_valid_iff s.device.storage keycode hrange).mpr (Or.inl hcode)
  show actionForKey img (putKey s.device.storage layer key keycode) _ k =
    actionForKey img s.device.storage _ k
  rw [actionForKey_inRange img _ hin, actionForKey_inRange img _ hin, if_pos hafter, if_pos hvalid,
    storedAction_putKey_other s.device.storage keycode hrange hin hne]

/-! ## What a release undoes -/

/-- A key event performs the action its lookup answers. -/
theorem processKey_act {s : System} {r : KeyRecord} (h : r.event.isNoEvent = false) :
    (s.processKey img r).act = (s.act.track (s.keymap img) r.event).perform
      (s.act.actionOf (s.keymap img) r.event) r.event.pressed r.tap := by
  unfold System.processKey processAction
  simp only [h, Bool.false_eq_true, if_false]

/-- An ordinary action keeps at most six codes in the report. -/
theorem sixKro_key {s : System} {r : KeyRecord}
    (hord : r.event.isNoEvent = false → (s.act.actionOf (s.keymap img) r.event).ordinary = true)
    (h : SixKro s.act) : SixKro (s.processKey img r).act := by
  cases hreal : r.event.isNoEvent with
  | true =>
    unfold System.processKey processAction
    rw [if_pos hreal]
    exact h
  | false =>
    rw [processKey_act img hreal]
    have htrack : SixKro (s.act.track (s.keymap img) r.event) := sixKro_track h r.event
    cases hp : r.event.pressed with
    | true =>
      have hadds := Action.perform_adds (hord hreal) r.tap _ decide_eq_true_iff
      exact hadds.sixKro _ htrack
    | false => exact (Action.perform_removes (hord hreal) r.tap).sixKro _ htrack

/-- The report stays in order while the actions are momentary. -/
theorem step_sixKro (s : System) (down : Downs) (e : Event) (s' : System)
    (hmom : Momentary img s down e) (h : SixKro s.act) (hstep : s.step C img e = .ok s') :
    SixKro s'.act := by
  cases e with
  | powerUp =>
    cases hstep
    exact sixKro_init
  | key r =>
    cases hstep
    exact sixKro_key img (fun hreal => (hmom hreal).1) h
  | layers layerState defaultLayerState =>
    cases hstep
    exact sixKro_of_report h rfl rfl
  | readings timer leds =>
    cases hstep
    exact sixKro_of_report h rfl rfl
  | recv command len data =>
    obtain ⟨handled, hrecv, rfl⟩ := step_recv C img hstep
    have hcleared : handled.cleared = false := by
      cases hidOnRecv_outcome img C s.device hrecv with
      | silent c cleared hc _ hclear =>
        rw [← Bool.not_eq_true]
        intro htrue
        exact hmom (hclear htrue ▸ hc)
      | _ => rfl
    unfold System.afterCommand
    rw [hcleared]
    exact h

/-- A release in a record that is kept takes back what the press put in. -/
theorem undone_of_held (s : System) (down : Downs) (e : Event) (hmom : Momentary img s down e)
    (h : Held img s down) (hsix : SixKro s.act) : Undone img s down e := by
  cases e with
  | key r =>
    intro hrel a tapped hdown x hx hon
    obtain ⟨hreal, hp⟩ := r.event.isReleased_iff.mp hrel
    have haction := sameAction_of_held img s down (.key r) h hrel a tapped hdown
    obtain ⟨hord, htap⟩ := hmom hreal
    rw [processKey_act img hreal, hp, haction] at hon
    rw [haction] at hord
    have hremoves := Action.perform_removes hord r.tap
    have hoff := (hremoves.on _ (sixKro_track hsix r.event) x hon).2
    rw [htap hp a tapped hdown] at hoff
    exact hoff hx
  | _ => exact trivial

/-- **While no command touches the entries of the keys that are down, every
release executes the action of its press**, and undoes it if the actions
are momentary. -/
theorem releases_match (s : System) (events : List Event)
    (hspares : EachStep C img (SparesHeld C img) s.powerUp (fun _ => none) events) :
    EachStep C img (SameAction img) s.powerUp (fun _ => none) events ∧
      (EachStep C img (Momentary img) s.powerUp (fun _ => none) events →
        EachStep C img (Undone img) s.powerUp (fun _ => none) events) := by
  have hheld : Held img s.powerUp fun _ => none := by
    intro k a tapped hk
    cases hk
  constructor
  · exact EachStep.of_invariant C img (Held img) (step_held C img)
      (fun s down e _ h => sameAction_of_held img s down e h) events _ _ hheld hspares
  · intro hmom
    refine EachStep.of_invariant C img (fun s down => Held img s down ∧ SixKro s.act)
      ?_ ?_ events _ _ ⟨hheld, sixKro_init⟩ (EachStep.and C img events hspares hmom)
    · intro s down e s' hc h hstep
      exact ⟨step_held C img s down e s' hc.1 h.1 hstep,
        step_sixKro C img s down e s' hc.2 h.2 hstep⟩
    · intro s down e hc h
      exact undone_of_held img s down e hc.2 h.1 h.2

/-! ## One key, one command -/

/-- A press or release of the first key of the matrix. -/
def firstKey (pressed : Bool) : KeyRecord :=
  { event := { key := ⟨0, 0⟩, pressed := pressed, time := 1 } }

/-- The first key is pressed, the host sets a key to 5, the first key is
released. -/
def setDuringPress (key : KeyPos) : List Event :=
  [.key (firstKey true), .recv 0x31 5 fun i => (keyData 0 key 0x0005)[i]?, .key (firstKey false)]

theorem topLayer_zero (K : Keymap) (key : KeyPos) (n : Nat) : topLayer K 0 key n = 0 := by
  induction n with
  | zero => rfl
  | succ n ih => simpa [topLayer] using ih

/-- After a power-up a key is looked up in layer 0. -/
theorem layer_first (s : System) :
    s.powerUp.act.currentLayerForKey (s.powerUp.keymap img) ⟨0, 0⟩ = 0 := by
  show topLayer (s.powerUp.keymap img) (0 ||| 0) ⟨0, 0⟩ 32 = 0
  exact topLayer_zero _ _ 32

theorem layerPressed_first (s : System) :
    (s.powerUp.processKey img (firstKey true)).act.layerPressed ⟨0, 0⟩ = 0 := by
  have hpressed : (firstKey true).event.isPressed = true := rfl
  rw [processKey_layerPressed img rfl]
  exact (layerPressed_track _ hpressed).trans (layer_first img s)

/-- The press of the first key is the only one in view. -/
theorem watch_first (s : System) (k : KeyPos) :
    watch img s (fun _ => none) (.key (firstKey true)) k =
      if k = ⟨0, 0⟩ then some (s.act.actionOf (s.keymap img) (firstKey true).event,
        (cancelTap (s.act.actionOf (s.keymap img) (firstKey true).event)
          (firstKey true)).tap.count != 0)
      else none := rfl

/-- Setting another key while the stored keymap is in use. -/
theorem spares_setDuringPress (s : System) (h : s.powerUp.device.storage.keymapValid = true) :
    EachStep C img (SparesHeld C img) s.powerUp (fun _ => none) (setDuringPress ⟨0, 1⟩) := by
  constructor
  · exact trivial
  · intro s1 h1
    obtain rfl : s.powerUp.processKey img (firstKey true) = s1 := Except.ok.inj h1
    have hvalid : (s.powerUp.processKey img (firstKey true)).device.storage.keymapValid = true := h
    have hrange : InRange 0 ⟨0, 1⟩ := by decide
    constructor
    · apply spares_setSingleKey C img hrange (by decide) hvalid
      intro k hk
      rw [watch_first] at hk
      by_cases hfirst : k = ⟨0, 0⟩
      · subst hfirst
        rw [layerPressed_first]
        decide
      · rw [if_neg hfirst] at hk
        cases hk
    · intro s2 _
      exact ⟨trivial, fun _ _ => trivial⟩

/-- The same run is momentary if the first key is an A. -/
theorem momentary_setDuringPress (s : System) (h : s.powerUp.device.storage.keymapValid = true)
    (hletter : s.powerUp.keymap img 0 ⟨0, 0⟩ = ⟨0x0004⟩) :
    EachStep C img (Momentary img) s.powerUp (fun _ => none) (setDuringPress ⟨0, 1⟩) := by
  have hfirst : InRange 0 ⟨0, 0⟩ := by decide
  have hrange : InRange 0 ⟨0, 1⟩ := by decide
  have hpress : s.powerUp.act.actionOf (s.powerUp.keymap img) (firstKey true).event = ⟨0x0004⟩ := by
    rw [actionOf_press _ (show (firstKey true).event.isPressed = true from rfl)]
    show s.powerUp.keymap img (s.powerUp.act.currentLayerForKey _ ⟨0, 0⟩) ⟨0, 0⟩ = _
    rw [layer_first, hletter]
  have hafter : actionForKey img (putKey s.powerUp.device.storage 0 ⟨0, 1⟩ 0x0005) 0 ⟨0, 0⟩ =
      ⟨0x0004⟩ := by
    have hvalid := (putKey_valid_iff s.powerUp.device.storage 0x0005 hrange).mpr
      (Or.inl (by decide))
    rw [System.keymap, actionForKey_inRange img _ hfirst, if_pos h] at hletter
    rw [actionForKey_inRange img _ hfirst, if_pos hvalid,
      storedAction_putKey_other _ _ hrange hfirst (by decide), hletter]
  refine ⟨fun _ => ⟨by rw [hpress]; decide, fun hp => Bool.noConfusion hp⟩, fun s1 h1 => ?_⟩
  obtain rfl : s.powerUp.processKey img (firstKey true) = s1 := Except.ok.inj h1
  have hcommand : HidCommand.ofByte 0x31 ≠ some .enterDfu := by decide
  refine ⟨hcommand, fun s2 h2 => ⟨fun _ => ⟨?_, fun _ a tapped hdown => ?_⟩, fun _ _ => trivial⟩⟩
  · rw [step_recv_ok C img ((hidOnRecv_setSingleKey C img
      (s.powerUp.processKey img (firstKey true)).device 0 ⟨0, 1⟩ 0x0005).trans
        (setSingleKey_ok _ 0x0005 hrange))] at h2
    obtain rfl := Except.ok.inj h2
    rw [actionOf_release _ (show (firstKey false).event.isReleased = true from rfl),
      keymap_afterCommand, layerPressed_afterCommand]
    show (actionForKey img (putKey s.powerUp.device.storage 0 ⟨0, 1⟩ 0x0005)
      ((s.powerUp.processKey img (firstKey true)).act.layerPressed ⟨0, 0⟩) ⟨0, 0⟩).ordinary = true
    rw [layerPressed_first, hafter]
    decide
  · -- the press was no tap
    have hpressed : watch img s.powerUp (fun _ => none) (.key (firstKey true)) ⟨0, 0⟩ =
      some (a, tapped) := hdown
    rw [watch_first, if_pos rfl, hpress] at hpressed
    exact congrArg Prod.snd (Option.some.inj hpressed)

/-- A keyboard with a stored keymap, in which the first key is an A and no
other key has an action. -/
def storedLetter : System := { device := { flash := fun i => if i = 0 then 0x04 else 0 } }

theorem storedLetter_byte {i : Nat} (hi : i < blockSize storageKeymap) :
    (storedLetter.powerUp.device.storage.block storageKeymap)[i] = if i = 0 then 0x04 else 0 := by
  have hblock : storedLetter.powerUp.device.storage.block storageKeymap =
      flashBlock storedLetter.device.flash storageKeymap :=
    storageRead_block false {} _ (keymap_mem false)
  simp only [hblock, flashBlock, Vector.getElem_ofFn]
  rw [show storageP storageKeymap + i = i from Nat.zero_add i]
  rfl

/-- The keymap that holds one letter passes for a stored one. -/
theorem storedLetter_valid : storedLetter.powerUp.device.storage.keymapValid = true := by
  have hsize : 0 < blockSize storageKeymap := by decide
  have hfirst : (flashBlock storedLetter.device.flash storageKeymap)[0] = 0x04 := by
    simp only [flashBlock, Vector.getElem_ofFn]
    rfl
  refine (storageRead_valid false {} storedLetter.device.flash).trans ?_
  rw [Vector.any_eq_true]
  exact ⟨0, by decide, by rw [hfirst]; decide⟩

/-- The first key of that keymap answers the letter. -/
theorem storedLetter_action : storedLetter.powerUp.keymap img 0 ⟨0, 0⟩ = ⟨0x0004⟩ := by
  have hlo := (storedByte_of_lt storedLetter.powerUp.device.storage (i := 0) (by decide)).trans
    (storedLetter_byte (by decide))
  have hhi := (storedByte_of_lt storedLetter.powerUp.device.storage (i := 1) (by decide)).trans
    (storedLetter_byte (by decide))
  rw [System.keymap, actionForKey_inRange img _ (by decide), if_pos storedLetter_valid,
    storedAction, show (keyIndex 0 0 0).toNat = 0 from rfl, uint16Read, hlo, hhi]
  rfl

/-- The A is released as it was pressed, and is in the report no more. -/
theorem releases_match_other_key :
    EachStep clearBits ⟨fun _ _ => ⟨0x0004⟩, fun _ => 0⟩
        (SameAction ⟨fun _ _ => ⟨0x0004⟩, fun _ => 0⟩) storedLetter.powerUp (fun _ => none)
        (setDuringPress ⟨0, 1⟩) ∧
      EachStep clearBits ⟨fun _ _ => ⟨0x0004⟩, fun _ => 0⟩
        (Undone ⟨fun _ _ => ⟨0x0004⟩, fun _ => 0⟩) storedLetter.powerUp (fun _ => none)
        (setDuringPress ⟨0, 1⟩) := by
  have hvalid := storedLetter_valid
  obtain ⟨hsame, hundone⟩ := releases_match clearBits ⟨fun _ _ => ⟨0x0004⟩, fun _ => 0⟩ storedLetter
    (setDuringPress ⟨0, 1⟩) (spares_setDuringPress clearBits _ storedLetter hvalid)
  exact ⟨hsame, hundone (momentary_setDuringPress clearBits _ storedLetter hvalid
    (storedLetter_action _))⟩

/-- The key that is down is set itself: pressed as 0xFFFF, which a new
keyboard answers, it is released as 5. -/
theorem released_as_another : ¬ EachStep clearBits ⟨fun _ _ => ⟨0x0004⟩, fun _ => 0⟩
    (SameAction ⟨fun _ _ => ⟨0x0004⟩, fun _ => 0⟩) ({} : System).powerUp (fun _ => none)
    (setDuringPress ⟨0, 0⟩) := by
  generalize hs : ({} : System) = s
  have herased : Erased s.powerUp := hs ▸ erased_powerUp fun _ _ => rfl
  generalize himg : (⟨fun _ _ => ⟨0x0004⟩, fun _ => 0⟩ : Image) = img
  have hrange : InRange 0 ⟨0, 0⟩ := by decide
  rintro ⟨-, hrun⟩
  obtain ⟨-, hrun⟩ := hrun _ rfl
  obtain ⟨hlast, -⟩ := hrun _ (step_recv_ok clearBits img ((hidOnRecv_setSingleKey clearBits img
    (s.powerUp.processKey img (firstKey true)).device 0 ⟨0, 0⟩ 0x0005).trans
      (setSingleKey_ok _ 0x0005 hrange)))
  have hsame := hlast rfl _ _ rfl
  have hpress : s.powerUp.act.actionOf (s.powerUp.keymap img) (firstKey true).event =
      ⟨0xFFFF⟩ := by
    rw [actionOf_press _ (show (firstKey true).event.isPressed = true from rfl)]
    show s.powerUp.keymap img (s.powerUp.act.currentLayerForKey _ ⟨0, 0⟩) ⟨0, 0⟩ = _
    rw [layer_first, herased.action img hrange]
  have hafter : actionForKey img (putKey s.powerUp.device.storage 0 ⟨0, 0⟩ 0x0005) 0 ⟨0, 0⟩ =
      ⟨0x0005⟩ := by
    have hvalid := (putKey_valid_iff s.powerUp.device.storage 0x0005 hrange).mpr
      (Or.inl (by decide))
    rw [actionForKey_inRange img _ hrange, if_pos hvalid, storedAction_putKey _ _ hrange]
  rw [actionOf_release _ (show (firstKey false).event.isReleased = true from rfl),
    keymap_afterCommand, layerPressed_afterCommand, hpress] at hsame
  have hrelease : actionForKey img (putKey s.powerUp.device.storage 0 ⟨0, 0⟩ 0x0005)
      ((s.powerUp.processKey img (firstKey true)).act.layerPressed ⟨0, 0⟩) ⟨0, 0⟩ =
      ⟨0xFFFF⟩ := hsame
  rw [layerPressed_first, hafter] at hrelease
  exact absurd hrelease (by decide)

end Ch583Kbd.Firmware
