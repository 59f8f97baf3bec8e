/-
Ch583Kbd.Firmware.KeymapBounds — which calls of `action_for_key` stay
inside the table they index.

`action_for_key` compares the layer with `KEYMAP_LAYER_SIZE`, the 140 bytes
of one layer, and not with the number of layers. So any of the 32 bits of
`layer_state` gets past the guard. Here the function answers `none` where
it would index beyond the 8 layers of `keymap_block` or the 4 of
`actionmaps`, and its callers follow it in that; where they answer, the
answer is that of the model (`checkedActionForKey_eq`).

The search of `current_layer_for_key` starts at the top, so it looks at the
highest active layer whatever the entries are: it stays inside exactly if
every active layer does.
-/
import Ch583Kbd.Eeprom.Keymap
import Ch583Kbd.Tmk.Action
import Ch583Kbd.Tmk.LayerLookup

namespace Ch583Kbd.Firmware

open Ch583Kbd.Tmk Ch583Kbd.Eeprom StorageType

/-- The layers of the default table (`keymap_plain.c`). -/
def actionmapsLayers : Nat := 4

/-- The layers of the table that `action_for_key` selects. -/
def tableLayers (s : Storage) : Nat := if s.keymapValid then maxLayer else actionmapsLayers

/-- The guard of `action_for_key`. -/
def Guarded (layer : BitVec 8) (key : KeyPos) : Prop :=
  keymapLayerSize ≤ layer.toNat ∨ matrixCols ≤ key.col.toNat ∨ matrixRows ≤ key.row.toNat

instance (layer : BitVec 8) (key : KeyPos) : Decidable (Guarded layer key) :=
  inferInstanceAs (Decidable (_ ∨ _))

/-- A position of the matrix. -/
def InMatrix (key : KeyPos) : Prop := key.row.toNat < matrixRows ∧ key.col.toNat < matrixCols

/-- `action_for_key`, without an answer where it indexes out of bounds. -/
def checkedActionForKey (img : Image) (s : Storage) (layer : BitVec 8) (key : KeyPos) :
    Option Action :=
  if Guarded layer key then some Action.no
  else if s.keymapValid then
    if (keyIndex layer key.row key.col).toNat + 1 < blockSize storageKeymap then
      some ⟨uint16Read (keymapByte img s) (keyIndex layer key.row key.col).toNat⟩
    else none
  else if layer.toNat < actionmapsLayers then some (img.actionmaps layer key)
  else none

/-- The search of `current_layer_for_key` over `lookup`. -/
def checkedTopLayer (lookup : BitVec 8 → Option Action) (layers : BitVec 32) :
    Nat → Option (BitVec 8)
  | 0 => some 0
  | i + 1 =>
    if layers.getLsbD i then do
      let action ← lookup (BitVec.ofNat 8 i)
      if action ≠ Action.transparent then return BitVec.ofNat 8 i
      else checkedTopLayer lookup layers i
    else checkedTopLayer lookup layers i

section Callers

variable (img : Image) (s : Storage) (act : ActionState)

def checkedCurrentLayerForKey (key : KeyPos) : Option (BitVec 8) :=
  checkedTopLayer (checkedActionForKey img s · key) (act.layerState ||| act.defaultLayerState) 32

def checkedLayerSwitchGetAction (event : KeyEvent) : Option Action :=
  if event.isNoEvent then some Action.no
  else do
    let layer ←
      if event.pressed then checkedCurrentLayerForKey img s act event.key
      else some (act.layerPressed event.key)
    checkedActionForKey img s layer event.key

def checkedGetSingleKey (layer row col : BitVec 8) : Option Action :=
  checkedActionForKey img s layer ⟨row, col⟩

end Callers

/-- A use of the keymap. -/
inductive Lookup where
  | currentLayerForKey (key : KeyPos)
  | layerSwitchGetAction (event : KeyEvent)
  | getSingleKey (layer row col : BitVec 8)
  deriving DecidableEq

namespace Lookup

/-- No `action_for_key` of the call indexes out of bounds. -/
def InBounds (img : Image) (s : Storage) (act : ActionState) : Lookup → Prop
  | currentLayerForKey key => (checkedCurrentLayerForKey img s act key).isSome = true
  | layerSwitchGetAction event => (checkedLayerSwitchGetAction img s act event).isSome = true
  | getSingleKey layer row col => (checkedGetSingleKey img s layer row col).isSome = true

/-- The layers that the call can look at are layers of the table. -/
def LayersExist (s : Storage) (act : ActionState) : Lookup → Prop
  | currentLayerForKey key => InMatrix key → ∀ i < 32, act.active i → i < tableLayers s
  | layerSwitchGetAction event => event.isNoEvent = false → InMatrix event.key →
    if event.pressed then ∀ i < 32, act.active i → i < tableLayers s
    else (act.layerPressed event.key).toNat < keymapLayerSize →
      (act.layerPressed event.key).toNat < tableLayers s
  | getSingleKey layer row col => layer.toNat < keymapLayerSize → InMatrix ⟨row, col⟩ →
    layer.toNat < tableLayers s

end Lookup

/-! ## `action_for_key` -/

section

variable (img : Image) (s : Storage)

/-- Where the checked lookup answers, it answers what `action_for_key` does. -/
theorem checkedActionForKey_eq {layer : BitVec 8} {key : KeyPos} {a : Action}
    (h : checkedActionForKey img s layer key = some a) : actionForKey img s layer key = a := by
  unfold checkedActionForKey at h
  show (if Guarded layer key then Action.no
    else if s.keymapValid then
      ⟨uint16Read (keymapByte img s) (keyIndex layer key.row key.col).toNat⟩
    else img.actionmaps layer key) = a
  by_cases hg : Guarded layer key
  · rw [if_pos hg] at h
    rw [if_pos hg]
    exact Option.some.inj h
  · rw [if_neg hg] at h
    rw [if_neg hg]
    split at h
    · next hv =>
      rw [if_pos hv]
      split at h
      · exact Option.some.inj h
      · simp at h
    · next hv =>
      rw [if_neg hv]
      split at h
      · exact Option.some.inj h
      · simp at h

/-- The lookup stays in the table exactly when the guard catches the key or the
layer has a table. -/
theorem checkedActionForKey_isSome {layer : BitVec 8} {key : KeyPos} :
    (checkedActionForKey img s layer key).isSome = true ↔
      (¬ Guarded layer key → layer.toNat < tableLayers s) := by
  unfold checkedActionForKey
  by_cases hg : Guarded layer key
  · simp [hg]
  · simp only [hg, if_false, not_false_eq_true, forall_const]
    cases hv : s.keymapValid with
    | true =>
      have hindex : (keyIndex layer key.row key.col).toNat + 1 < blockSize storageKeymap ↔
          layer.toNat < maxLayer := by
        simp only [Guarded, matrixRows, matrixCols, not_or, Nat.not_le] at hg
        rw [keyIndex_toNat, blockSize_keymap]
        show _ ↔ layer.toNat < 8
        omega
      simp only [tableLayers, hv, if_true, ← hindex]
      split <;> simp_all
    | false =>
      simp only [tableLayers, hv, Bool.false_eq_true, if_false]
      split <;> simp_all

theorem not_guarded_iff {layer : BitVec 8} {key : KeyPos} :
    ¬ Guarded layer key ↔ layer.toNat < keymapLayerSize ∧ InMatrix key := by
  simp only [Guarded, InMatrix, not_or, Nat.not_le, and_comm]

end

/-! ## The search -/

section Search

variable {lookup : BitVec 8 → Option Action} {layers : BitVec 32} {limit : Nat}

/-- The search answers exactly if every active layer is within the limit:
the highest one is looked at first. -/
theorem checkedTopLayer_isSome (lookup : BitVec 8 → Option Action) (n : Nat)
    (hlookup : ∀ i < n, (lookup (BitVec.ofNat 8 i)).isSome = true ↔ i < limit) :
    (checkedTopLayer lookup layers n).isSome = true ↔
      ∀ i < n, layers.getLsbD i = true → i < limit := by
  induction n with
  | zero => simp [checkedTopLayer]
  | succ n ih =>
    have hrest := ih fun i hi => hlookup i (by omega)
    have hn := hlookup n (by omega)
    rw [checkedTopLayer]
    cases hset : layers.getLsbD n with
    | false =>
      rw [if_neg Bool.false_ne_true, hrest]
      constructor
      · intro hall i hi hi'
        have hne : i ≠ n := fun he => by simp [he, hset] at hi'
        exact hall i (by omega) hi'
      · exact fun hall i hi => hall i (by omega)
    | true =>
      rw [if_pos rfl]
      cases hl : lookup (BitVec.ofNat 8 n) with
      | none =>
        have hout : ¬ n < limit := by simpa [hl] using hn
        exact ⟨fun h => by simp at h, fun h => absurd (h n (by omega) hset) hout⟩
      | some action =>
        have hin : n < limit := by simpa [hl] using hn
        have hall : ∀ i < n + 1, layers.getLsbD i = true → i < limit := fun i hi _ => by omega
        refine ⟨fun _ => hall, fun _ => ?_⟩
        show (if action ≠ Action.transparent then some (BitVec.ofNat 8 n)
          else checkedTopLayer lookup layers n).isSome = true
        split
        · rfl
        · exact hrest.mpr fun i hi hi' => hall i (by omega) hi'

/-- The search answers an active layer below the limit, or layer 0. -/
theorem checkedTopLayer_lt (h0 : 0 < limit) (n : Nat) (hn : n ≤ 256)
    (hall : ∀ i < n, layers.getLsbD i = true → i < limit) {layer : BitVec 8}
    (h : checkedTopLayer lookup layers n = some layer) : layer.toNat < limit := by
  induction n with
  | zero =>
    obtain rfl : 0 = layer := Option.some.inj h
    exact h0
  | succ n ih =>
    have hrest := ih (by omega) fun i hi => hall i (by omega)
    rw [checkedTopLayer] at h
    split at h
    · next hset =>
      cases hl : lookup (BitVec.ofNat 8 n) with
      | none => simp [hl] at h
      | some action =>
        have hbind : (if action ≠ Action.transparent then some (BitVec.ofNat 8 n)
            else checkedTopLayer lookup layers n) = some layer := by simpa [hl] using h
        split at hbind
        · obtain rfl : BitVec.ofNat 8 n = layer := Option.some.inj hbind
          rw [BitVec.toNat_ofNat, Nat.mod_eq_of_lt (by omega)]
          exact hall n (by omega) hset
        · exact hrest hbind
    · exact hrest h

end Search

/-! ## The three callers -/

variable (img : Image) (s : Storage) (act : ActionState)

theorem tableLayers_pos : 0 < tableLayers s := by
  unfold tableLayers
  split <;> decide

theorem active_iff (i : Nat) :
    (act.layerState ||| act.defaultLayerState).getLsbD i = true ↔ act.active i := by
  simp [ActionState.active]

/-- For a key of the matrix the search over the layers stays in the table
exactly when every active layer has one. -/
theorem checkedCurrentLayerForKey_isSome (key : KeyPos) :
    (checkedCurrentLayerForKey img s act key).isSome = true ↔
      (InMatrix key → ∀ i < 32, act.active i → i < tableLayers s) := by
  by_cases hm : InMatrix key
  · have hlookup : ∀ i < 32, (checkedActionForKey img s (BitVec.ofNat 8 i) key).isSome = true ↔
        i < tableLayers s := by
      intro i hi
      have hto : (BitVec.ofNat 8 i).toNat = i := by
        rw [BitVec.toNat_ofNat, Nat.mod_eq_of_lt (by omega)]
      have hsize : i < keymapLayerSize := Nat.lt_trans hi (by decide)
      rw [checkedActionForKey_isSome, not_guarded_iff, hto]
      exact ⟨fun h => h ⟨hsize, hm⟩, fun h _ => h⟩
    rw [checkedCurrentLayerForKey,
      checkedTopLayer_isSome (fun l => checkedActionForKey img s l key) 32 hlookup]
    simp only [active_iff, hm, forall_const]
  · -- outside the matrix the guard answers for every layer
    have hlookup : ∀ i < 32, (checkedActionForKey img s (BitVec.ofNat 8 i) key).isSome = true ↔
        i < 32 := by
      intro i hi
      rw [checkedActionForKey_isSome, not_guarded_iff]
      exact ⟨fun _ => hi, fun _ h => absurd h.2 hm⟩
    rw [checkedCurrentLayerForKey,
      checkedTopLayer_isSome (fun l => checkedActionForKey img s l key) 32 hlookup]
    exact ⟨fun _ h => absurd h hm, fun _ i hi _ => hi⟩

/-- `layer_switch_get_action` stays in the table exactly when the layers it
tries exist. -/
theorem checkedLayerSwitchGetAction_isSome (event : KeyEvent) :
    (checkedLayerSwitchGetAction img s act event).isSome = true ↔
      (Lookup.layerSwitchGetAction event).LayersExist s act := by
  unfold checkedLayerSwitchGetAction
  cases hreal : event.isNoEvent with
  | true => exact ⟨fun _ h => absurd (hreal.symm.trans h) (by decide), fun _ => rfl⟩
  | false =>
    have hexist : (Lookup.layerSwitchGetAction event).LayersExist s act ↔ (InMatrix event.key →
        if event.pressed then ∀ i < 32, act.active i → i < tableLayers s
        else (act.layerPressed event.key).toNat < keymapLayerSize →
          (act.layerPressed event.key).toNat < tableLayers s) :=
      ⟨fun h => h hreal, fun h _ => h⟩
    rw [hexist, if_neg Bool.false_ne_true]
    cases hp : event.pressed with
    | false =>
      show (checkedActionForKey img s (act.layerPressed event.key) event.key).isSome = true ↔ _
      rw [checkedActionForKey_isSome, not_guarded_iff]
      exact ⟨fun h hm hl => h ⟨hl, hm⟩, fun h hg => h hg.2 hg.1⟩
    | true =>
      have hcur := checkedCurrentLayerForKey_isSome img s act event.key
      simp only [if_true]
      rw [← hcur]
      cases hc : checkedCurrentLayerForKey img s act event.key with
      | none => simp
      | some layer =>
        refine ⟨fun _ => rfl, fun _ => ?_⟩
        show (checkedActionForKey img s layer event.key).isSome = true
        rw [checkedActionForKey_isSome, not_guarded_iff]
        intro hg
        refine checkedTopLayer_lt (tableLayers_pos s) 32 (by decide) ?_ hc
        intro i hi hset
        exact hcur.mp (by rw [hc]; rfl) hg.2 i hi ((active_iff act i).mp hset)

/-- `get_single_key` stays in the table exactly when the layer asked for exists. -/
theorem checkedGetSingleKey_isSome (layer row col : BitVec 8) :
    (checkedGetSingleKey img s layer row col).isSome = true ↔
      (Lookup.getSingleKey layer row col).LayersExist s act := by
  rw [checkedGetSingleKey, checkedActionForKey_isSome, not_guarded_iff]
  exact ⟨fun h hl hm => h ⟨hl, hm⟩, fun h hg => h hg.1 hg.2⟩

/-- The checked callers answer as the model does. -/
theorem checkedTopLayer_eq (key : KeyPos) (layers : BitVec 32) (n : Nat) {layer : BitVec 8}
    (h : checkedTopLayer (checkedActionForKey img s · key) layers n = some layer) :
    topLayer (actionForKey img s) layers key n = layer := by
  induction n with
  | zero => exact Option.some.inj h
  | succ n ih =>
    rw [checkedTopLayer] at h
    rw [topLayer]
    split at h
    · next hset =>
      cases hl : checkedActionForKey img s (BitVec.ofNat 8 n) key with
      | none => simp [hl] at h
      | some action =>
        have hbind : (if action ≠ Action.transparent then some (BitVec.ofNat 8 n)
            else checkedTopLayer (checkedActionForKey img s · key) layers n) = some layer := by
          simpa [hl] using h
        rw [checkedActionForKey_eq img s hl]
        split at hbind
        · next hne =>
          rw [if_pos ⟨hset, hne⟩]
          exact Option.some.inj hbind
        · next heq =>
          rw [if_neg fun hboth => heq hboth.2]
          exact ih hbind
    · next hset =>
      rw [if_neg fun hboth => hset hboth.1]
      exact ih h

/-- Where the checked lookup answers, it answers what `layer_switch_get_action`
does. -/
theorem checkedLayerSwitchGetAction_eq {event : KeyEvent} {a : Action}
    (h : checkedLayerSwitchGetAction img s act event = some a) :
    act.actionOf (actionForKey img s) event = a := by
  unfold checkedLayerSwitchGetAction at h
  unfold ActionState.actionOf ActionState.layerFor
  cases hreal : event.isNoEvent with
  | true =>
    rw [hreal] at h
    exact Option.some.inj h
  | false =>
    rw [hreal] at h
    simp only [Bool.false_eq_true, if_false] at h ⊢
    cases hp : event.pressed with
    | false =>
      rw [hp] at h
      exact checkedActionForKey_eq img s h
    | true =>
      rw [hp] at h
      cases hc : checkedCurrentLayerForKey img s act event.key with
      | none => simp [hc] at h
      | some layer =>
        have hcur : act.currentLayerForKey (actionForKey img s) event.key = layer :=
          checkedTopLayer_eq img s event.key _ 32 hc
        rw [if_pos rfl, hcur]
        exact checkedActionForKey_eq img s (by simpa [hc] using h)

/-- **Keymap lookups.** A use of the keymap stays inside the table in use
exactly if the layers it can look at are layers of that table. -/
theorem inBounds_iff (img : Image) (s : Storage) (act : ActionState) (lookup : Lookup) :
    lookup.InBounds img s act ↔ lookup.LayersExist s act := by
  cases lookup with
  | currentLayerForKey key => exact checkedCurrentLayerForKey_isSome img s act key
  | layerSwitchGetAction event => exact checkedLayerSwitchGetAction_isSome img s act event
  | getSingleKey layer row col => exact checkedGetSingleKey_isSome img s act layer row col

/-- Layer 8 is switched on by a key of the host's keymap, and the next
lookup reads behind `keymap_block`; with the default table `GET_SINGLE_KEY`
of layer 4 reads behind `actionmaps`. -/
theorem lookup_out_of_bounds :
    let img : Image := ⟨fun _ _ => Action.no, fun _ => 0⟩
    let act := (processAction (fun _ _ => ⟨0xA8F1⟩) ⟨⟨⟨0, 0⟩, true, 1⟩, {}, none⟩ {}).2
    ¬ (Lookup.currentLayerForKey ⟨0, 1⟩).InBounds img { keymapValid := true } act ∧
      ¬ (Lookup.getSingleKey 4 0 0).InBounds img {} act := by
  intro img act
  constructor
  · rw [Lookup.InBounds, checkedCurrentLayerForKey_isSome]
    intro h
    exact absurd (h ⟨by decide, by decide⟩ 8 (by decide) (by decide)) (by decide)
  · rw [Lookup.InBounds, checkedGetSingleKey_isSome _ _ act]
    intro h
    exact absurd (h (by decide) ⟨by decide, by decide⟩) (by decide)

end Ch583Kbd.Firmware
