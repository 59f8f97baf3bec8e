/-
Ch583Kbd.Firmware.FactoryKeymap — the default table of `keymap_plain.c`,
and what a keyboard answers from it.

`check_keymap` takes a block for a stored keymap if some byte is not 0. An
erased flash reads 0xFF, so from the first power-up on the erased section
counts as a keymap, in which every action is 0xFFFF (`run_erased`). The
default table is in use before that only, or after a host has stored a
block of zeros.
-/
import Ch583Kbd.Eeprom.Keymap
import Ch583Kbd.Eeprom.Persistence
import Ch583Kbd.Firmware.System

namespace Ch583Kbd.Firmware

open Ch583Kbd.Tmk Ch583Kbd.Lib Ch583Kbd.Lib.Block Ch583Kbd.Eeprom Ch583Kbd.Usb StorageType

/-! ## The default table -/

/-- The first `KEYMAP` of `actionmaps`, row by row. -/
def plainLayer : List (List (BitVec 16)) :=
  [[0x35, 0x1E, 0x1F, 0x20, 0x21, 0x22, 0x23, 0x24, 0x25, 0x26, 0x27, 0x2D, 0x2E, 0x2A],
   [0x2B, 0x14, 0x1A, 0x1A, 0x15, 0x17, 0x1C, 0x18, 0x0C, 0x12, 0x13, 0x2F, 0x30, 0x31],
   [0x39, 0x04, 0x16, 0x07, 0x09, 0x0A, 0x0B, 0x0D, 0x0E, 0x0F, 0x33, 0x34, 0x00, 0x28],
   [0xE1, 0x1D, 0x1B, 0x06, 0x19, 0x05, 0x11, 0x10, 0x36, 0x37, 0x38, 0x00, 0xE5, 0x00],
   [0xE0, 0xE3, 0xE2, 0x00, 0x00, 0x2C, 0x00, 0x00, 0x00, 0xE6, 0xE7, 0x00, 0x76, 0xE4]]

/-- The other three: `AC_TRNS` but for the positions without a key. -/
def transparentLayer : List (List (BitVec 16)) :=
  plainLayer.map (·.map fun code => if code = 0 then 0 else 1)

def actionmapsTable : List (List (List (BitVec 16))) :=
  [plainLayer, transparentLayer, transparentLayer, transparentLayer]

/-- `actionmaps`; `beyond` is what lies behind the table. -/
def actionmaps (beyond : Keymap) : Keymap := fun layer key =>
  match (actionmapsTable[layer.toNat]?).bind fun rows =>
      (rows[key.row.toNat]?).bind (·[key.col.toNat]?) with
  | some code => ⟨code⟩
  | none => beyond layer key

/-- Every layer of the default table answers from the table. -/
def AnswersFactory (img : Image) (s : System) : Prop :=
  ∀ layer key, layer.toNat < actionmapsTable.length → key.row.toNat < matrixRows →
    key.col.toNat < matrixCols → s.keymap img layer key = img.actionmaps layer key

/-! ## A keymap section that was never stored -/

/-- The keymap section is erased, in the flash and in RAM. -/
structure Erased (s : System) : Prop where
  flash : ∀ i, i < blockSize storageKeymap → s.device.flash i = 0xFF
  block : ∀ i, (h : i < blockSize storageKeymap) → (s.device.storage.block storageKeymap)[i] = 0xFF
  valid : s.device.storage.keymapValid = true

/-- A block of 0xFF bytes passes for a stored keymap. -/
theorem valid_of_erased {b : Vector (BitVec 8) (blockSize storageKeymap)}
    (h : ∀ i, (hi : i < blockSize storageKeymap) → b[i] = 0xFF) : b.any (· != 0) = true := by
  rw [Vector.any_eq_true]
  refine ⟨0, by decide, ?_⟩
  rw [h 0 (by decide)]
  decide

/-- Every entry of an erased keymap answers 0xFFFF. -/
theorem Erased.action {s : System} (h : Erased s) (img : Image) {layer : BitVec 8} {key : KeyPos}
    (hrange : InRange layer key) : s.keymap img layer key = ⟨0xFFFF⟩ := by
  have hlt := keyIndex_lt hrange
  have hlo : storedByte s.device.storage (keyIndex layer key.row key.col).toNat = 0xFF := by
    rw [storedByte_of_lt _ (by rw [blockSize_keymap]; omega)]
    exact h.block _ _
  have hhi : storedByte s.device.storage ((keyIndex layer key.row key.col).toNat + 1) = 0xFF := by
    rw [storedByte_of_lt _ hlt]
    exact h.block _ _
  rw [System.keymap, actionForKey_inRange img _ hrange, if_pos h.valid, storedAction, uint16Read,
    hlo, hhi]
  rfl

variable (C : PageFlash.Cell (0xFF : Byte)) (img : Image)

/-- The commands that leave the keymap section in RAM alone. -/
def Event.sparesKeymap : Event → Prop
  | .recv command _ _ =>
    (HidCommand.ofByte command).bind HidCommand.writes ≠ some storageKeymap
  | _ => True

/-- Power-up reads an erased section into the block and takes it for valid. -/
theorem erased_powerUp {s : System}
    (h : ∀ i, i < blockSize storageKeymap → s.device.flash i = 0xFF) : Erased s.powerUp := by
  have hblock : (storageRead false 0xFF s.device.flash {}).block storageKeymap =
      flashBlock s.device.flash storageKeymap := storageRead_block false {} _ (keymap_mem false)
  have hbytes : ∀ i, (hi : i < blockSize storageKeymap) →
      ((storageRead false 0xFF s.device.flash {}).block storageKeymap)[i] = 0xFF := by
    intro i hi
    simp only [hblock, flashBlock, Vector.getElem_ofFn]
    rw [show storageP storageKeymap + i = i from Nat.zero_add i]
    exact h i hi
  constructor
  · exact h
  · exact hbytes
  · rw [hblock] at hbytes
    exact (storageRead_valid false {} s.device.flash).trans (valid_of_erased hbytes)

/-- Writing back what was never stored keeps the section erased. -/
theorem erased_saved {s : System} (h : Erased s) (mask : BitVec 8) (i : Nat)
    (hi : i < blockSize storageKeymap) :
    storageWrite C false mask s.device.storage s.device.flash i = 0xFF := by
  have hafter := keymap_after C false mask s.device.storage s.device.flash hi
  rw [show storageP storageKeymap + i = i from Nat.zero_add i] at hafter
  rw [hafter, byteAt_of_lt _ hi, h.block i hi, h.flash i hi]
  simp

/-- A step that spares the keymap keeps it erased. -/
theorem step_erased (s : System) (e : Event) (s' : System) (hspares : e.sparesKeymap)
    (h : Erased s) (hstep : s.step C img e = .ok s') : Erased s' := by
  cases e with
  | powerUp =>
    cases hstep
    exact erased_powerUp h.flash
  | key record =>
    cases hstep
    exact ⟨h.flash, h.block, h.valid⟩
  | layers layerState defaultLayerState =>
    cases hstep
    exact ⟨h.flash, h.block, h.valid⟩
  | readings timer leds =>
    cases hstep
    exact ⟨h.flash, h.block, h.valid⟩
  | recv command len data =>
    obtain ⟨handled, hrecv, rfl⟩ := step_recv C img hstep
    cases hidOnRecv_outcome img C s.device hrecv with
    | silent c cleared _ _ _ => exact ⟨h.flash, h.block, h.valid⟩
    | refused r => exact ⟨h.flash, h.block, h.valid⟩
    | read bytes _ => exact ⟨h.flash, h.block, h.valid⟩
    | saved mask _ => exact ⟨erased_saved C h mask, h.block, h.valid⟩
    | stored t offset bytes r hc =>
      have hne : t ≠ storageKeymap := by
        rintro rfl
        exact hspares hc
      have hother := putBytes_other s.device.storage offset bytes (Ne.symm hne)
      constructor
      · exact h.flash
      · intro i hi
        show ((putBytes s.device.storage t offset bytes).block storageKeymap)[i] = 0xFF
        simp only [hother]
        exact h.block i hi
      · show (putBytes s.device.storage t offset bytes).keymapValid = true
        rw [putBytes_keymapValid _ _ _ hne]
        exact h.valid

/-- From an erased flash, the first power-up and everything after it leave
the keymap section erased until a command writes it. -/
theorem run_erased {s s' : System} (events : List Event)
    (hflash : ∀ i, i < blockSize storageKeymap → s.device.flash i = 0xFF)
    (hspares : ∀ e ∈ events, e.sparesKeymap)
    (hrun : s.run C img (.powerUp :: events) = .ok s') : Erased s' :=
  run_invariant C img (step_erased C img) events hspares (erased_powerUp hflash) hrun

/-! ## A keyboard that was never configured -/

/-- Power-ups, key events and `WRITE_CONFIG` commands. -/
inductive FactoryEvent where
  | powerUp
  | key (record : KeyRecord)
  | writeConfig (mask : BitVec 8)

def FactoryEvent.toEvent : FactoryEvent → Event
  | .powerUp => .powerUp
  | .key record => .key record
  | .writeConfig mask => .recv 0x3E 1 fun _ => some mask

/-- None of these events writes the keymap section. -/
theorem toEvent_spares (e : FactoryEvent) : e.toEvent.sparesKeymap := by
  cases e with
  | powerUp => exact trivial
  | key record => exact trivial
  | writeConfig mask =>
    show (some HidCommand.writeConfig).bind HidCommand.writes ≠ some storageKeymap
    exact nofun

/-- No run of these events leaves a buffer, so each has a final state. -/
theorem run_factory (events : List FactoryEvent) :
    ∀ s : System, ∃ s', s.run C img (events.map FactoryEvent.toEvent) = .ok s' := by
  induction events with
  | nil => exact fun s => ⟨s, rfl⟩
  | cons e es ih =>
    intro s
    have hone : ∃ s1, s.step C img e.toEvent = .ok s1 := by
      cases e with
      | powerUp => exact ⟨_, rfl⟩
      | key record => exact ⟨_, rfl⟩
      | writeConfig mask => exact ⟨_, rfl⟩
    obtain ⟨s1, hs1⟩ := hone
    obtain ⟨s', hs'⟩ := ih s1
    refine ⟨s', ?_⟩
    rw [List.map_cons, System.run, hs1]
    exact hs'

/-- **From factory-erased flash, no keyboard that was powered up answers from
the default table** before a keymap is stored. -/
theorem factory_keymap_never (beyond : Keymap) (behind : Nat → BitVec 8) (s : System)
    (events : List FactoryEvent) (hflash : ∀ a, s.device.flash a = 0xFF) :
    ∃ s', s.run C ⟨actionmaps beyond, behind⟩
        (.powerUp :: events.map FactoryEvent.toEvent) = .ok s' ∧
      ¬ AnswersFactory ⟨actionmaps beyond, behind⟩ s' ∧
      ∀ layer key, InRange layer key →
        s'.keymap ⟨actionmaps beyond, behind⟩ layer key = ⟨0xFFFF⟩ := by
  obtain ⟨s', hrun⟩ := run_factory C ⟨actionmaps beyond, behind⟩ (.powerUp :: events) s
  have hspares : ∀ e ∈ events.map FactoryEvent.toEvent, e.sparesKeymap := by
    intro e he
    obtain ⟨e', -, rfl⟩ := List.mem_map.mp he
    exact toEvent_spares e'
  have herased : Erased s' := run_erased C _ _ (fun i _ => hflash i) hspares hrun
  refine ⟨s', hrun, ?_, fun layer key hrange => herased.action _ hrange⟩
  intro hfactory
  have hkey := hfactory 0 ⟨0, 0⟩ (by decide) (by decide) (by decide)
  rw [herased.action _ (by decide)] at hkey
  have htable : actionmaps beyond 0 ⟨0, 0⟩ = ⟨0x35⟩ := rfl
  have hcode : (⟨0xFFFF⟩ : Action) = ⟨0x35⟩ := hkey.trans htable
  exact absurd hcode (by decide)

theorem factory_keymap_never_erased :
    (∀ a, ({} : System).device.flash a = 0xFF) ∧
    ∃ s', ({} : System).run clearBits ⟨actionmaps fun _ _ => Action.no, fun _ => 0⟩
        (.powerUp :: [FactoryEvent.writeConfig 0x01].map FactoryEvent.toEvent) = .ok s' ∧
      ¬ AnswersFactory ⟨actionmaps fun _ _ => Action.no, fun _ => 0⟩ s' ∧
      ∀ layer key, InRange layer key →
        s'.keymap ⟨actionmaps fun _ _ => Action.no, fun _ => 0⟩ layer key = ⟨0xFFFF⟩ :=
  have herased : ∀ a, ({} : System).device.flash a = 0xFF := fun _ => rfl
  ⟨herased, factory_keymap_never clearBits (fun _ _ => Action.no) (fun _ => 0) {}
    [.writeConfig 0x01] herased⟩

/-- After the first power-up of a new keyboard the first key no longer answers
its default code. -/
theorem factory_keymap_lost : ∃ s', ({} : System).run clearBits
      ⟨actionmaps fun _ _ => Action.no, fun _ => 0⟩ [.powerUp] = .ok s' ∧
    s'.keymap ⟨actionmaps fun _ _ => Action.no, fun _ => 0⟩ 0 ⟨0, 0⟩ ≠
      actionmaps (fun _ _ => Action.no) 0 ⟨0, 0⟩ := by
  refine ⟨_, rfl, ?_⟩
  have herased : Erased ({} : System).powerUp := erased_powerUp fun _ _ => rfl
  have hkey := herased.action ⟨actionmaps fun _ _ => Action.no, fun _ => 0⟩
    (show InRange 0 ⟨0, 0⟩ by decide)
  intro heq
  have hcode : (⟨0xFFFF⟩ : Action) = ⟨0x35⟩ := hkey.symm.trans heq
  exact absurd hcode (by decide)

end Ch583Kbd.Firmware
