/-
Ch583Kbd.Rgb.ConfigStorage — the two light configurations in
`config_block`: the RGB matrix (`RGB_top/rgb_matrix.c`) and the underglow
(`RGB_bottom/rgblight.c`).

The RGB matrix has the bytes from `RGB_MATRIX_CONFIG_P` on, the underglow
those from `RGB_LIGHT_CONFIG_P` on. `eeconfig_update_rgblight` compares
its own bytes and then writes the first four of the block, which are the
other's: `rgblight_stored_iff`.
-/
import Ch583Kbd.Eeprom.Storage

namespace Ch583Kbd.Rgb

open Ch583Kbd.Lib Eeprom StorageType

/-- `rgb_config_t`. -/
structure RgbConfig where
  enable : BitVec 2 := 0
  mode : BitVec 6 := 0
  h : BitVec 8 := 0
  s : BitVec 8 := 0
  v : BitVec 8 := 0
  speed : BitVec 8 := 0
  deriving DecidableEq, Repr

namespace RgbConfig

/-- The bytes of the packed structure; `enable` has the low bits of the
first one. -/
def bytes (c : RgbConfig) : List (BitVec 8) := [c.mode ++ c.enable, c.h, c.s, c.v, c.speed]

def ofBytes (byte : Nat → BitVec 8) : RgbConfig where
  enable := (byte 0).extractLsb' 0 2
  mode := (byte 0).extractLsb' 2 6
  h := byte 1
  s := byte 2
  v := byte 3
  speed := byte 4

end RgbConfig

def rgbMatrixConfigSize : Nat := 5
def rgbMatrixConfigP : Nat := 0
def rgbLightConfigP : Nat := rgbMatrixConfigSize

/-- `rgb_matrix_config`, the storage blocks and the data flash. -/
structure RgbState where
  config : RgbConfig := {}
  ram : Storage := {}
  flash : Nat → BitVec 8 := fun _ => 0xFF

/-- `config_block[i]`. -/
def configByte (ram : Storage) (i : Nat) : BitVec 8 := (ram.block storageConfig).toList.getD i 0

/-- `config_block[i] = b`. -/
def setConfigByte (ram : Storage) (i : Nat) (b : BitVec 8) : Storage :=
  ram.setBlock storageConfig ((ram.block storageConfig).setIfInBounds i b)

variable (C : PageFlash.Cell (0xFF : BitVec 8)) (enc : Bool)

/-- `storage_write((1 << STORAGE_CONFIG))`. -/
def writeConfig (s : RgbState) : RgbState :=
  { s with flash := storageWrite C enc storageConfig.bit s.ram s.flash }

/-! ## RGB matrix -/

/-- `eeprom_read_block` into `rgb_matrix_config`. -/
def eeconfigReadRgbMatrix (s : RgbState) : RgbState :=
  { s with config := .ofBytes fun i => configByte s.ram (i + rgbMatrixConfigP) }

/-- The loop of `eeprom_update_block`. -/
def updateBlock (ram : Storage) (buf : List (BitVec 8)) : Storage :=
  buf.zipIdx.foldl (fun ram b => setConfigByte ram (b.2 + rgbMatrixConfigP) b.1) ram

def eeconfigUpdateRgbMatrix (s : RgbState) : RgbState :=
  writeConfig C enc { s with ram := updateBlock s.ram s.config.bytes }

/-! ## Underglow -/

def eeconfigReadRgblight (ram : Storage) : BitVec 32 :=
  (configByte ram (3 + rgbLightConfigP)).setWidth 32 |||
    (configByte ram (2 + rgbLightConfigP)).setWidth 32 <<< 8 |||
    (configByte ram (1 + rgbLightConfigP)).setWidth 32 <<< 16 |||
    (configByte ram rgbLightConfigP).setWidth 32 <<< 24

def eeconfigUpdateRgblight (s : RgbState) (val : BitVec 32) : RgbState :=
  if eeconfigReadRgblight s.ram ≠ val then
    let ram := setConfigByte s.ram 3 (val.setWidth 8)
    let ram := setConfigByte ram 2 ((val >>> 8).setWidth 8)
    let ram := setConfigByte ram 1 ((val >>> 16).setWidth 8)
    let ram := setConfigByte ram 0 ((val >>> 24).setWidth 8)
    writeConfig C enc { s with ram := ram }
  else s

/-! ## Bytes after a write -/

/-- A byte of the config block after one of them is set. -/
theorem configByte_setConfigByte (ram : Storage) {i : Nat} (hi : i < blockSize storageConfig)
    (b : BitVec 8) (j : Nat) :
    configByte (setConfigByte ram i b) j = if i = j then b else configByte ram j := by
  rw [configByte, setConfigByte, Storage.setBlock_block, Vector.toList_setIfInBounds,
    List.getD_eq_getElem?_getD, List.getElem?_set]
  split
  · rw [if_pos (by simpa using hi)]
    rfl
  · rw [configByte, List.getD_eq_getElem?_getD]

theorem configByte_setConfigByte_other (ram : Storage) {i j : Nat} (hne : i ≠ j) (b : BitVec 8) :
    configByte (setConfigByte ram i b) j = configByte ram j := by
  rw [configByte, setConfigByte, Storage.setBlock_block, Vector.toList_setIfInBounds,
    List.getD_eq_getElem?_getD, List.getElem?_set_ne hne, configByte, List.getD_eq_getElem?_getD]

/-- The loop of `eeprom_update_block` sets the bytes from its `k`th one on. -/
theorem configByte_foldl_setConfigByte (buf : List (BitVec 8)) (ram : Storage) (k : Nat)
    (hbuf : k + buf.length ≤ blockSize storageConfig) (j : Nat) :
    configByte ((buf.zipIdx k).foldl
        (fun ram b => setConfigByte ram (b.2 + rgbMatrixConfigP) b.1) ram) j =
      if j < k then configByte ram j else buf.getD (j - k) (configByte ram j) := by
  induction buf generalizing ram k with
  | nil => simp
  | cons b buf ih =>
    rw [List.length_cons] at hbuf
    rw [List.zipIdx_cons, List.foldl_cons, ih _ _ (by omega)]
    have hk : k + rgbMatrixConfigP = k := rfl
    have hset := configByte_setConfigByte ram (i := k) (by omega) b j
    rw [hk, hset]
    rcases Nat.lt_trichotomy j k with hj | rfl | hj
    · rw [if_pos (by omega), if_neg (by omega), if_pos hj]
    · rw [if_pos (by omega), if_pos rfl, if_neg (by omega), Nat.sub_self, List.getD_cons_zero]
    · have hjk : j - k = j - (k + 1) + 1 := by omega
      rw [if_neg (by omega), if_neg (by omega), if_neg (by omega), hjk, List.getD_cons_succ]

/-- The loop puts its bytes from `RGB_MATRIX_CONFIG_P` on. -/
theorem configByte_updateBlock (ram : Storage) {buf : List (BitVec 8)}
    (hbuf : buf.length ≤ blockSize storageConfig) (j : Nat) :
    configByte (updateBlock ram buf) j = buf.getD j (configByte ram j) := by
  rw [updateBlock, configByte_foldl_setConfigByte buf ram 0 (by omega), if_neg (by omega),
    Nat.sub_zero]

/-- `eeprom_update_block` writes the bytes of the config and no others. -/
theorem configByte_update_config (ram : Storage) (c : RgbConfig) (j : Nat) :
    configByte (updateBlock ram c.bytes) j = c.bytes.getD j (configByte ram j) := by
  have hlen : c.bytes.length ≤ blockSize storageConfig := show 5 ≤ 24 by decide
  exact configByte_updateBlock ram hlen j

/-! ## Round trips -/

@[simp] theorem RgbConfig.ofBytes_bytes (c : RgbConfig) (byte : Nat → BitVec 8) :
    RgbConfig.ofBytes (fun i => c.bytes.getD i (byte i)) = c := by
  obtain ⟨enable, mode, h, s, v, speed⟩ := c
  simp only [RgbConfig.ofBytes, RgbConfig.bytes, List.getD_cons_zero, List.getD_cons_succ,
    RgbConfig.mk.injEq, and_true]
  have hbit : ∀ i, (mode ++ enable).getLsbD i =
      if i < 2 then enable.getLsbD i else mode.getLsbD (i - 2) := fun i => BitVec.getLsbD_append
  constructor
  · ext i hi
    rw [BitVec.getElem_extractLsb', Nat.zero_add, hbit, if_pos hi, BitVec.getLsbD_eq_getElem hi]
  · ext i hi
    rw [BitVec.getElem_extractLsb', hbit, if_neg (by omega), Nat.add_sub_cancel_left,
      BitVec.getLsbD_eq_getElem hi]

/-- The RGB matrix reads back the configuration it wrote. -/
theorem rgbMatrix_roundTrip (s : RgbState) :
    (eeconfigReadRgbMatrix (eeconfigUpdateRgbMatrix C enc s)).config = s.config := by
  have hbyte : (fun i => configByte (eeconfigUpdateRgbMatrix C enc s).ram (i + rgbMatrixConfigP)) =
      fun i => s.config.bytes.getD i (configByte s.ram i) := by
    funext i
    exact configByte_update_config s.ram s.config i
  rw [eeconfigReadRgbMatrix, hbyte]
  exact RgbConfig.ofBytes_bytes s.config _

/-- The underglow's value is told by the bytes behind the RGB matrix's. -/
theorem eeconfigReadRgblight_congr {ram ram' : Storage}
    (h : ∀ i, rgbMatrixConfigSize ≤ i → configByte ram' i = configByte ram i) :
    eeconfigReadRgblight ram' = eeconfigReadRgblight ram := by
  have hbyte : ∀ k, configByte ram' (k + rgbLightConfigP) = configByte ram (k + rgbLightConfigP) :=
    fun k => h _ (Nat.le_add_left _ k)
  have h0 := h rgbLightConfigP (Nat.le_refl _)
  rw [eeconfigReadRgblight, hbyte 3, hbyte 2, hbyte 1, h0, eeconfigReadRgblight]

/-- `eeconfig_update_rgb_matrix` keeps the bytes behind its own. -/
theorem configByte_updateRgbMatrix (s : RgbState) {i : Nat} (hi : rgbMatrixConfigSize ≤ i) :
    configByte (eeconfigUpdateRgbMatrix C enc s).ram i = configByte s.ram i := by
  have hlen : s.config.bytes.length ≤ i := hi
  show configByte (updateBlock s.ram s.config.bytes) i = configByte s.ram i
  rw [configByte_update_config, List.getD_eq_getElem?_getD, List.getElem?_eq_none hlen,
    Option.getD_none]

/-- Writing the RGB matrix config leaves the word of the underglow. -/
theorem eeconfigReadRgblight_updateRgbMatrix (s : RgbState) :
    eeconfigReadRgblight (eeconfigUpdateRgbMatrix C enc s).ram = eeconfigReadRgblight s.ram :=
  eeconfigReadRgblight_congr fun _ hi => configByte_updateRgbMatrix C enc s hi

/-- A value that is stored already is not written again. -/
theorem updateRgblight_of_stored {s : RgbState} {val : BitVec 32}
    (h : eeconfigReadRgblight s.ram = val) : eeconfigUpdateRgblight C enc s val = s :=
  if_neg (not_not.mpr h)

/-- Whatever `eeconfig_update_rgblight` writes, it writes below the
underglow's bytes. -/
theorem configByte_updateRgblight (s : RgbState) (val : BitVec 32) {i : Nat} (hi : 4 ≤ i) :
    configByte (eeconfigUpdateRgblight C enc s val).ram i = configByte s.ram i := by
  rw [eeconfigUpdateRgblight]
  split
  · show configByte (setConfigByte _ 0 _) i = _
    rw [configByte_setConfigByte_other _ (by omega), configByte_setConfigByte_other _ (by omega),
      configByte_setConfigByte_other _ (by omega), configByte_setConfigByte_other _ (by omega)]
  · rfl

/-- So it never changes what `eeconfig_read_rgblight` returns. -/
theorem eeconfigReadRgblight_updateRgblight (s : RgbState) (val : BitVec 32) :
    eeconfigReadRgblight (eeconfigUpdateRgblight C enc s val).ram = eeconfigReadRgblight s.ram :=
  eeconfigReadRgblight_congr fun _ hi =>
    configByte_updateRgblight C enc s val (Nat.le_of_succ_le hi)

/-- Instead the RGB matrix's mode, enable and HSV bytes become the value's. -/
theorem eeconfigReadRgbMatrix_updateRgblight {s : RgbState} {val : BitVec 32}
    (h : eeconfigReadRgblight s.ram ≠ val) :
    (eeconfigReadRgbMatrix (eeconfigUpdateRgblight C enc s val)).config =
      .ofBytes fun i => [(val >>> 24).setWidth 8, (val >>> 16).setWidth 8, (val >>> 8).setWidth 8,
        val.setWidth 8].getD i (configByte s.ram i) := by
  rw [eeconfigUpdateRgblight, if_pos h]
  show RgbConfig.ofBytes (fun i => configByte (setConfigByte _ 0 _) i) = _
  refine congrArg RgbConfig.ofBytes (funext fun i => ?_)
  rw [configByte_setConfigByte _ (by decide), configByte_setConfigByte _ (by decide),
    configByte_setConfigByte _ (by decide), configByte_setConfigByte _ (by decide)]
  match i with
  | 0 | 1 | 2 | 3 => rfl
  | i + 4 =>
    rw [if_neg (by omega), if_neg (by omega), if_neg (by omega), if_neg (by omega)]
    rfl

/-- The underglow's value is read back, and the update is seen nowhere
else in the block; the RGB matrix's update is not seen by the underglow. -/
structure RgblightStored (s : RgbState) (val : BitVec 32) : Prop where
  roundTrip : eeconfigReadRgblight (eeconfigUpdateRgblight C enc s val).ram = val
  frame : ∀ i, ¬(rgbLightConfigP ≤ i ∧ i < rgbLightConfigP + 4) →
    configByte (eeconfigUpdateRgblight C enc s val).ram i = configByte s.ram i
  rgbMatrix : (eeconfigReadRgbMatrix (eeconfigUpdateRgblight C enc s val)).config =
    (eeconfigReadRgbMatrix s).config
  symmetric : eeconfigReadRgblight (eeconfigUpdateRgbMatrix C enc s).ram =
    eeconfigReadRgblight s.ram

/-- **Underglow storage.** Exactly a value that the block holds already is
read back; every other one is written over the RGB matrix's bytes. -/
theorem rgblight_stored_iff (s : RgbState) (val : BitVec 32) :
    RgblightStored C enc s val ↔ eeconfigReadRgblight s.ram = val := by
  constructor
  · intro h
    rw [← eeconfigReadRgblight_updateRgblight C enc s val]
    exact h.roundTrip
  · intro h
    have hkeep := updateRgblight_of_stored C enc h
    constructor
    case roundTrip => rw [hkeep, h]
    case frame => intro i _; rw [hkeep]
    case rgbMatrix => rw [hkeep]
    case symmetric => exact eeconfigReadRgblight_updateRgbMatrix C enc s

/-- Over a zero block the value 1 reads back as 0, and is the RGB matrix's
brightness. -/
theorem underglow_over_matrix :
    ¬RgblightStored clearBits true {} 1 ∧
      eeconfigReadRgblight (eeconfigUpdateRgblight clearBits true {} 1).ram = 0 ∧
      (eeconfigReadRgbMatrix {}).config.v = 0 ∧
      (eeconfigReadRgbMatrix (eeconfigUpdateRgblight clearBits true {} 1)).config.v = 1 := by
  have hread : eeconfigReadRgblight (eeconfigUpdateRgblight clearBits true {} 1).ram = 0 := by
    decide
  refine ⟨fun h => ?_, hread, by decide, by decide⟩
  have hval := h.roundTrip
  rw [hread] at hval
  exact absurd hval (by decide)

end Ch583Kbd.Rgb
