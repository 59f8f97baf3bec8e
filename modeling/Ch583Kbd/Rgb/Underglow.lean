/-
Ch583Kbd.Rgb.Underglow — the configuration of the underglow
(`RGB_bottom/rgblight.c`) and the calls that change it.

What the LEDs show is left out: no call reads it. While the underglow is
off, only `rgblight_enable` and `rgblight_toggle` do anything. The mode is
brought into its range by everything that turns the underglow on; the hue
is not, and `underglow_iff` says what that leaves of the stored words.
-/
import Ch583Kbd.Rgb.ConfigStorage
import Ch583Kbd.Eeprom.Persistence
import Ch583Kbd.Lib.Trace
import Mathlib.Tactic.ByContra
import Mathlib.Tactic.SplitIfs

namespace Ch583Kbd.Rgb

open Ch583Kbd.Lib Eeprom StorageType

def rgblightModes : Nat := 36
def rgblightHueStep : Nat := 6
def rgblightSatStep : Nat := 17
def rgblightValStep : Nat := 17
def rgblightLimitVal : Nat := 255

/-- `rgblight_config_t`. -/
structure RgblightConfig where
  enable : BitVec 1 := 0
  mode : BitVec 6 := 0
  hue : BitVec 9 := 0
  sat : BitVec 8 := 0
  val : BitVec 8 := 0
  deriving DecidableEq, Repr

namespace RgblightConfig

/-- The other view of the union; `enable` has its lowest bit. -/
def raw (c : RgblightConfig) : BitVec 32 := c.val ++ c.sat ++ c.hue ++ c.mode ++ c.enable

def ofRaw (w : BitVec 32) : RgblightConfig where
  enable := w.extractLsb' 0 1
  mode := w.extractLsb' 1 6
  hue := w.extractLsb' 7 9
  sat := w.extractLsb' 16 8
  val := w.extractLsb' 24 8

def on (c : RgblightConfig) : Bool := c.enable ≠ 0

end RgblightConfig

/-- `rgblight_config` and where it is stored. -/
structure LightState where
  config : RgblightConfig := {}
  rgb : RgbState := {}

-- `bottom` tells whether `RGB_BOTTOM_ENABLE` is defined
variable (C : PageFlash.Cell (0xFF : BitVec 8)) (enc bottom : Bool)

/-- `eeconfig_update_rgblight(rgblight_config.raw)`. -/
def storeConfig (s : LightState) : LightState :=
  { s with rgb := eeconfigUpdateRgblight C enc s.rgb s.config.raw }

def eeconfigUpdateRgblightDefault (s : LightState) : LightState :=
  storeConfig C enc
    { s with config :=
        { enable := if bottom then 1 else 0, mode := 1, hue := 0, sat := 255
          val := BitVec.ofNat 8 rgblightLimitVal } }

/-! ## Setters -/

/-- Breathing keeps the brightness in memory, the rainbows keep the hue. -/
def rgblightSethsvEepromHelper (hue : BitVec 16) (sat val : BitVec 8) (writeToEeprom : Bool)
    (s : LightState) : LightState :=
  if s.config.on then
    let mode := s.config.mode.toNat
    let val := if 2 ≤ mode ∧ mode ≤ 5 then s.config.val else val
    let hue := if 6 ≤ mode ∧ mode ≤ 14 then s.config.hue.setWidth 16 else hue
    let s := { s with config := { s.config with hue := hue.setWidth 9, sat := sat, val := val } }
    if writeToEeprom then storeConfig C enc s else s
  else s

def rgblightSethsv (hue : BitVec 16) (sat val : BitVec 8) : LightState → LightState :=
  rgblightSethsvEepromHelper C enc hue sat val true

def rgblightSethsvNoeeprom (hue : BitVec 16) (sat val : BitVec 8) : LightState → LightState :=
  rgblightSethsvEepromHelper C enc hue sat val false

/-- The branches of `rgblight_mode_eeprom_helper` that set the mode. -/
def clampMode (mode : BitVec 8) : BitVec 6 :=
  if mode.toNat < 1 then 1
  else if mode.toNat > rgblightModes then BitVec.ofNat 6 rgblightModes
  else mode.setWidth 6

def rgblightModeEepromHelper (mode : BitVec 8) (writeToEeprom : Bool) (s : LightState) :
    LightState :=
  if ¬s.config.on then s
  else
    let s := { s with config := { s.config with mode := clampMode mode } }
    let s := if writeToEeprom then storeConfig C enc s else s
    rgblightSethsvNoeeprom C enc (s.config.hue.setWidth 16) s.config.sat s.config.val s

def rgblightMode (mode : BitVec 8) : LightState → LightState :=
  rgblightModeEepromHelper C enc mode true

def rgblightModeNoeeprom (mode : BitVec 8) : LightState → LightState :=
  rgblightModeEepromHelper C enc mode false

def rgblightInit (s : LightState) : LightState :=
  let s := { s with config := .ofRaw (eeconfigReadRgblight s.rgb.ram) }
  let s := if s.config.mode = 0 then
      let s := eeconfigUpdateRgblightDefault C enc bottom s
      { s with config := .ofRaw (eeconfigReadRgblight s.rgb.ram) }
    else s
  if s.config.on then rgblightModeNoeeprom C enc (s.config.mode.setWidth 8) s else s

def rgblightIncrease (s : LightState) : LightState :=
  let mode := if s.config.mode.toNat < rgblightModes then s.config.mode.setWidth 8 + 1 else 0
  rgblightMode C enc mode s

def rgblightDecrease (s : LightState) : LightState :=
  let mode := if s.config.mode.toNat > 1 then s.config.mode.setWidth 8 - 1 else 0
  rgblightMode C enc mode s

def rgblightStep (s : LightState) : LightState :=
  let mode := s.config.mode.setWidth 8 + 1
  rgblightMode C enc (if mode.toNat > rgblightModes then 1 else mode) s

def rgblightStepReverse (s : LightState) : LightState :=
  let mode := s.config.mode.setWidth 8 - 1
  rgblightMode C enc (if mode.toNat < 1 then BitVec.ofNat 8 rgblightModes else mode) s

def rgblightEnable (s : LightState) : LightState :=
  let s := { s with config := { s.config with enable := 1 } }
  rgblightMode C enc (s.config.mode.setWidth 8) s

def rgblightDisable (s : LightState) : LightState :=
  storeConfig C enc { s with config := { s.config with enable := 0 } }

def rgblightToggle (s : LightState) : LightState :=
  if s.config.on then rgblightDisable C enc s else rgblightEnable C enc s

def rgblightIncreaseHue (s : LightState) : LightState :=
  let hue := (s.config.hue.toNat + rgblightHueStep) % 360
  rgblightSethsv C enc (BitVec.ofNat 16 hue) s.config.sat s.config.val s

def rgblightDecreaseHue (s : LightState) : LightState :=
  let hue := if s.config.hue.toNat < rgblightHueStep then
      (s.config.hue.toNat + 360 - rgblightHueStep) % 360
    else (s.config.hue.toNat - rgblightHueStep) % 360
  rgblightSethsv C enc (BitVec.ofNat 16 hue) s.config.sat s.config.val s

/-- A component up by a step, or at its limit. -/
def stepUp (v : BitVec 8) (step limit : Nat) : BitVec 8 :=
  if v.toNat + step > limit then BitVec.ofNat 8 limit else BitVec.ofNat 8 (v.toNat + step)

/-- A component down by a step, or at 0. -/
def stepDown (v : BitVec 8) (step : Nat) : BitVec 8 :=
  if v.toNat < step then 0 else BitVec.ofNat 8 (v.toNat - step)

def rgblightIncreaseSat (s : LightState) : LightState :=
  rgblightSethsv C enc (s.config.hue.setWidth 16) (stepUp s.config.sat rgblightSatStep 255)
    s.config.val s

def rgblightDecreaseSat (s : LightState) : LightState :=
  rgblightSethsv C enc (s.config.hue.setWidth 16) (stepDown s.config.sat rgblightSatStep)
    s.config.val s

def rgblightIncreaseVal (s : LightState) : LightState :=
  rgblightSethsv C enc (s.config.hue.setWidth 16) s.config.sat
    (stepUp s.config.val rgblightValStep rgblightLimitVal) s

def rgblightDecreaseVal (s : LightState) : LightState :=
  rgblightSethsv C enc (s.config.hue.setWidth 16) s.config.sat
    (stepDown s.config.val rgblightValStep) s

/-! ## Runs -/

inductive LightCall where
  | increase | decrease | step | stepReverse
  | mode (mode : BitVec 8)
  | increaseHue | decreaseHue | increaseSat | decreaseSat | increaseVal | decreaseVal
  | sethsv (hue : Fin 360) (sat val : BitVec 8)
  | enable | disable | toggle
  deriving DecidableEq, Repr

def LightCall.apply : LightCall → LightState → LightState
  | increase => rgblightIncrease C enc
  | decrease => rgblightDecrease C enc
  | step => rgblightStep C enc
  | stepReverse => rgblightStepReverse C enc
  | mode m => rgblightMode C enc m
  | increaseHue => rgblightIncreaseHue C enc
  | decreaseHue => rgblightDecreaseHue C enc
  | increaseSat => rgblightIncreaseSat C enc
  | decreaseSat => rgblightDecreaseSat C enc
  | increaseVal => rgblightIncreaseVal C enc
  | decreaseVal => rgblightDecreaseVal C enc
  | sethsv hue sat val => rgblightSethsv C enc (BitVec.ofNat 16 hue.val) sat val
  | enable => rgblightEnable C enc
  | disable => rgblightDisable C enc
  | toggle => rgblightToggle C enc

def runLight (s : LightState) (calls : List LightCall) : LightState :=
  calls.foldl (fun s call => call.apply C enc s) s

/-- The calls that may turn the underglow on. -/
def LightCall.turnsOn : LightCall → Bool
  | enable | toggle => true
  | _ => false

/-- Mode and hue are in range where the underglow is on. -/
def InRange (c : RgblightConfig) : Prop :=
  c.on = true → 1 ≤ c.mode.toNat ∧ c.mode.toNat ≤ rgblightModes ∧ c.hue.toNat < 360

/-- In every state of a run from `rgblight_init` on, mode and hue are in
range, and where the underglow is off no call but those that may turn it
on changes the configuration, `config_block` or the data flash. -/
structure LightSound (s : LightState) (calls : List LightCall) : Prop where
  inRange : ∀ past, past <+: calls →
    InRange (runLight C enc (rgblightInit C enc bottom s) past).config
  quiet : ∀ past call, past ++ [call] <+: calls →
    let before := runLight C enc (rgblightInit C enc bottom s) past
    before.config.on = false → call.turnsOn = false → call.apply C enc before = before

/-! ## Storing -/

/-- The bits of the stored word, field by field. -/
theorem getLsbD_raw (c : RgblightConfig) (i : Nat) :
    c.raw.getLsbD i =
      if i < 1 then c.enable.getLsbD i
      else if i < 7 then c.mode.getLsbD (i - 1)
      else if i < 16 then c.hue.getLsbD (i - 7)
      else if i < 24 then c.sat.getLsbD (i - 16)
      else c.val.getLsbD (i - 24) := by
  show (c.val ++ c.sat ++ c.hue ++ c.mode ++ c.enable).getLsbD i = _
  simp only [BitVec.getLsbD_append, Nat.sub_sub]
  split_ifs <;> first | rfl | omega

theorem getLsbD_field (w : BitVec 32) {start len i : Nat} (hlo : start ≤ i)
    (hhi : i < start + len) : (w.extractLsb' start len).getLsbD (i - start) = w.getLsbD i := by
  rw [BitVec.getLsbD_extractLsb', decide_eq_true (by omega), Bool.true_and,
    Nat.add_sub_cancel' hlo]

/-- Taking a word apart and putting it together gives the word. -/
theorem raw_ofRaw (w : BitVec 32) : (RgblightConfig.ofRaw w).raw = w := by
  refine BitVec.eq_of_getLsbD_eq fun i hi => ?_
  rw [getLsbD_raw]
  split_ifs
  · exact getLsbD_field w (Nat.zero_le i) (by omega)
  · exact getLsbD_field w (by omega) (by omega)
  · exact getLsbD_field w (by omega) (by omega)
  · exact getLsbD_field w (by omega) (by omega)
  · exact getLsbD_field w (by omega) (by omega)

/-- Writing the sections again that were written last changes nothing. -/
theorem storageWrite_storageWrite (mask : BitVec 8) (ram : Storage) (flash : Nat → BitVec 8) :
    storageWrite C enc mask ram (storageWrite C enc mask ram flash) =
      storageWrite C enc mask ram flash := by
  funext a
  rw [storageWrite_apply, storageWrite_apply]
  simp only [stepAt]
  split_ifs <;> rfl

theorem setBlock_setBlock (ram : Storage) (t : StorageType)
    (b b' : Vector (BitVec 8) (blockSize t)) :
    (ram.setBlock t b).setBlock t b' = ram.setBlock t b' := by
  rw [Storage.setBlock, Storage.setBlock, Storage.setBlock, Function.update_idem]

/-- The bytes that `eeconfig_update_rgblight` writes, put into the block. -/
def putRaw (val : BitVec 32) (b : Vector (BitVec 8) (blockSize storageConfig)) :
    Vector (BitVec 8) (blockSize storageConfig) :=
  (((b.setIfInBounds 3 (val.setWidth 8)).setIfInBounds 2 ((val >>> 8).setWidth 8)).setIfInBounds 1
    ((val >>> 16).setWidth 8)).setIfInBounds 0 ((val >>> 24).setWidth 8)

/-- Storing the same word twice is storing it once. -/
theorem putRaw_putRaw (val : BitVec 32) (b : Vector (BitVec 8) (blockSize storageConfig)) :
    putRaw val (putRaw val b) = putRaw val b := by
  ext i hi
  simp only [putRaw, Vector.getElem_setIfInBounds]
  split_ifs <;> rfl

/-- A word that differs from the stored one is written to the block and to the
flash. -/
theorem updateRgblight_of_ne {s : RgbState} {val : BitVec 32}
    (h : eeconfigReadRgblight s.ram ≠ val) :
    eeconfigUpdateRgblight C enc s val =
      writeConfig C enc
        { s with ram :=
          s.ram.setBlock storageConfig (putRaw val (s.ram.block storageConfig)) } := by
  rw [eeconfigUpdateRgblight, if_pos h]
  simp only [setConfigByte, Storage.setBlock_block, setBlock_setBlock]
  rfl

/-- A second update with the same value changes nothing. -/
theorem eeconfigUpdateRgblight_idem (s : RgbState) (val : BitVec 32) :
    eeconfigUpdateRgblight C enc (eeconfigUpdateRgblight C enc s val) val =
      eeconfigUpdateRgblight C enc s val := by
  by_cases h : eeconfigReadRgblight s.ram = val
  · rw [updateRgblight_of_stored C enc h, updateRgblight_of_stored C enc h]
  · have hread := eeconfigReadRgblight_updateRgblight C enc s val
    rw [updateRgblight_of_ne C enc (hread ▸ h), updateRgblight_of_ne C enc h]
    simp only [writeConfig, Storage.setBlock_block, setBlock_setBlock, putRaw_putRaw,
      storageWrite_storageWrite]

/-! ## What is on -/

/-- `rgblight_sethsv` and its like do nothing while the underglow is off. -/
theorem sethsv_off {s : LightState} (hoff : s.config.on = false) (hue : BitVec 16)
    (sat val : BitVec 8) (w : Bool) : rgblightSethsvEepromHelper C enc hue sat val w s = s := by
  rw [rgblightSethsvEepromHelper, hoff, if_neg Bool.false_ne_true]

/-- While the light is off no mode is set. -/
theorem mode_off {s : LightState} (hoff : s.config.on = false) (mode : BitVec 8) (w : Bool) :
    rgblightModeEepromHelper C enc mode w s = s := by
  rw [rgblightModeEepromHelper, hoff, if_pos Bool.false_ne_true]

/-- What is stored is what a further update leaves. -/
def Settled (s : LightState) : Prop := storeConfig C enc s = s

/-- What was just stored is not stored again. -/
theorem settled_storeConfig (s : LightState) : Settled C enc (storeConfig C enc s) := by
  rw [Settled, storeConfig, storeConfig]
  exact congrArg _ (eeconfigUpdateRgblight_idem C enc s.rgb s.config.raw)

/-- What a call does to a state: it sets a colour, whose hue is no worse
than the one there, or a mode, or it switches. -/
inductive Effect (s : LightState) : (turnsOn : Bool) → LightState → Prop where
  | sethsv (hue : BitVec 16) (sat val : BitVec 8)
      (hhue : s.config.hue.toNat < 360 → hue.toNat < 360) :
      Effect s false (rgblightSethsv C enc hue sat val s)
  | mode (mode : BitVec 8) : Effect s false (rgblightMode C enc mode s)
  | enable : Effect s true (rgblightEnable C enc s)
  | disable (turnsOn : Bool) : Effect s turnsOn (rgblightDisable C enc s)

/-- Every call sets a colour or a mode, or it switches. -/
theorem apply_effect (s : LightState) (call : LightCall) :
    Effect C enc s call.turnsOn (call.apply C enc s) := by
  have hsame : s.config.hue.toNat < 360 → (s.config.hue.setWidth 16).toNat < 360 := by
    rw [BitVec.toNat_setWidth]
    omega
  have hmod : ∀ hue : Nat, (BitVec.ofNat 16 (hue % 360)).toNat < 360 := by
    intro hue
    have hlt := Nat.mod_lt hue (y := 360) (by decide)
    rw [BitVec.toNat_ofNat]
    omega
  cases call with
  | increase => exact .mode _
  | decrease => exact .mode _
  | step => exact .mode _
  | stepReverse => exact .mode _
  | mode m => exact .mode m
  | enable => exact .enable
  | disable => exact .disable _
  | toggle =>
    show Effect C enc s true (rgblightToggle C enc s)
    rw [rgblightToggle]
    split
    · exact .disable _
    · exact .enable
  | increaseHue => exact .sethsv _ _ _ fun _ => hmod _
  | decreaseHue =>
    refine .sethsv _ _ _ fun _ => ?_
    split
    · exact hmod _
    · exact hmod _
  | sethsv hue sat val =>
    have hhue := hmod hue.val
    rw [Nat.mod_eq_of_lt hue.isLt] at hhue
    exact .sethsv _ _ _ fun _ => hhue
  | _ => exact .sethsv _ _ _ hsame

/-- A call that may not turn it on does nothing while it is off. -/
theorem apply_off {s : LightState} (hoff : s.config.on = false) (hsettled : Settled C enc s)
    {call : LightCall} (hcall : call.turnsOn = false) : call.apply C enc s = s := by
  have heffect := apply_effect C enc s call
  rw [hcall] at heffect
  generalize call.apply C enc s = s' at heffect ⊢
  cases heffect with
  | sethsv hue sat val => exact sethsv_off C enc hoff _ _ _ _
  | mode mode => exact mode_off C enc hoff _ _
  | disable =>
    have hzero : s.config.enable = 0 := by
      rw [RgblightConfig.on, decide_eq_false_iff_not, not_not] at hoff
      exact hoff
    have hsame : { s.config with enable := 0 } = s.config := by rw [← hzero]
    rw [rgblightDisable, hsame]
    exact hsettled

/-! ## What the helpers leave -/

@[simp] theorem storeConfig_config (s : LightState) : (storeConfig C enc s).config = s.config := rfl

@[simp] theorem sethsv_on (hue : BitVec 16) (sat val : BitVec 8) (w : Bool) (s : LightState) :
    (rgblightSethsvEepromHelper C enc hue sat val w s).config.on = s.config.on := by
  rw [rgblightSethsvEepromHelper]
  split
  · cases w <;> rfl
  · rfl

@[simp] theorem sethsv_mode (hue : BitVec 16) (sat val : BitVec 8) (w : Bool) (s : LightState) :
    (rgblightSethsvEepromHelper C enc hue sat val w s).config.mode = s.config.mode := by
  rw [rgblightSethsvEepromHelper]
  split
  · cases w <;> rfl
  · rfl

theorem hue_back (hue : BitVec 9) : (hue.setWidth 16).setWidth 9 = hue := by
  rw [BitVec.setWidth_setWidth_of_le _ (by omega), BitVec.setWidth_eq]

/-- The hue afterwards is the one given or the one it had. -/
theorem sethsv_hue (hue : BitVec 16) (sat val : BitVec 8) (w : Bool) (s : LightState) :
    (rgblightSethsvEepromHelper C enc hue sat val w s).config.hue = s.config.hue ∨
      (rgblightSethsvEepromHelper C enc hue sat val w s).config.hue = hue.setWidth 9 := by
  rw [rgblightSethsvEepromHelper]
  split
  · by_cases hmode : 6 ≤ s.config.mode.toNat ∧ s.config.mode.toNat ≤ 14
    · left
      cases w <;> simp [hmode]
    · right
      cases w <;> simp [hmode]
  · exact .inl rfl

/-- A colour within the range keeps the hue in it. -/
theorem sethsv_hue_lt {hue : BitVec 16} (hhue : hue.toNat < 360) (sat val : BitVec 8) (w : Bool)
    {s : LightState} (hs : s.config.hue.toNat < 360) :
    (rgblightSethsvEepromHelper C enc hue sat val w s).config.hue.toNat < 360 := by
  rcases sethsv_hue C enc hue sat val w s with h | h
  · rw [h]
    exact hs
  · rw [h, BitVec.toNat_setWidth]
    omega

/-- Setting the hue that is there already keeps it. -/
theorem sethsv_hue_same (sat val : BitVec 8) (w : Bool) (s : LightState) :
    (rgblightSethsvEepromHelper C enc (s.config.hue.setWidth 16) sat val w s).config.hue =
      s.config.hue := by
  rcases sethsv_hue C enc (s.config.hue.setWidth 16) sat val w s with h | h
  · exact h
  · rw [h, hue_back]

/-- A mode is clamped to the modes there are. -/
theorem clampMode_range (mode : BitVec 8) :
    1 ≤ (clampMode mode).toNat ∧ (clampMode mode).toNat ≤ rgblightModes := by
  rw [clampMode]
  split_ifs with hlow hhigh
  · decide
  · decide
  · have hlt : mode.toNat ≤ 36 := Nat.le_of_not_lt hhigh
    have hval : (mode.setWidth 6).toNat = mode.toNat := by
      rw [BitVec.toNat_setWidth]
      omega
    exact ⟨by omega, by rw [hval]; exact hlt⟩

/-- `rgblight_mode` brings the mode into its range, and then sets the
colour that it finds. -/
theorem mode_of_on {s : LightState} (hon : s.config.on = true) (mode : BitVec 8) (w : Bool) :
    ∃ s' : LightState, s'.config = { s.config with mode := clampMode mode } ∧
      rgblightModeEepromHelper C enc mode w s = rgblightSethsvNoeeprom C enc
        (s'.config.hue.setWidth 16) s'.config.sat s'.config.val s' := by
  rw [rgblightModeEepromHelper, if_neg (not_not.mpr hon)]
  refine ⟨_, ?_, rfl⟩
  cases w <;> rfl

@[simp] theorem mode_on (mode : BitVec 8) (w : Bool) (s : LightState) :
    (rgblightModeEepromHelper C enc mode w s).config.on = s.config.on := by
  by_cases hon : s.config.on = true
  · obtain ⟨s', hconfig, heq⟩ := mode_of_on C enc hon mode w
    rw [heq, rgblightSethsvNoeeprom, sethsv_on, hconfig]
    rfl
  · rw [mode_off C enc (Bool.eq_false_iff.mpr hon)]

@[simp] theorem mode_hue (mode : BitVec 8) (w : Bool) (s : LightState) :
    (rgblightModeEepromHelper C enc mode w s).config.hue = s.config.hue := by
  by_cases hon : s.config.on = true
  · obtain ⟨s', hconfig, heq⟩ := mode_of_on C enc hon mode w
    rw [heq, rgblightSethsvNoeeprom, sethsv_hue_same, hconfig]
  · rw [mode_off C enc (Bool.eq_false_iff.mpr hon)]

/-- The mode is in its range. -/
def ModeInRange (c : RgblightConfig) : Prop :=
  c.on = true → 1 ≤ c.mode.toNat ∧ c.mode.toNat ≤ rgblightModes

/-- Setting a mode keeps the mode one of those there are. -/
theorem mode_inRange (mode : BitVec 8) (w : Bool) (s : LightState) :
    ModeInRange (rgblightModeEepromHelper C enc mode w s).config := by
  intro hon
  rw [mode_on] at hon
  obtain ⟨s', hconfig, heq⟩ := mode_of_on C enc hon mode w
  rw [heq, rgblightSethsvNoeeprom, sethsv_mode, hconfig]
  exact clampMode_range mode

/-! ## `rgblight_init` -/

/-- What `rgblight_init` has read is what is stored, also where it stored
the default: that is written elsewhere. -/
theorem init_loaded (s : LightState) :
    ∃ s' : LightState, s'.config = .ofRaw (eeconfigReadRgblight s.rgb.ram) ∧ Settled C enc s' ∧
      rgblightInit C enc bottom s =
        if s'.config.on then rgblightModeNoeeprom C enc (s'.config.mode.setWidth 8) s' else s' := by
  have hsettled : ∀ {rgb : RgbState}, eeconfigReadRgblight rgb.ram =
    eeconfigReadRgblight s.rgb.ram →
      Settled C enc { config := .ofRaw (eeconfigReadRgblight s.rgb.ram), rgb := rgb } := by
    intro rgb hread
    rw [Settled, storeConfig, raw_ofRaw, updateRgblight_of_stored C enc hread]
  by_cases hmode : (RgblightConfig.ofRaw (eeconfigReadRgblight s.rgb.ram)).mode = 0
  · refine ⟨_, ?_, ?_, by rw [rgblightInit, if_pos hmode]⟩
    · simp only [eeconfigUpdateRgblightDefault, storeConfig, eeconfigReadRgblight_updateRgblight]
    · simp only [eeconfigUpdateRgblightDefault, storeConfig, eeconfigReadRgblight_updateRgblight]
      exact hsettled (eeconfigReadRgblight_updateRgblight C enc _ _)
  · exact ⟨_, rfl, hsettled rfl, by rw [rgblightInit, if_neg hmode]⟩

/-! ## One call -/

/-- No call takes the mode out of its range. -/
theorem apply_mode {s : LightState} (hs : ModeInRange s.config) (call : LightCall) :
    ModeInRange (call.apply C enc s).config := by
  have heffect := apply_effect C enc s call
  generalize call.turnsOn = turnsOn, call.apply C enc s = s' at heffect ⊢
  cases heffect with
  | sethsv hue sat val =>
    rw [ModeInRange, rgblightSethsv, sethsv_on, sethsv_mode]
    exact hs
  | mode mode => exact mode_inRange C enc _ _ _
  | enable => exact mode_inRange C enc _ _ _
  | disable =>
    intro hon
    cases hon

/-- Enabling turns the light on and leaves the hue. -/
theorem enable_config (s : LightState) :
    (rgblightEnable C enc s).config.on = true ∧
      (rgblightEnable C enc s).config.hue = s.config.hue := by
  rw [rgblightEnable, rgblightMode, mode_on, mode_hue]
  exact ⟨rfl, rfl⟩

/-- Whatever is off afterwards was left alone or stored. -/
theorem apply_settled {s : LightState} (hs : s.config.on = false → Settled C enc s)
    (call : LightCall) (hoff : (call.apply C enc s).config.on = false) :
    Settled C enc (call.apply C enc s) := by
  have heffect := apply_effect C enc s call
  generalize call.turnsOn = turnsOn, call.apply C enc s = s' at heffect hoff ⊢
  cases heffect with
  | sethsv hue sat val =>
    rw [rgblightSethsv, sethsv_on] at hoff
    rw [rgblightSethsv, sethsv_off C enc hoff]
    exact hs hoff
  | mode mode =>
    rw [rgblightMode, mode_on] at hoff
    rw [rgblightMode, mode_off C enc hoff]
    exact hs hoff
  | enable =>
    rw [(enable_config C enc s).1] at hoff
    cases hoff
  | disable => exact settled_storeConfig C enc _

/-- No call takes the hue out of its range. -/
theorem apply_hue {s : LightState} (hs : s.config.hue.toNat < 360) (call : LightCall) :
    (call.apply C enc s).config.hue.toNat < 360 := by
  have heffect := apply_effect C enc s call
  generalize call.turnsOn = turnsOn, call.apply C enc s = s' at heffect ⊢
  cases heffect with
  | sethsv hue sat val hhue => exact sethsv_hue_lt C enc (hhue hs) _ _ _ hs
  | mode mode =>
    rw [rgblightMode, mode_hue]
    exact hs
  | enable =>
    rw [(enable_config C enc s).2]
    exact hs
  | disable => exact hs

/-! ## Runs of calls -/

/-- While it is off, calls that may not turn it on do nothing. -/
theorem runLight_off {s : LightState} (hoff : s.config.on = false) (hsettled : Settled C enc s)
    {calls : List LightCall} (hcalls : ∀ call ∈ calls, call.turnsOn = false) :
    runLight C enc s calls = s := by
  refine foldl_invariant (P := fun s' => s' = s) (fun s' call hs' hcall => ?_) rfl hcalls
  rw [hs']
  exact apply_off C enc hoff hsettled hcall

/-- `rgblight_init` leaves the stored hue, the light on or off as stored, and
the mode in range. -/
theorem init_config (s : LightState) :
    (rgblightInit C enc bottom s).config.on =
        (RgblightConfig.ofRaw (eeconfigReadRgblight s.rgb.ram)).on ∧
      (rgblightInit C enc bottom s).config.hue =
        (RgblightConfig.ofRaw (eeconfigReadRgblight s.rgb.ram)).hue ∧
      ModeInRange (rgblightInit C enc bottom s).config ∧
      ((rgblightInit C enc bottom s).config.on = false →
        Settled C enc (rgblightInit C enc bottom s)) := by
  obtain ⟨s', hconfig, hsettled, heq⟩ := init_loaded C enc bottom s
  rw [heq, ← hconfig]
  split
  case isTrue hon =>
    rw [rgblightModeNoeeprom, mode_on, mode_hue, hon]
    exact ⟨rfl, rfl, mode_inRange C enc _ _ _, fun hoff => by cases hoff⟩
  case isFalse hoff => exact ⟨rfl, rfl, fun hon => absurd hon hoff, fun _ => hsettled⟩

/-- Where the hue was out of range and something may have turned the
underglow on, it is on with that hue at some point. -/
theorem exists_on {s : LightState} (hsettled : s.config.on = false → Settled C enc s)
    {calls : List LightCall}
    (hcalls : s.config.on = true ∨ ∃ call ∈ calls, call.turnsOn = true) :
    ∃ past, past <+: calls ∧ (runLight C enc s past).config.on = true ∧
      (runLight C enc s past).config.hue = s.config.hue := by
  by_cases hon : s.config.on = true
  · exact ⟨[], List.nil_prefix, hon, rfl⟩
  rw [Bool.not_eq_true] at hon
  obtain ⟨call, hmem, hcall⟩ := hcalls.resolve_left (by simp [hon])
  obtain ⟨first, hfirst⟩ := Option.isSome_iff_exists.mp
    (List.find?_isSome.mpr ⟨call, hmem, hcall⟩)
  obtain ⟨hturns, past, rest, rfl, hpast⟩ := List.find?_eq_some_iff_append.mp hfirst
  -- nothing happens before the first call that turns it on
  have hstill : runLight C enc s past = s :=
    runLight_off C enc hon (hsettled hon) fun c hc => by simpa using hpast c hc
  refine ⟨past ++ [first], by simp, ?_⟩
  have henable : runLight C enc s (past ++ [first]) = rgblightEnable C enc s := by
    rw [runLight, List.foldl_append, List.foldl_cons, List.foldl_nil, ← runLight, hstill]
    cases first with
    | enable => rfl
    | toggle => exact if_neg (by simp [hon])
    | _ => cases hturns
  rw [henable]
  exact enable_config C enc s

/-- **The underglow's configuration.** Its run is sound exactly where the
stored hue is below 360, or the stored word is off and stays so. -/
theorem underglow_iff (s : LightState) (calls : List LightCall) :
    LightSound C enc bottom s calls ↔
      (RgblightConfig.ofRaw (eeconfigReadRgblight s.rgb.ram)).hue.toNat < 360 ∨
        (RgblightConfig.ofRaw (eeconfigReadRgblight s.rgb.ram)).on = false ∧
          ∀ call ∈ calls, call.turnsOn = false := by
  obtain ⟨hon, hhue, hmode, hsettled⟩ := init_config C enc bottom s
  rw [← hon, ← hhue]
  constructor
  · intro h
    by_contra hno
    rw [not_or, not_and_or, not_forall] at hno
    have hcalls : (rgblightInit C enc bottom s).config.on = true ∨
        ∃ call ∈ calls, call.turnsOn = true := by simpa using hno.2
    obtain ⟨past, hpast, hlit, hsame⟩ := exists_on C enc hsettled hcalls
    have hlt := (h.inRange past hpast hlit).2.2
    rw [hsame] at hlt
    exact hno.1 hlt
  · intro h
    constructor
    case inRange =>
      intro past hpast hlit
      rcases h with hlt | ⟨hoff, hcalls⟩
      · have hkept := List.foldlRecOn past (fun s call => call.apply C enc s)
          (motive := fun s => ModeInRange s.config ∧ s.config.hue.toNat < 360)
          ⟨hmode, hlt⟩ fun s hs call _ => ⟨apply_mode C enc hs.1 call, apply_hue C enc hs.2 call⟩
        exact ⟨(hkept.1 hlit).1, (hkept.1 hlit).2, hkept.2⟩
      · rw [runLight_off C enc hoff (hsettled hoff) fun c hc => hcalls c (hpast.subset hc),
          hoff] at hlit
        cases hlit
    case quiet =>
      intro past call hpast before hoff hcall
      have hkept := List.foldlRecOn past (fun s call => call.apply C enc s)
        (motive := fun s => s.config.on = false → Settled C enc s) hsettled
        fun s hs call _ => apply_settled C enc hs call
      exact apply_off C enc hoff (hkept hoff) hcall

/-- A word that is on with a hue of 360 is taken as it is. -/
theorem underglow_hue_kept :
    ¬LightSound clearBits true true
      { rgb := { ram := setConfigByte (setConfigByte {} 7 0xB4) 8 0x03 } } [] := by
  intro h
  exact absurd (h.inRange [] List.nil_prefix (by decide)).2.2 (by decide)

end Ch583Kbd.Rgb
