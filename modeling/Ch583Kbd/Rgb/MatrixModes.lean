/-
Ch583Kbd.Rgb.MatrixModes — what can be set of the RGB matrix
(`RGB_top/rgb_matrix.c`), from `rgb_matrix_init` on.

The setters keep the mode an effect and the brightness bounded, if they
were; nothing does that for stored bytes, and nothing keeps the speed from
becoming 0, by which `effect_runner_reactive` divides. `sound_iff` says
from which bytes and through which calls all three hold.
-/
import Ch583Kbd.Rgb.ConfigStorage

namespace Ch583Kbd.Rgb

open Ch583Kbd.Lib Eeprom StorageType

/-! ## Constants -/

/-- `enum rgb_matrix_effects`, in the order of `rgb_matrix_effects.inc`. -/
inductive RgbMatrixEffect where
  | none | solidColor | alphasMods | gradientUpDown | gradientLeftRight | breathing | bandSat
  | bandVal | bandPinwheelSat | bandPinwheelVal | bandSpiralSat | bandSpiralVal | cycleAll
  | cycleLeftRight | cycleUpDown | rainbowMovingChevron | cycleOutIn | cycleOutInDual
  | cyclePinwheel | cycleSpiral | dualBeacon | rainbowBeacon | rainbowPinwheels | raindrops
  | jellybeanRaindrops | typingHeatmap | digitalRain | solidReactiveSimple | solidReactive
  | solidReactiveWide | solidReactiveMultiwide | solidReactiveCross | solidReactiveMulticross
  | solidReactiveNexus | solidReactiveMultinexus | splash | multisplash | solidSplash
  | solidMultisplash | effectMax
  deriving DecidableEq, Repr

def rgbMatrixEffectMax : Nat := RgbMatrixEffect.effectMax.ctorIdx
def rgbMatrixMaximumBrightness : BitVec 8 := 200
def rgbMatrixHueStep : BitVec 8 := 8
def rgbMatrixSatStep : BitVec 8 := 16
def rgbMatrixValStep : BitVec 8 := 16
def rgbMatrixSpdStep : BitVec 8 := 16

def rgbMatrixStartup : RgbConfig where
  enable := 1
  mode := BitVec.ofNat 6 RgbMatrixEffect.cycleLeftRight.ctorIdx
  h := 0
  s := 255
  v := rgbMatrixMaximumBrightness
  speed := 127

def qadd8 (i j : BitVec 8) : BitVec 8 :=
  let t := i.toNat + j.toNat
  if t > 255 then 255 else BitVec.ofNat 8 t

def qsub8 (i j : BitVec 8) : BitVec 8 :=
  let t := (i.toNat : Int) - j.toNat
  if t < 0 then 0 else BitVec.ofInt 8 t

/-! ## The setters

What each makes of the configuration; `matrixStep` then stores it. -/

def rgbMatrixStep (c : RgbConfig) : RgbConfig :=
  let mode := c.mode + 1
  { c with mode := if mode.toNat ≥ rgbMatrixEffectMax then 1 else mode }

def rgbMatrixStepReverse (c : RgbConfig) : RgbConfig :=
  let mode := c.mode - 1
  { c with mode := if mode.toNat < 1 then BitVec.ofNat 6 (rgbMatrixEffectMax - 1) else mode }

def rgbMatrixIncreaseHue (c : RgbConfig) : RgbConfig := { c with h := c.h + rgbMatrixHueStep }
def rgbMatrixDecreaseHue (c : RgbConfig) : RgbConfig := { c with h := c.h - rgbMatrixHueStep }
def rgbMatrixIncreaseSat (c : RgbConfig) : RgbConfig := { c with s := qadd8 c.s rgbMatrixSatStep }
def rgbMatrixDecreaseSat (c : RgbConfig) : RgbConfig := { c with s := qsub8 c.s rgbMatrixSatStep }

/-- The clamp behind an assignment of `hsv.v`. -/
def limitVal (v : BitVec 8) : BitVec 8 :=
  if v > rgbMatrixMaximumBrightness then rgbMatrixMaximumBrightness else v

def rgbMatrixIncreaseVal (c : RgbConfig) : RgbConfig :=
  { c with v := limitVal (qadd8 c.v rgbMatrixValStep) }

def rgbMatrixDecreaseVal (c : RgbConfig) : RgbConfig := { c with v := qsub8 c.v rgbMatrixValStep }

def rgbMatrixIncreaseSpeed (c : RgbConfig) : RgbConfig :=
  { c with speed := qadd8 c.speed rgbMatrixSpdStep }

def rgbMatrixDecreaseSpeed (c : RgbConfig) : RgbConfig :=
  { c with speed := qsub8 c.speed rgbMatrixSpdStep }

def rgbMatrixSethsvNoeeprom (hue : BitVec 16) (sat val : BitVec 8) (c : RgbConfig) : RgbConfig :=
  { c with h := hue.setWidth 8, s := sat, v := limitVal val }

def rgbMatrixEnableNoeeprom (c : RgbConfig) : RgbConfig := { c with enable := 1 }
def rgbMatrixDisableNoeeprom (c : RgbConfig) : RgbConfig := { c with enable := 0 }

def rgbMatrixToggle (c : RgbConfig) : RgbConfig :=
  if c.enable ≠ 0 then rgbMatrixDisableNoeeprom c else rgbMatrixEnableNoeeprom c

inductive MatrixCall where
  | step | stepReverse
  | increaseHue | decreaseHue | increaseSat | decreaseSat | increaseVal | decreaseVal
  | increaseSpeed | decreaseSpeed
  | sethsv (hue : BitVec 16) (sat val : BitVec 8)
  | enable | disable | toggle
  deriving DecidableEq, Repr

def MatrixCall.set : MatrixCall → RgbConfig → RgbConfig
  | step => rgbMatrixStep
  | stepReverse => rgbMatrixStepReverse
  | increaseHue => rgbMatrixIncreaseHue
  | decreaseHue => rgbMatrixDecreaseHue
  | increaseSat => rgbMatrixIncreaseSat
  | decreaseSat => rgbMatrixDecreaseSat
  | increaseVal => rgbMatrixIncreaseVal
  | decreaseVal => rgbMatrixDecreaseVal
  | increaseSpeed => rgbMatrixIncreaseSpeed
  | decreaseSpeed => rgbMatrixDecreaseSpeed
  | sethsv hue sat val => rgbMatrixSethsvNoeeprom hue sat val
  | enable => rgbMatrixEnableNoeeprom
  | disable => rgbMatrixDisableNoeeprom
  | toggle => rgbMatrixToggle

variable (C : PageFlash.Cell (0xFF : BitVec 8)) (enc : Bool)

def matrixStep (s : RgbState) (call : MatrixCall) : RgbState :=
  eeconfigUpdateRgbMatrix C enc { s with config := call.set s.config }

def eeconfigUpdateRgbMatrixDefault (s : RgbState) : RgbState :=
  eeconfigUpdateRgbMatrix C enc { s with config := rgbMatrixStartup }

def rgbMatrixInit (s : RgbState) : RgbState :=
  let s := eeconfigReadRgbMatrix s
  if s.config.mode = 0 then eeconfigUpdateRgbMatrixDefault C enc s else s

/-! ## What is shown -/

/-- The effect that `rgb_matrix_task` renders; neither the suspend state
nor a timeout is built in. -/
def RgbConfig.effect (c : RgbConfig) : Nat := if c.enable = 0 then 0 else c.mode.toNat

/-- `max_tick` of `effect_runner_reactive`, unless the division is by 0. -/
def RgbConfig.maxTick (c : RgbConfig) : Option (BitVec 16) :=
  if c.speed = 0 then .none else some (BitVec.ofNat 16 (65535 / c.speed.toNat))

/-- The effects that `effect_runner_reactive` runs. -/
def Reactive (effect : Nat) : Prop :=
  effect = RgbMatrixEffect.solidReactiveSimple.ctorIdx ∨
    effect = RgbMatrixEffect.solidReactive.ctorIdx

instance (effect : Nat) : Decidable (Reactive effect) := inferInstanceAs (Decidable (_ ∨ _))

structure Sound (c : RgbConfig) : Prop where
  mode_pos : 1 ≤ c.mode.toNat
  mode_le : c.mode.toNat ≤ rgbMatrixEffectMax - 1
  val_le : c.v ≤ rgbMatrixMaximumBrightness
  divides : Reactive c.effect → c.maxTick ≠ .none

/-- The configuration is sound in the state `s` and in all that the calls
lead to. -/
def SoundAll : RgbState → List MatrixCall → Prop
  | s, [] => Sound s.config
  | s, call :: calls => Sound s.config ∧ SoundAll (matrixStep C enc s call) calls

/-- An enabled reactive effect at speed 0. -/
def DividesByZero (c : RgbConfig) : Prop :=
  c.enable ≠ 0 ∧ Reactive c.mode.toNat ∧ c.speed = 0

instance (c : RgbConfig) : Decidable (DividesByZero c) := inferInstanceAs (Decidable (_ ∧ _))

/-- Whether the bytes that `rgb_matrix_init` reads are unset, or sound. -/
def StoredSound (ram : Storage) : Prop :=
  let c := RgbConfig.ofBytes (configByte ram)
  c.mode = 0 ∨
    c.mode.toNat ≤ rgbMatrixEffectMax - 1 ∧ c.v ≤ rgbMatrixMaximumBrightness ∧ ¬DividesByZero c

/-- The call brings no enabled reactive effect together with speed 0. -/
def AvoidsZero (c : RgbConfig) : MatrixCall → Prop
  | .step => ¬(c.enable ≠ 0 ∧ Reactive (c.mode.toNat + 1) ∧ c.speed = 0)
  | .stepReverse => ¬(c.enable ≠ 0 ∧ Reactive (c.mode.toNat - 1) ∧ c.speed = 0)
  | .decreaseSpeed => ¬(c.enable ≠ 0 ∧ Reactive c.mode.toNat ∧ c.speed ≤ rgbMatrixSpdStep)
  | .enable => ¬(Reactive c.mode.toNat ∧ c.speed = 0)
  | .toggle => ¬(c.enable = 0 ∧ Reactive c.mode.toNat ∧ c.speed = 0)
  | _ => True

/-- Each call of a run, from the configuration before it. -/
def AvoidsZeroAll : RgbState → List MatrixCall → Prop
  | _, [] => True
  | s, call :: calls => AvoidsZero s.config call ∧ AvoidsZeroAll (matrixStep C enc s call) calls

/-! ## Arithmetic -/

theorem rgbMatrixEffectMax_eq : rgbMatrixEffectMax = 39 := rfl

/-- `qadd8` stops at 255. -/
theorem qadd8_toNat (i j : BitVec 8) : (qadd8 i j).toNat = min (i.toNat + j.toNat) 255 := by
  rw [qadd8]
  split
  · next h => exact (Nat.min_eq_right (Nat.le_of_lt h)).symm
  · next h =>
    rw [BitVec.toNat_ofNat]
    omega

/-- `qsub8` stops at 0. -/
theorem qsub8_toNat (i j : BitVec 8) : (qsub8 i j).toNat = i.toNat - j.toNat := by
  have hi := i.isLt
  rw [qsub8]
  split
  · next h =>
    show 0 = _
    omega
  · next h =>
    rw [BitVec.toNat_ofInt]
    omega

theorem limitVal_le (v : BitVec 8) : limitVal v ≤ rgbMatrixMaximumBrightness := by
  rw [limitVal]
  split
  · exact BitVec.le_refl _
  · next h => exact BitVec.not_lt.mp h

/-- A reactive effect has a limit for its ticks unless it divides by zero. -/
theorem divides_iff (c : RgbConfig) :
    (Reactive c.effect → c.maxTick ≠ .none) ↔ ¬DividesByZero c := by
  have hzero : ¬Reactive 0 := by decide
  rw [RgbConfig.effect, RgbConfig.maxTick, DividesByZero]
  by_cases hoff : c.enable = 0
  · rw [if_pos hoff]
    exact ⟨fun _ h => h.1 hoff, fun _ h => absurd h hzero⟩
  · rw [if_neg hoff]
    by_cases hspeed : c.speed = 0
    · rw [if_pos hspeed]
      exact ⟨fun h hz => h hz.2.1 rfl, fun h hr => absurd ⟨hoff, hr, hspeed⟩ h⟩
    · rw [if_neg hspeed]
      exact ⟨fun _ hz => hspeed hz.2.2, fun _ _ => Option.some_ne_none _⟩

/-- A configuration is sound when its mode is an effect, its brightness within
the limit and no speed 0 is divided by. -/
theorem sound_iff_bounds (c : RgbConfig) :
    Sound c ↔ 1 ≤ c.mode.toNat ∧ c.mode.toNat ≤ rgbMatrixEffectMax - 1 ∧
      c.v ≤ rgbMatrixMaximumBrightness ∧ ¬DividesByZero c :=
  ⟨fun h => ⟨h.mode_pos, h.mode_le, h.val_le, (divides_iff c).mp h.divides⟩,
    fun ⟨hpos, hle, hval, hzero⟩ => ⟨hpos, hle, hval, (divides_iff c).mpr hzero⟩⟩

/-! ## Calls -/

/-- A step goes to the next effect, from the last to the first. -/
theorem rgbMatrixStep_mode {c : RgbConfig} (hle : c.mode.toNat ≤ rgbMatrixEffectMax - 1) :
    (rgbMatrixStep c).mode.toNat = if c.mode.toNat = 38 then 1 else c.mode.toNat + 1 := by
  rw [rgbMatrixEffectMax_eq] at hle
  have hadd : (c.mode + 1).toNat = c.mode.toNat + 1 := by
    rw [BitVec.toNat_add]
    show (_ + 1) % 64 = _
    omega
  simp only [rgbMatrixStep, hadd, rgbMatrixEffectMax_eq]
  split
  · rw [if_pos (by omega)]
    rfl
  · rw [if_neg (by omega), hadd]

/-- A step back goes to the effect before, from the first to the last. -/
theorem rgbMatrixStepReverse_mode {c : RgbConfig} (hpos : 1 ≤ c.mode.toNat) :
    (rgbMatrixStepReverse c).mode.toNat = if c.mode.toNat = 1 then 38 else c.mode.toNat - 1 := by
  have hlt := c.mode.isLt
  have hsub : (c.mode - 1).toNat = c.mode.toNat - 1 := by
    rw [BitVec.toNat_sub]
    show (64 - 1 + _) % 64 = _
    omega
  simp only [rgbMatrixStepReverse, hsub]
  split
  · rw [if_pos (by omega)]
    rfl
  · rw [if_neg (by omega), hsub]

/-- Every setter keeps the mode an effect. -/
theorem set_mode {c : RgbConfig} (hpos : 1 ≤ c.mode.toNat)
    (hle : c.mode.toNat ≤ rgbMatrixEffectMax - 1) (call : MatrixCall) :
    1 ≤ (call.set c).mode.toNat ∧ (call.set c).mode.toNat ≤ rgbMatrixEffectMax - 1 := by
  cases call with
  | step =>
    rw [MatrixCall.set, rgbMatrixStep_mode hle]
    rw [rgbMatrixEffectMax_eq] at hle ⊢
    split <;> omega
  | stepReverse =>
    rw [MatrixCall.set, rgbMatrixStepReverse_mode hpos]
    rw [rgbMatrixEffectMax_eq] at hle ⊢
    split <;> omega
  | toggle =>
    rw [MatrixCall.set, rgbMatrixToggle]
    split <;> exact ⟨hpos, hle⟩
  | _ => exact ⟨hpos, hle⟩

/-- Every setter keeps the brightness within the limit. -/
theorem set_val {c : RgbConfig} (hval : c.v ≤ rgbMatrixMaximumBrightness) (call : MatrixCall) :
    (call.set c).v ≤ rgbMatrixMaximumBrightness := by
  cases call with
  | increaseVal => exact limitVal_le _
  | sethsv hue sat val => exact limitVal_le _
  | decreaseVal =>
    have hle : (qsub8 c.v rgbMatrixValStep).toNat ≤ c.v.toNat := by
      rw [qsub8_toNat]
      exact Nat.sub_le _ _
    exact BitVec.le_trans (BitVec.le_def.mpr hle) hval
  | toggle =>
    rw [MatrixCall.set, rgbMatrixToggle]
    split <;> exact hval
  | _ => exact hval

/-- The effect after a step is reactive exactly when the next number is, also
where the mode wraps. -/
theorem reactive_rgbMatrixStep {c : RgbConfig} (hle : c.mode.toNat ≤ rgbMatrixEffectMax - 1) :
    Reactive (rgbMatrixStep c).mode.toNat ↔ Reactive (c.mode.toNat + 1) := by
  rw [rgbMatrixStep_mode hle]
  split
  · next hlast =>
    rw [hlast]
    decide
  · rfl

theorem reactive_rgbMatrixStepReverse {c : RgbConfig} (hpos : 1 ≤ c.mode.toNat) :
    Reactive (rgbMatrixStepReverse c).mode.toNat ↔ Reactive (c.mode.toNat - 1) := by
  rw [rgbMatrixStepReverse_mode hpos]
  split
  · next hfirst =>
    rw [hfirst]
    decide
  · rfl

theorem qadd8_ne_zero (i : BitVec 8) {j : BitVec 8} (hj : j ≠ 0) : qadd8 i j ≠ 0 := by
  have hpos : j.toNat ≠ 0 := fun h => hj (BitVec.eq_of_toNat_eq h)
  have hsum : (qadd8 i j).toNat ≠ 0 := by
    rw [qadd8_toNat]
    omega
  exact fun h => hsum (congrArg BitVec.toNat h)

theorem qsub8_eq_zero_iff (i j : BitVec 8) : qsub8 i j = 0 ↔ i ≤ j := by
  rw [BitVec.le_def, ← Nat.sub_eq_zero_iff_le, ← qsub8_toNat]
  exact BitVec.toNat_inj.symm

/-- The speed becomes 0 under an enabled reactive effect in these ways
only. -/
theorem set_avoidsZero_iff {c : RgbConfig} (hs : Sound c) (call : MatrixCall) :
    ¬DividesByZero (call.set c) ↔ AvoidsZero c call := by
  have hkeep := (divides_iff c).mp hs.divides
  have hon : (1 : BitVec 2) ≠ 0 := by decide
  cases call with
  | step =>
    have hmode := reactive_rgbMatrixStep hs.mode_le
    exact not_congr (and_congr_right fun _ => and_congr_left fun _ => hmode)
  | stepReverse =>
    have hmode := reactive_rgbMatrixStepReverse hs.mode_pos
    exact not_congr (and_congr_right fun _ => and_congr_left fun _ => hmode)
  | increaseSpeed =>
    have hspeed := qadd8_ne_zero c.speed (j := rgbMatrixSpdStep) (by decide)
    exact iff_of_true (fun h => hspeed h.2.2) trivial
  | decreaseSpeed =>
    have hspeed := qsub8_eq_zero_iff c.speed rgbMatrixSpdStep
    exact not_congr (and_congr_right fun _ => and_congr_right fun _ => hspeed)
  | enable => exact not_congr (and_iff_right hon)
  | disable => exact iff_of_true (fun h => h.1 rfl) trivial
  | toggle =>
    rw [MatrixCall.set, rgbMatrixToggle]
    split
    · next hlit => exact iff_of_true (fun h => h.1 rfl) fun h => hlit h.1
    · next hdark =>
      have hiff : (1 : BitVec 2) ≠ 0 ↔ c.enable = 0 := iff_of_true hon (Decidable.not_not.mp hdark)
      exact not_congr (and_congr_left fun _ => hiff)
  | _ => exact iff_of_true hkeep trivial

/-- One call from a sound configuration keeps it sound exactly when it avoids
the division. -/
theorem set_sound_iff {c : RgbConfig} (hs : Sound c) (call : MatrixCall) :
    Sound (call.set c) ↔ AvoidsZero c call := by
  obtain ⟨hpos, hle⟩ := set_mode hs.mode_pos hs.mode_le call
  rw [sound_iff_bounds, ← set_avoidsZero_iff hs]
  exact ⟨fun h => h.2.2.2, fun h => ⟨hpos, hle, set_val hs.val_le call, h⟩⟩

/-! ## Runs -/

/-- A run stays sound exactly when it starts so and each call avoids the
division. -/
theorem soundAll_iff (s : RgbState) (calls : List MatrixCall) :
    SoundAll C enc s calls ↔ Sound s.config ∧ AvoidsZeroAll C enc s calls := by
  induction calls generalizing s with
  | nil => exact (iff_of_eq (and_true _)).symm
  | cons call calls ih =>
    rw [SoundAll, AvoidsZeroAll, ih]
    refine and_congr_right fun hs => ?_
    rw [← set_sound_iff hs]
    rfl

/-- Only the bytes read tell whether the start is sound; unset ones are
replaced by the defaults, which are. -/
theorem rgbMatrixInit_sound_iff (s : RgbState) :
    Sound (rgbMatrixInit C enc s).config ↔ StoredSound s.ram := by
  have hread : (eeconfigReadRgbMatrix s).config = RgbConfig.ofBytes (configByte s.ram) := rfl
  rw [rgbMatrixInit, StoredSound, ← hread]
  by_cases hunset : (eeconfigReadRgbMatrix s).config.mode = 0
  · have hdefault : Sound rgbMatrixStartup := by
      rw [sound_iff_bounds]
      decide
    rw [if_pos hunset]
    exact iff_of_true hdefault (.inl hunset)
  · have hpos : 1 ≤ (eeconfigReadRgbMatrix s).config.mode.toNat :=
      Nat.one_le_iff_ne_zero.mpr fun h => hunset (BitVec.eq_of_toNat_eq h)
    rw [if_neg hunset, sound_iff_bounds]
    exact ⟨fun h => .inr h.2, fun h => ⟨hpos, h.resolve_left hunset⟩⟩

/-- **RGB matrix settings.** Mode and brightness stay in range and no
reactive effect divides by 0, in every state of a run, exactly if the
stored bytes are unset or sound and every call avoids a speed of 0. -/
theorem matrix_sound_iff (s : RgbState) (calls : List MatrixCall) :
    SoundAll C enc (rgbMatrixInit C enc s) calls ↔
      StoredSound s.ram ∧ AvoidsZeroAll C enc (rgbMatrixInit C enc s) calls := by
  rw [soundAll_iff, rgbMatrixInit_sound_iff]

/-- The next `rgb_matrix_init` finds the settings as the last call left
them. -/
theorem rgbMatrixInit_matrixStep (s : RgbState) (call : MatrixCall)
    (hpos : 1 ≤ (call.set s.config).mode.toNat) :
    (rgbMatrixInit C enc (matrixStep C enc s call)).config = (matrixStep C enc s call).config := by
  have hread : (eeconfigReadRgbMatrix (matrixStep C enc s call)).config = call.set s.config :=
    rgbMatrix_roundTrip C enc { s with config := call.set s.config }
  have hset : (call.set s.config).mode ≠ 0 := fun h => by
    rw [h] at hpos
    exact absurd hpos (by decide)
  rw [rgbMatrixInit, hread, if_neg hset, hread]
  rfl

/-- `config_block` as it is read from erased flash. -/
def erasedConfig : RgbState where
  ram := ({} : Storage).setBlock storageConfig (Vector.replicate _ 0xFF)

/-- A `config_block` with the second reactive effect, at its slowest. -/
def slowReactiveConfig : RgbState where
  ram := updateBlock {}
    (RgbConfig.bytes { enable := 1, mode := 28, h := 0, s := 255, v := 200, speed := 16 })

/-- Erased bytes are taken for mode 63; and the slowest reactive effect,
slowed down once more, divides by 0. -/
theorem settings_unsound :
    ¬SoundAll clearBits true (rgbMatrixInit clearBits true erasedConfig) [] ∧
      ¬SoundAll clearBits true (rgbMatrixInit clearBits true slowReactiveConfig)
        [.decreaseSpeed] := by
  refine ⟨fun h => ?_, fun h => ?_⟩
  · have hle := Sound.mode_le h
    exact absurd hle (by decide)
  · have hdivides := Sound.divides h.2
    exact absurd hdivides (by decide)

end Ch583Kbd.Rgb
