/-
Ch583Kbd.Tmk.MouseKeySafety — what mouse reports can show over runs of the
mouse-key functions.

The parameters are whatever the run starts with or the mousekey console
sets on the way; every call brings its own `timer_read()`. `Held` goes by
the last call for a key, so that nothing depends on presses and releases
taking turns.
-/
import Ch583Kbd.Tmk.ReportMarks
import Ch583Kbd.Lib.Trace
import Ch583Kbd.Tmk.NkroKeys
import Mathlib.Tactic.SplitIfs

namespace Ch583Kbd.Tmk

/-- The calls into `mousekey.c`. -/
inductive MouseOp where
  | on (code : BitVec 8)
  | off (code : BitVec 8)
  | task (timer : BitVec 16)
  | send (timer : BitVec 16)
  | clear
  | configure (params : MouseParams)
  deriving DecidableEq

namespace MouseKey

/-- The state after `mousekey_send`. -/
def send (m : MouseKey) (timer : BitVec 16) : MouseKey := { m with lastTimer := timer }

def task (m : MouseKey) (timer : BitVec 16) : MouseKey :=
  if m.due timer then m.advance.send timer else m

def apply (m : MouseKey) : MouseOp → MouseKey
  | .on code => m.on code
  | .off code => m.off code
  | .task timer => m.task timer
  | .send timer => m.send timer
  | .clear => m.clear
  | .configure params => { m with params := params }

/-- The state after the calls, from the one at power-up but for the
parameters. -/
def run (params : MouseParams) (ops : List MouseOp) : MouseKey :=
  ops.foldl apply { params := params }

theorem run_concat (params : MouseParams) (ops : List MouseOp) (op : MouseOp) :
    run params (ops ++ [op]) = (run params ops).apply op := by
  simp [run]

end MouseKey

theorem ActionState.mousekeySend_mouse (s : ActionState) :
    s.mousekeySend.mouse = s.mouse.apply (.send s.timer) := rfl

/-- `mousekey_task` is one operation on the mouse, at the time there is. -/
theorem ActionState.mousekeyTask_mouse (s : ActionState) :
    s.mousekeyTask.mouse = s.mouse.apply (.task s.timer) := by
  rw [mousekeyTask, MouseKey.apply, MouseKey.task]
  split <;> rfl

/-- The key has been pressed, and since then neither released nor cleared. -/
def mouseHeldStep (code : BitVec 8) (held : Bool) : MouseOp → Bool
  | .on c => held || c = code
  | .off c => held && c ≠ code
  | .clear => false
  | _ => held

def MouseHeld (ops : List MouseOp) (code : BitVec 8) : Prop :=
  ops.foldl (mouseHeldStep code) false = true

instance (ops : List MouseOp) (code : BitVec 8) : Decidable (MouseHeld ops code) :=
  inferInstanceAs (Decidable (_ = true))

theorem mouseHeld_concat (ops : List MouseOp) (op : MouseOp) (code : BitVec 8) :
    MouseHeld (ops ++ [op]) code ↔
      mouseHeldStep code (ops.foldl (mouseHeldStep code) false) op = true := by
  simp [MouseHeld]

/-! ## Units -/

namespace MouseKey

/-- `unit` in the widths of the source, if it does not divide by zero. -/
def checkedUnit (m : MouseKey) (delta : Nat) (maxSpeed timeToMax : BitVec 8) :
    Option (BitVec 8) :=
  let steady : BitVec 16 := BitVec.ofNat 16 (delta * maxSpeed.toNat)
  let unit : Option (BitVec 16) :=
    if m.accel.getLsbD 0 then some (BitVec.ofNat 16 (delta * maxSpeed.toNat / 4))
    else if m.accel.getLsbD 1 then some (BitVec.ofNat 16 (delta * maxSpeed.toNat / 2))
    else if m.accel.getLsbD 2 then some steady
    else if m.rep = 0 then some (BitVec.ofNat 16 delta)
    else if timeToMax ≤ m.rep then some steady
    else if timeToMax = 0 then none
    else some (BitVec.ofNat 16 (delta * maxSpeed.toNat * m.rep.toNat / timeToMax.toNat))
  unit.map fun unit =>
    if mousekeyMax < unit.toNat then BitVec.ofNat 8 mousekeyMax
    else if unit = 0 then 1 else unit.setWidth 8

def checkedMoveUnit (m : MouseKey) : Option (BitVec 8) :=
  m.checkedUnit mousekeyMoveDelta m.params.maxSpeed m.params.timeToMax

def checkedWheelUnit (m : MouseKey) : Option (BitVec 8) :=
  m.checkedUnit mousekeyWheelDelta m.params.wheelMaxSpeed m.params.wheelTimeToMax

/-- The quotient of the acceleration is below the steady speed. -/
theorem accelerated_le {delta : Nat} {maxSpeed timeToMax rep : BitVec 8}
    (hrep : ¬ timeToMax ≤ rep) :
    delta * maxSpeed.toNat * rep.toNat / timeToMax.toNat ≤ delta * maxSpeed.toNat := by
  have hlt : rep.toNat < timeToMax.toNat := Nat.not_le.mp hrep
  refine Nat.div_le_of_le_mul ?_
  rw [Nat.mul_comm timeToMax.toNat]
  exact Nat.mul_le_mul_left _ (Nat.le_of_lt hlt)

/-- No unit outgrows 16 bits before it is clamped. -/
theorem clamp16_eq {n : Nat} (hn : n ≤ 1275) :
    (if mousekeyMax < (BitVec.ofNat 16 n).toNat then BitVec.ofNat 8 mousekeyMax
      else if BitVec.ofNat 16 n = 0 then 1 else (BitVec.ofNat 16 n).setWidth 8) =
    BitVec.ofNat 8 (if mousekeyMax < n then mousekeyMax else if n = 0 then 1 else n) := by
  have hfit : (BitVec.ofNat 16 n).toNat = n := by
    rw [BitVec.toNat_ofNat]
    exact Nat.mod_eq_of_lt (by omega)
  have hzero : BitVec.ofNat 16 n = 0 ↔ n = 0 := by
    rw [← BitVec.toNat_inj, hfit]
    rfl
  rw [hfit]
  split
  · rfl
  · by_cases hn0 : n = 0
    · rw [if_pos (hzero.mpr hn0), if_pos hn0]
      rfl
    · rw [if_neg (fun h => hn0 (hzero.mp h)), if_neg hn0]
      exact BitVec.eq_of_toNat_eq (by simp)

/-- A unit that is computed, and fits. -/
def Fits16 (unit : Option (BitVec 16)) (n : Nat) : Prop :=
  unit = some (BitVec.ofNat 16 n) ∧ n ≤ 1275

theorem Fits16.ite {p : Prop} [Decidable p] {unit unit' : Option (BitVec 16)} {n n' : Nat}
    (h : p → Fits16 unit n) (h' : ¬p → Fits16 unit' n') :
    Fits16 (if p then unit else unit') (if p then n else n') := by
  split
  case isTrue hp => exact h hp
  case isFalse hp => exact h' hp

/-- A unit that was computed without overflow is clamped to a byte. -/
theorem Fits16.clamped {unit : Option (BitVec 16)} {n : Nat} (h : Fits16 unit n) :
    (unit.map fun unit => if mousekeyMax < unit.toNat then BitVec.ofNat 8 mousekeyMax
        else if unit = 0 then 1 else unit.setWidth 8) =
      some (BitVec.ofNat 8 (if mousekeyMax < n then mousekeyMax else if n = 0 then 1 else n)) := by
  rw [h.1, Option.map_some, clamp16_eq h.2]

/-- No product in the computation of a unit leaves 16 bits. -/
theorem checkedUnit_eq (m : MouseKey) {delta : Nat} (hdelta : delta ≤ 5)
    (maxSpeed timeToMax : BitVec 8) :
    m.checkedUnit delta maxSpeed timeToMax =
      some (BitVec.ofNat 8 (m.unit delta maxSpeed timeToMax)) := by
  have hsteady : delta * maxSpeed.toNat ≤ 1275 :=
    Nat.mul_le_mul hdelta (Nat.le_of_lt_succ maxSpeed.isLt)
  refine Fits16.clamped (.ite (fun _ => ⟨rfl, by omega⟩) fun _ => ?_)
  refine .ite (fun _ => ⟨rfl, by omega⟩) fun _ => ?_
  refine .ite (fun _ => ⟨rfl, hsteady⟩) fun _ => ?_
  refine .ite (fun _ => ⟨rfl, by omega⟩) fun _ => ?_
  refine .ite (fun _ => ⟨rfl, hsteady⟩) fun hrep => ?_
  have hne : timeToMax ≠ 0 := by
    rintro rfl
    exact hrep (Nat.zero_le _)
  rw [if_neg hne]
  exact ⟨rfl, (accelerated_le hrep).trans hsteady⟩

/-- A unit is at most 127. -/
theorem unit_le (m : MouseKey) (delta : Nat) (maxSpeed timeToMax : BitVec 8) :
    m.unit delta maxSpeed timeToMax ≤ 127 := by
  rw [unit]
  generalize (if m.accel.getLsbD 0 then delta * maxSpeed.toNat / 4
    else if m.accel.getLsbD 1 then delta * maxSpeed.toNat / 2
    else if m.accel.getLsbD 2 then delta * maxSpeed.toNat
    else if m.rep = 0 then delta
    else if timeToMax ≤ m.rep then delta * maxSpeed.toNat
    else delta * maxSpeed.toNat * m.rep.toNat / timeToMax.toNat) = n
  rw [mousekeyMax]
  split
  · omega
  · split <;> omega

/-- The counter part of `advance`. -/
def accelerate (m : MouseKey) : MouseKey :=
  if m.rep ≠ 255 then { m with rep := m.rep + 1 } else m

/-- The report part of `advance`. -/
def moved (m : MouseKey) : MouseReport :=
  let x := resign m.report.x m.moveUnit
  let y := resign m.report.y m.moveUnit
  let diagonal := x ≠ 0 ∧ y ≠ 0
  { m.report with
    x := if diagonal then (x * 7).tdiv 10 else x
    y := if diagonal then (y * 7).tdiv 10 else y
    v := resign m.report.v m.wheelUnit
    h := resign m.report.h m.wheelUnit }

theorem accelerate_report (m : MouseKey) : m.accelerate.report = m.report := by
  rw [accelerate]
  split <;> rfl

theorem accelerate_accel (m : MouseKey) : m.accelerate.accel = m.accel := by
  rw [accelerate]
  split <;> rfl

theorem accelerate_params (m : MouseKey) : m.accelerate.params = m.params := by
  rw [accelerate]
  split <;> rfl

/-! ## Bits -/

/-- The mask of the `k`th key of a bit field. -/
def mask (k : Nat) : BitVec 8 := 1#8 <<< k

theorem getLsbD_mask {k : Nat} (hk : k < 8) (i : Nat) : (mask k).getLsbD i = decide (i = k) := by
  rw [mask]
  by_cases hi : i < 8
  · exact KeyReport.getLsbD_bit k hi
  · rw [BitVec.getLsbD_of_ge _ _ (by omega), eq_comm, decide_eq_false_iff_not]
    omega

/-- What a call does to a field with one bit for each of the `n` keys from
the code `base` on. -/
def opBits (base n : Nat) (bits : BitVec 8) : MouseOp → BitVec 8
  | .on code =>
    if base ≤ code.toNat ∧ code.toNat < base + n then bits ||| mask (code.toNat - base) else bits
  | .off code =>
    if base ≤ code.toNat ∧ code.toNat < base + n then bits &&& ~~~mask (code.toNat - base)
    else bits
  | .clear => 0
  | _ => bits

theorem opBits_on_other {base n : Nat} {code : BitVec 8}
    (h : ¬ (base ≤ code.toNat ∧ code.toNat < base + n)) (bits : BitVec 8) :
    opBits base n bits (.on code) = bits := if_neg h

theorem opBits_off_other {base n : Nat} {code : BitVec 8}
    (h : ¬ (base ≤ code.toNat ∧ code.toNat < base + n)) (bits : BitVec 8) :
    opBits base n bits (.off code) = bits := if_neg h

/-- The `i`th of the keys from the code `base` on. -/
def keyFrom (base i : Nat) : BitVec 8 := BitVec.ofNat 8 (base + i)

/-- The codes of one kind are numbered from a base. -/
theorem eq_keyFrom_iff (code : BitVec 8) {base i : Nat} (hi : base + i < 256) :
    code = keyFrom base i ↔ code.toNat = base + i := by
  rw [← BitVec.toNat_inj, keyFrom, BitVec.toNat_ofNat, Nat.mod_eq_of_lt hi]

section Bits

variable {base n : Nat} (hn : n ≤ 8) (hbase : base + n ≤ 256)

include hn hbase

/-- A bit of the field changes as its key's being held does. -/
theorem opBits_key (bits : BitVec 8) (op : MouseOp) {i : Nat} (hi : i < n) :
    (opBits base n bits op).getLsbD i =
      mouseHeldStep (keyFrom base i) (bits.getLsbD i) op := by
  cases op with
  | on code =>
    rw [opBits, mouseHeldStep, decide_eq_decide.mpr (eq_keyFrom_iff code (by omega))]
    split
    · next hcode =>
      rw [BitVec.getLsbD_or, getLsbD_mask (by omega),
        decide_eq_decide.mpr (by omega : i = code.toNat - base ↔ code.toNat = base + i)]
    · rw [decide_eq_false (by omega), Bool.or_false]
  | off code =>
    rw [opBits, mouseHeldStep,
      decide_eq_decide.mpr (not_congr (eq_keyFrom_iff code (by omega))), decide_not]
    split
    · next hcode =>
      rw [BitVec.getLsbD_and, BitVec.getLsbD_not, getLsbD_mask (by omega),
        decide_eq_true (by omega : i < 8), Bool.true_and,
        decide_eq_decide.mpr (by omega : i = code.toNat - base ↔ code.toNat = base + i)]
    · rw [decide_eq_false (by omega), Bool.not_false, Bool.and_true]
  | clear => exact BitVec.getLsbD_zero
  | task | send | configure => rfl

omit hbase in
/-- The bits above those of the kind stay clear. -/
theorem opBits_above {bits : BitVec 8} {i : Nat} (hi : n ≤ i) (h : bits.getLsbD i = false)
    (op : MouseOp) : (opBits base n bits op).getLsbD i = false := by
  cases op with
  | on code =>
    rw [opBits]
    split
    · rw [BitVec.getLsbD_or, h, getLsbD_mask (by omega), decide_eq_false (by omega)]
      rfl
    · exact h
  | off code =>
    rw [opBits]
    split
    · rw [BitVec.getLsbD_and, h, Bool.false_and]
    · exact h
  | clear => exact BitVec.getLsbD_zero
  | task | send | configure => exact h

/-- After a run the bit of a key is set when the key is held. -/
theorem foldl_opBits (ops : List MouseOp) (i : Nat) :
    (ops.foldl (opBits base n) 0).getLsbD i = true ↔ i < n ∧ MouseHeld ops (keyFrom base i) := by
  by_cases hi : i < n
  · rw [MouseHeld, and_iff_right hi]
    induction ops using List.reverseRecOn with
    | nil => simp
    | append_singleton ops op ih =>
      rw [List.foldl_concat, List.foldl_concat, opBits_key hn hbase _ op hi,
        Bool.eq_iff_iff.mpr ih]
  · have hclear : (ops.foldl (opBits base n) 0).getLsbD i = false := by
      induction ops using List.reverseRecOn with
      | nil => exact BitVec.getLsbD_zero
      | append_singleton ops op ih =>
        rw [List.foldl_concat]
        exact opBits_above hn (by omega) ih op
    exact iff_of_false (Bool.eq_false_iff.mp hclear) fun h => hi h.1

end Bits

/-- A press changes the bit of its own button. -/
theorem on_buttons_eq (m : MouseKey) (code : BitVec 8) :
    (m.on code).report.buttons = opBits 0xF4 5 m.report.buttons (.on code) := by
  unfold on
  split
  case h_17 =>
    simp only [imp_false] at *
    rw [opBits_on_other (by omega)]
  all_goals next h => simp [opBits, h, mask]

theorem on_accel_eq (m : MouseKey) (code : BitVec 8) :
    (m.on code).accel = opBits 0xFD 3 m.accel (.on code) := by
  unfold on
  split
  case h_17 =>
    simp only [imp_false] at *
    rw [opBits_on_other (by omega)]
  all_goals next h => simp [opBits, h, mask]

theorem off_report (m : MouseKey) (code : BitVec 8) :
    (m.off code).report = (m.release code).report := by
  rw [off]
  split <;> rfl

theorem off_accel (m : MouseKey) (code : BitVec 8) :
    (m.off code).accel = (m.release code).accel := by
  rw [off]
  split <;> rfl

/-- A release clears the bit of its own button. -/
theorem release_buttons_eq (m : MouseKey) (code : BitVec 8) :
    (m.release code).report.buttons = opBits 0xF4 5 m.report.buttons (.off code) := by
  unfold release
  split
  case h_17 =>
    simp only [imp_false] at *
    rw [opBits_off_other (by omega)]
  case h_9 h | h_10 h | h_11 h | h_12 h | h_13 h => simp [opBits, h, mask]
  case h_14 h | h_15 h | h_16 h => rw [opBits_off_other (by omega)]
  all_goals
    next h =>
      rw [opBits_off_other (by omega)]
      split <;> rfl

theorem release_accel_eq (m : MouseKey) (code : BitVec 8) :
    (m.release code).accel = opBits 0xFD 3 m.accel (.off code) := by
  unfold release
  split
  case h_17 =>
    simp only [imp_false] at *
    rw [opBits_off_other (by omega)]
  case h_14 h | h_15 h | h_16 h => simp [opBits, h, mask]
  case h_9 h | h_10 h | h_11 h | h_12 h | h_13 h => rw [opBits_off_other (by omega)]
  all_goals
    next h =>
      rw [opBits_off_other (by omega)]
      split <;> rfl

theorem advance_buttons (m : MouseKey) : m.advance.report.buttons = m.report.buttons := by
  have h := congrArg MouseReport.buttons m.accelerate_report
  exact h

theorem advance_accel (m : MouseKey) : m.advance.accel = m.accel := m.accelerate_accel

/-- Every operation treats the buttons as bits of held keys. -/
theorem apply_buttons (m : MouseKey) (op : MouseOp) :
    (m.apply op).report.buttons = opBits 0xF4 5 m.report.buttons op := by
  cases op with
  | on code => exact m.on_buttons_eq code
  | off code => rw [apply, off_report, release_buttons_eq]
  | task timer =>
    rw [apply, task]
    split
    · exact m.advance_buttons
    · rfl
  | send | clear | configure => rfl

/-- Every operation treats the acceleration keys as bits of held keys. -/
theorem apply_accel (m : MouseKey) (op : MouseOp) :
    (m.apply op).accel = opBits 0xFD 3 m.accel op := by
  cases op with
  | on code => exact m.on_accel_eq code
  | off code => rw [apply, off_accel, release_accel_eq]
  | task timer =>
    rw [apply, task]
    split
    · exact m.advance_accel
    · rfl
  | send | clear | configure => rfl

/-- The buttons of the report are the button keys that are held. -/
theorem run_buttons (params : MouseParams) (ops : List MouseOp) :
    (run params ops).report.buttons = ops.foldl (opBits 0xF4 5) 0 := by
  induction ops using List.reverseRecOn with
  | nil => rfl
  | append_singleton ops op ih => rw [run_concat, apply_buttons, ih, List.foldl_concat]

/-- The acceleration bits are the acceleration keys that are held. -/
theorem run_accel (params : MouseParams) (ops : List MouseOp) :
    (run params ops).accel = ops.foldl (opBits 0xFD 3) 0 := by
  induction ops using List.reverseRecOn with
  | nil => rfl
  | append_singleton ops op ih => rw [run_concat, apply_accel, ih, List.foldl_concat]

/-! ## Axes -/

/-- A key that was released is not shown. -/
theorem not_shows_off (m : MouseKey) (code : BitVec 8) : ¬ (m.off code).report.Shows code := by
  have hbit : ∀ i < 5, code.toNat = 0xF4 + i →
      (m.release code).report.buttons.getLsbD i = false := by
    intro i hi hcode
    rw [release_buttons_eq, opBits_key (by decide) (by decide) _ _ hi, mouseHeldStep,
      (eq_keyFrom_iff code (by omega)).mpr hcode]
    simp
  rw [off_report]
  intro h
  unfold MouseReport.Shows at h
  split at h
  case h_14 => exact h
  case h_5 hc | h_6 hc | h_7 hc | h_8 hc | h_9 hc =>
    exact absurd (h.symm.trans (hbit _ (by decide) hc)) (by decide)
  all_goals
    next hc =>
      simp only [release, hc] at h
      split at h
      · exact absurd h (Int.lt_irrefl 0)
      · next hnot => exact hnot h

/-- The task shows no new direction. -/
theorem task_shows {m : MouseKey} {timer : BitVec 16} {code : BitVec 8}
    (h : (m.task timer).report.Shows code) : m.report.Shows code := by
  rw [task] at h
  split at h
  · exact m.fades_advance.shows h
  · exact h

/-- Only a key that is held is shown. -/
theorem apply_shows {m : MouseKey} {op : MouseOp} {code : BitVec 8} {held : Bool}
    (hm : m.report.Shows code → held = true) (h : (m.apply op).report.Shows code) :
    mouseHeldStep code held op = true := by
  cases op with
  | on c =>
    rw [mouseHeldStep, Bool.or_eq_true, decide_eq_true_iff]
    exact (shows_on h).symm.imp hm Eq.symm
  | off c =>
    rw [mouseHeldStep, Bool.and_eq_true, decide_eq_true_iff]
    refine ⟨hm ((m.fades_off c).shows h), ?_⟩
    rintro rfl
    exact m.not_shows_off c h
  | task timer => exact hm (task_shows h)
  | send timer => exact hm h
  | clear => exact absurd h (not_shows_init code)
  | configure params => exact hm h

/-- In every run only a key that is held is shown. -/
theorem run_shows {params : MouseParams} {ops : List MouseOp} {code : BitVec 8}
    (h : (run params ops).report.Shows code) : MouseHeld ops code := by
  induction ops using List.reverseRecOn with
  | nil => exact absurd h (not_shows_init code)
  | append_singleton ops op ih =>
    rw [run_concat] at h
    exact (mouseHeld_concat ops op code).mpr (apply_shows ih h)

/-! ## Ranges -/

theorem moveUnit_le (m : MouseKey) : m.moveUnit ≤ 127 := by
  have h := m.unit_le mousekeyMoveDelta m.params.maxSpeed m.params.timeToMax
  unfold moveUnit
  omega

theorem wheelUnit_le (m : MouseKey) : m.wheelUnit ≤ 127 := by
  have h := m.unit_le mousekeyWheelDelta m.params.wheelMaxSpeed m.params.wheelTimeToMax
  unfold wheelUnit
  omega

/-- What an `int8_t` axis may be. -/
def AxisInRange (axis : Int) : Prop := -127 ≤ axis ∧ axis ≤ 127

structure InRange (r : MouseReport) : Prop where
  x : AxisInRange r.x
  y : AxisInRange r.y
  v : AxisInRange r.v
  h : AxisInRange r.h

theorem inRange_init : InRange {} := by
  constructor <;> exact ⟨by decide, by decide⟩

/-- A press keeps every axis within -127 and 127. -/
theorem inRange_on {m : MouseKey} (h : InRange m.report) (code : BitVec 8) :
    InRange (m.on code).report := by
  obtain ⟨⟨hx, hx'⟩, ⟨hy, hy'⟩, ⟨hv, hv'⟩, ⟨hh, hh'⟩⟩ := h
  have hmove := m.moveUnit_pos
  have hmove' := m.moveUnit_le
  have hwheel := m.wheelUnit_pos
  have hwheel' := m.wheelUnit_le
  constructor <;> rw [AxisInRange]
  · rw [on_x]; split_ifs <;> omega
  · rw [on_y]; split_ifs <;> omega
  · rw [on_v]; split_ifs <;> omega
  · rw [on_h]; split_ifs <;> omega

/-- A release keeps every axis within -127 and 127. -/
theorem inRange_off {m : MouseKey} (h : InRange m.report) (code : BitVec 8) :
    InRange (m.off code).report := by
  have hzero : AxisInRange 0 := ⟨by decide, by decide⟩
  rw [off_report]
  unfold release
  split
  case h_9 | h_10 | h_11 | h_12 | h_13 => exact ⟨h.x, h.y, h.v, h.h⟩
  case h_14 | h_15 | h_16 | h_17 => exact h
  all_goals
    split
    · first
        | exact ⟨h.x, hzero, h.v, h.h⟩ | exact ⟨hzero, h.y, h.v, h.h⟩
        | exact ⟨h.x, h.y, hzero, h.h⟩ | exact ⟨h.x, h.y, h.v, hzero⟩
    · exact h

/-- A unit of at most 127 on an axis keeps it in range. -/
theorem resign_inRange {axis unit : Int} (h : AxisInRange axis) (hpos : 0 < unit)
    (hle : unit ≤ 127) : AxisInRange (resign axis unit) := by
  obtain ⟨hlow, hhigh⟩ := h
  rw [resign, AxisInRange]
  split_ifs <;> omega

theorem tdiv_inRange {n : Int} (h : AxisInRange n) : AxisInRange ((n * 7).tdiv 10) := by
  obtain ⟨hlow, hhigh⟩ := h
  rw [AxisInRange]
  rcases Int.le_total 0 n with hn | hn
  · rw [Int.tdiv_eq_ediv_of_nonneg (by omega)]
    omega
  · have hneg : (n * 7).tdiv 10 = -((-(n * 7)).tdiv 10) := by rw [Int.neg_tdiv, Int.neg_neg]
    rw [hneg, Int.tdiv_eq_ediv_of_nonneg (by omega)]
    omega

/-- A move keeps every axis within -127 and 127. -/
theorem inRange_moved {m : MouseKey} (h : InRange m.report) : InRange m.moved := by
  have hx := resign_inRange h.x m.moveUnit_pos m.moveUnit_le
  have hy := resign_inRange h.y m.moveUnit_pos m.moveUnit_le
  refine ⟨?_, ?_, resign_inRange h.v m.wheelUnit_pos m.wheelUnit_le,
    resign_inRange h.h m.wheelUnit_pos m.wheelUnit_le⟩
  · rw [moved]
    dsimp only
    split
    · exact tdiv_inRange hx
    · exact hx
  · rw [moved]
    dsimp only
    split
    · exact tdiv_inRange hy
    · exact hy

/-- Every operation keeps every axis within -127 and 127. -/
theorem inRange_apply {m : MouseKey} (h : InRange m.report) (op : MouseOp) :
    InRange (m.apply op).report := by
  cases op with
  | on code => exact inRange_on h code
  | off code => exact inRange_off h code
  | task timer =>
    have hreport : InRange m.accelerate.report := m.accelerate_report ▸ h
    rw [apply, task]
    split
    · exact inRange_moved hreport
    · exact h
  | clear => exact inRange_init
  | send | configure => exact h

/-- **Every run keeps every axis within -127 and 127.** -/
theorem run_inRange (params : MouseParams) (ops : List MouseOp) :
    InRange (run params ops).report :=
  Lib.foldl_invariant (P := fun m : MouseKey => InRange m.report) (R := fun _ => True)
    (fun _ op h _ => inRange_apply h op) inRange_init fun _ _ => trivial

/-! ## No key held -/

/-- `IS_MOUSEKEY`. -/
def IsMousekey (code : BitVec 8) : Prop := 0xF0 ≤ code.toNat

instance (code : BitVec 8) : Decidable (IsMousekey code) := inferInstanceAs (Decidable (_ ≤ _))

/-- Without a held mouse key the report is the one at power-up. -/
theorem report_of_none_held {params : MouseParams} {ops : List MouseOp}
    (h : ∀ code, IsMousekey code → ¬ MouseHeld ops code) : (run params ops).report = {} := by
  have hshows : ∀ code, IsMousekey code → ¬ (run params ops).report.Shows code :=
    fun code hcode hshown => h code hcode (run_shows hshown)
  have hbuttons : (run params ops).report.buttons = 0 := by
    refine BitVec.eq_of_getLsbD_eq fun i _ => ?_
    rw [run_buttons]
    refine Eq.trans (Bool.eq_false_iff.mpr fun hbit => ?_) BitVec.getLsbD_zero.symm
    obtain ⟨hi, hheld⟩ := (foldl_opBits (by decide) (by decide) ops i).mp hbit
    refine h _ ?_ hheld
    rw [IsMousekey, keyFrom, BitVec.toNat_ofNat]
    omega
  have hup : ¬ (run params ops).report.y < 0 := hshows 0xF0 (by decide)
  have hdown : ¬ 0 < (run params ops).report.y := hshows 0xF1 (by decide)
  have hleft : ¬ (run params ops).report.x < 0 := hshows 0xF2 (by decide)
  have hright : ¬ 0 < (run params ops).report.x := hshows 0xF3 (by decide)
  have hwheelUp : ¬ 0 < (run params ops).report.v := hshows 0xF9 (by decide)
  have hwheelDown : ¬ (run params ops).report.v < 0 := hshows 0xFA (by decide)
  have hwheelLeft : ¬ (run params ops).report.h < 0 := hshows 0xFB (by decide)
  have hwheelRight : ¬ 0 < (run params ops).report.h := hshows 0xFC (by decide)
  generalize (run params ops).report = r at *
  obtain ⟨buttons, x, y, v, h⟩ := r
  simp only [MouseReport.mk.injEq]
  dsimp only at *
  refine ⟨hbuttons, ?_, ?_, ?_, ?_⟩ <;> omega

theorem on_rep (m : MouseKey) (code : BitVec 8) : (m.on code).rep = m.rep := by
  unfold on
  split <;> rfl

/-- Where no mouse key is held there is nothing to repeat. -/
theorem rep_of_none_held {params : MouseParams} {ops : List MouseOp}
    (h : ∀ code, IsMousekey code → ¬ MouseHeld ops code) : (run params ops).rep = 0 := by
  induction ops using List.reverseRecOn with
  | nil => rfl
  | append_singleton ops op ih =>
    rw [run_concat]
    cases op with
    | on code =>
      have hbefore : ∀ c, IsMousekey c → ¬ MouseHeld ops c := fun c hc hheld =>
        h c hc ((mouseHeld_concat ops _ c).mpr (Bool.or_eq_true_iff.mpr (.inl hheld)))
      rw [apply, on_rep, ih hbefore]
    | off code =>
      -- with the last key the axes are at rest, and `off` sees that
      have hreport : (run params (ops ++ [.off code])).report = {} := report_of_none_held h
      rw [run_concat, apply, off_report] at hreport
      rw [apply, off, hreport]
      rfl
    | task timer =>
      have hbefore : ∀ c, IsMousekey c → ¬ MouseHeld ops c := fun c hc hheld =>
        h c hc ((mouseHeld_concat ops _ c).mpr hheld)
      have hreport : (run params ops).report = {} := report_of_none_held hbefore
      have hrest : (run params ops).due timer = false := by
        rw [due, hreport]
        exact Bool.and_false _
      rw [apply, task, hrest, if_neg Bool.false_ne_true, ih hbefore]
    | send timer =>
      exact ih fun c hc hheld => h c hc ((mouseHeld_concat ops _ c).mpr hheld)
    | clear => rfl
    | configure params =>
      exact ih fun c hc hheld => h c hc ((mouseHeld_concat ops _ c).mpr hheld)

/-! ## Safety -/

/-- What can be relied on after the calls `ops`. -/
structure Safe (ops : List MouseOp) (m : MouseKey) : Prop where
  /-- The bits are the held keys, one by one. -/
  buttons : ∀ i, m.report.buttons.getLsbD i = true ↔ i < 5 ∧ MouseHeld ops (keyFrom 0xF4 i)
  accel : ∀ i, m.accel.getLsbD i = true ↔ i < 3 ∧ MouseHeld ops (keyFrom 0xFD i)
  /-- An axis has a sign only while the key of that direction is held. -/
  axes : ∀ code, m.report.Shows code → MouseHeld ops code
  range : InRange m.report
  idle : (∀ code, IsMousekey code → ¬ MouseHeld ops code) → m.report = {} ∧ m.rep = 0

/-- **Safety.** Whatever the parameters, the clock and the order of the
calls, the report shows the held keys and nothing else, within the range
of its axes; and no unit divides by zero or outgrows its width. -/
theorem run_safe (params : MouseParams) (ops : List MouseOp) :
    Safe ops (run params ops) ∧
      ∀ m : MouseKey, m.checkedMoveUnit = some (BitVec.ofInt 8 m.moveUnit) ∧
        m.checkedWheelUnit = some (BitVec.ofInt 8 m.wheelUnit) := by
  refine ⟨⟨fun i => ?_, fun i => ?_, fun _ => run_shows, run_inRange params ops,
    fun h => ⟨report_of_none_held h, rep_of_none_held h⟩⟩, fun m => ⟨?_, ?_⟩⟩
  · rw [run_buttons]
    exact foldl_opBits (by decide) (by decide) ops i
  · rw [run_accel]
    exact foldl_opBits (by decide) (by decide) ops i
  · exact m.checkedUnit_eq (by decide) _ _
  · exact m.checkedUnit_eq (by decide) _ _

end MouseKey

end Ch583Kbd.Tmk
