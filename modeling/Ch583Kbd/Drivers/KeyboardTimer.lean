/-
Ch583Kbd.Drivers.KeyboardTimer — the millisecond clock and its
differences (`DRIVERS/keyboard_timer.c`).

`tick` is what `rt_tick_get` returns at the call. The 16-bit clock runs
modulo 0xFFFF and its differences modulo 2^16; the 32-bit difference adds
`RT_TICK_MAX`, one less than the clock's period, unless the time is
strictly later. `timerElapsed_exact_iff` says when each of them still is
the delay.
-/
import Ch583Kbd.Tmk.Keyboard
import Mathlib.Algebra.Group.Nat.Defs

namespace Ch583Kbd.Drivers

open Tmk

def rtTickMax : BitVec 32 := 0xFFFFFFFF

def timerRead32 (tick : BitVec 32) : BitVec 32 := tick

def timerRead (tick : BitVec 32) : BitVec 16 := (timerRead32 tick % 0xFFFF).setWidth 16

def timerElapsed (tick : BitVec 32) (last : BitVec 16) : BitVec 16 :=
  timerDiff16 (timerRead tick) last

def timerElapsed32 (tick last : BitVec 32) : BitVec 32 :=
  if last < tick then tick - last else tick - last + rtTickMax

/-- The tick `d` ticks after `t`. -/
def laterTick (t : BitVec 32) (d : Nat) : BitVec 32 := t + BitVec.ofNat 32 d

theorem timerRead_toNat (t : BitVec 32) : (timerRead t).toNat = t.toNat % 65535 := by
  have hlt : t.toNat % 65535 < 65536 := by omega
  simpa [timerRead, timerRead32] using hlt

theorem laterTick_toNat (t : BitVec 32) (d : Nat) :
    (laterTick t d).toNat = (t.toNat + d) % 4294967296 := by
  simp [laterTick]

/-- `timer_elapsed` as a number: both readings are modulo 65535, their
difference modulo 65536. -/
theorem timerElapsed_toNat (t t' : BitVec 32) :
    (timerElapsed t' (timerRead t)).toNat =
      (t'.toNat % 65535 + (65536 - t.toNat % 65535)) % 65536 := by
  rw [timerElapsed, timerDiff16, BitVec.toNat_sub, timerRead_toNat, timerRead_toNat, Nat.add_comm]

/-- `timer_elapsed32` as a number: unless the tick is beyond the stored one, it
answers one less than the distance round the clock. -/
theorem timerElapsed32_toNat (t t' : BitVec 32) :
    (timerElapsed32 t' t).toNat =
      if t.toNat < t'.toNat then t'.toNat - t.toNat
      else (t'.toNat + 4294967296 - t.toNat + 4294967295) % 4294967296 := by
  have ht := t.isLt
  have ht' := t'.isLt
  simp only [timerElapsed32, BitVec.lt_def]
  split
  · rw [BitVec.toNat_sub]
    omega
  · have hmax : rtTickMax.toNat = 4294967295 := rfl
    rw [BitVec.toNat_add, BitVec.toNat_sub, hmax]
    omega

/-! ## When a difference is the delay -/

/-- From `t` to `d` ticks later the 16-bit clock does not pass a multiple
of 0xFFFF; or the tick itself wraps, where the clock's jump from 0 to 0
makes up for the difference of the two moduli, except at the last tick. -/
def SameLap (t : BitVec 32) (d : Nat) : Prop :=
  t.toNat + d < 2 ^ 32 ∧ t.toNat % 0xFFFF + d < 0xFFFF ∨
    2 ^ 32 ≤ t.toNat + d ∧ t.toNat ≠ 2 ^ 32 - 1

instance (t : BitVec 32) (d : Nat) : Decidable (SameLap t d) :=
  inferInstanceAs (Decidable (_ ∨ _))

/-- The 16-bit reading is exact while the tick stays within one lap. -/
theorem timerElapsed_eq_iff (t : BitVec 32) {d : Nat} (hd : d < 0xFFFF) :
    (timerElapsed (laterTick t d) (timerRead t)).toNat = d ↔ SameLap t d := by
  have ht := t.isLt
  rw [timerElapsed_toNat, laterTick_toNat, SameLap]
  by_cases hwrap : t.toNat + d < 4294967296
  · rw [Nat.mod_eq_of_lt hwrap]
    omega
  · have hlater : (t.toNat + d) % 4294967296 = t.toNat + d - 4294967296 := by omega
    rw [hlater, Nat.mod_eq_of_lt (by omega : t.toNat + d - 4294967296 < 65535)]
    omega

/-- The 32-bit reading is exact for a delay that does not wrap, and wrong for
none at all. -/
theorem timerElapsed32_eq_iff (t : BitVec 32) {d : Nat} (hd : d < 2 ^ 32 - 1) :
    (timerElapsed32 (laterTick t d) (timerRead32 t)).toNat = d ↔
      0 < d ∧ t.toNat + d < 2 ^ 32 := by
  have ht := t.isLt
  rw [timerRead32, timerElapsed32_toNat, laterTick_toNat]
  by_cases hwrap : t.toNat + d < 4294967296
  · rw [Nat.mod_eq_of_lt hwrap]
    split <;> omega
  · have hlater : (t.toNat + d) % 4294967296 = t.toNat + d - 4294967296 := by omega
    rw [hlater, if_neg (by omega)]
    omega

/-- Both clocks give the delay `d` after the tick `t`, each for the delays
it is used for. -/
def ElapsedExact (t : BitVec 32) (d : Nat) : Prop :=
  (d < 0xFFFF → (timerElapsed (laterTick t d) (timerRead t)).toNat = d) ∧
    (d < 2 ^ 32 - 1 → (timerElapsed32 (laterTick t d) (timerRead32 t)).toNat = d)

instance (t : BitVec 32) (d : Nat) : Decidable (ElapsedExact t d) :=
  inferInstanceAs (Decidable (_ ∧ _))

/-- **Elapsed time.** The 16-bit difference is the delay when the delay
stays within one lap of the clock; the 32-bit difference is when the delay
is not zero and the tick does not wrap. -/
theorem elapsedExact_iff (t : BitVec 32) (d : Nat) :
    ElapsedExact t d ↔
      (d < 0xFFFF → SameLap t d) ∧ (d < 2 ^ 32 - 1 → 0 < d ∧ t.toNat + d < 2 ^ 32) := by
  refine and_congr (imp_congr_right fun hd => ?_) (imp_congr_right fun hd => ?_)
  · exact timerElapsed_eq_iff t hd
  · exact timerElapsed32_eq_iff t hd

/-- No time at all counts as the longest time there is, and the step from
tick 65534 to 65535 as two. -/
theorem elapsed_not_exact : ¬ ElapsedExact 0 0 ∧ ¬ ElapsedExact 65534 1 := by
  decide

end Ch583Kbd.Drivers
