/-
Ch583Kbd.Rgb.Is31fl3733 — the LED driver chips of the RGB matrix and
their PWM buffers (`RGB_top/issi/is31fl3733.c`).

A chip has pages of registers. Its command register, which selects the
page, takes one write after an unlock. A transfer that fails leaves the
chip alone; `ok` says of the transfers of a call which of them succeed.
`IS31FL3733_update_pwm_buffers` clears its flag whatever became of them:
`pwmSound_iff`.
-/
import Mathlib.Data.List.Induction
import Mathlib.Logic.Function.Basic
import Mathlib.Tactic.ByContra
import Mathlib.Tactic.SplitIfs

namespace Ch583Kbd.Rgb.Is31fl3733

def commandRegister : BitVec 8 := 0xFD
def commandRegisterWriteLock : BitVec 8 := 0xFE
def pageLedControl : BitVec 8 := 0
def pagePwm : BitVec 8 := 1
def pageFunction : BitVec 8 := 3
def regConfiguration : BitVec 8 := 0
def regGlobalCurrent : BitVec 8 := 1

/-! ## The chip -/

/-- `regs` has a register of a page. -/
structure Chip where
  page : BitVec 8 := 0
  unlocked : Bool := false
  regs : BitVec 8 → BitVec 8 → BitVec 8 := fun _ _ => 0

namespace Chip

def write (c : Chip) (reg data : BitVec 8) : Chip :=
  if reg = commandRegisterWriteLock then { c with unlocked := data = 0xC5 }
  else if reg = commandRegister then
    if c.unlocked then { c with page := data, unlocked := false } else c
  else { c with regs := fun p r => if p = c.page ∧ r = reg then data else c.regs p r }

/-- The data of a transfer, each byte in the register behind the one
before. -/
def receive (c : Chip) (reg : BitVec 8) : List (BitVec 8) → Chip
  | [] => c
  | data :: rest => (c.write reg data).receive (reg + 1) rest

end Chip

/-! ## Transfers -/

def writeRegister (c : Chip) (reg data : BitVec 8) (ok : Bool) : Bool × Chip :=
  if ok then (true, c.receive reg [data]) else (false, c)

/-- `g_pwm_buffer` of a driver. -/
abbrev PwmBuffer := Fin 192 → BitVec 8

/-- The bytes that `g_twi_transfer_buffer` gets from `pwm_buffer[i]` on. -/
def transferBytes (buffer : PwmBuffer) (i : Nat) : List (BitVec 8) :=
  (List.range' i 16).map fun r => if h : r < 192 then buffer ⟨r, h⟩ else 0

/-- The last `n` transfers of `IS31FL3733_write_pwm_buffer`, the next of
them the `k`th. -/
def writeBlocks (buffer : PwmBuffer) (ok : Nat → Bool) : (n k : Nat) → Chip → Bool × Chip
  | 0, _, c => (true, c)
  | n + 1, k, c =>
    if ok k then
      writeBlocks buffer ok n (k + 1)
        (c.receive (BitVec.ofNat 8 (16 * k)) (transferBytes buffer (16 * k)))
    else (false, c)

def writePwmBuffer (c : Chip) (buffer : PwmBuffer) (ok : Nat → Bool) : Bool × Chip :=
  writeBlocks buffer ok 12 0 c

/-- Writes of `IS31FL3733_init` in their order; the results are ignored. -/
def writeRegisters (c : Chip) (writes : List (BitVec 8 × BitVec 8)) (ok : Nat → Bool) : Chip :=
  writes.zipIdx.foldl (fun c w => (writeRegister c w.1.1 w.1.2 (ok w.2)).2) c

def unlockWrites (page : BitVec 8) : List (BitVec 8 × BitVec 8) :=
  [(commandRegisterWriteLock, 0xC5), (commandRegister, page)]

def clearWrites (n : Nat) : List (BitVec 8 × BitVec 8) :=
  (List.range n).map fun i => (BitVec.ofNat 8 i, 0)

/-- What `IS31FL3733_init` writes last, to end the shutdown. -/
def configuration (sync : BitVec 8) : BitVec 8 := (sync <<< 6) ||| 0x01

def initWrites (sync : BitVec 8) : List (BitVec 8 × BitVec 8) :=
  unlockWrites pageLedControl ++ clearWrites 0x18 ++ (unlockWrites pagePwm ++ clearWrites 0xC0) ++
    unlockWrites pageFunction ++
    [(regGlobalCurrent, 0xFF), (regConfiguration, configuration sync)]

def init (c : Chip) (sync : BitVec 8) (ok : Nat → Bool) : Chip :=
  writeRegisters c (initWrites sync) ok

/-! ## The driver -/

/-- `is31_led` of a board with `n` drivers. -/
structure Is31Led (n : Nat) where
  driver : Fin n
  r : Fin 192
  g : Fin 192
  b : Fin 192
  deriving DecidableEq, Repr

/-- The chips and what the driver keeps for them. -/
structure State (n : Nat) where
  chip : Fin n → Chip
  pwmBuffer : Fin n → PwmBuffer := fun _ _ => 0
  pwmBufferUpdateRequired : Fin n → Bool := fun _ => false
  ledControlRegistersUpdateRequired : Fin n → Bool := fun _ => false

variable {n : Nat} (leds : List (Is31Led n))

def setColor (index : Int) (red green blue : BitVec 8) (s : State n) : State n :=
  if 0 ≤ index then
    match leds[index.toNat]? with
    | some led =>
      let buffer := s.pwmBuffer led.driver
      let buffer := Function.update buffer led.r red
      let buffer := Function.update buffer led.g green
      let buffer := Function.update buffer led.b blue
      { s with
        pwmBuffer := Function.update s.pwmBuffer led.driver buffer
        pwmBufferUpdateRequired := Function.update s.pwmBufferUpdateRequired led.driver true }
    | none => s
  else s

def setColorAll (red green blue : BitVec 8) (s : State n) : State n :=
  (List.range leds.length).foldl (fun s (i : Nat) => setColor leds i red green blue s) s

def updatePwmBuffers (d : Fin n) (ok : Nat → Bool) (s : State n) : State n :=
  let s := if s.pwmBufferUpdateRequired d then
      let c := (writeRegister (s.chip d) commandRegisterWriteLock 0xC5 (ok 0)).2
      let c := (writeRegister c commandRegister pagePwm (ok 1)).2
      let (written, c) := writePwmBuffer c (s.pwmBuffer d) fun k => ok (k + 2)
      { s with
        chip := Function.update s.chip d c
        ledControlRegistersUpdateRequired :=
          if !written then Function.update s.ledControlRegistersUpdateRequired d true
          else s.ledControlRegistersUpdateRequired }
    else s
  { s with pwmBufferUpdateRequired := Function.update s.pwmBufferUpdateRequired d false }

/-! ## Runs -/

inductive Call (n : Nat) where
  | setColor (index : Int) (red green blue : BitVec 8)
  | setColorAll (red green blue : BitVec 8)
  | updatePwmBuffers (d : Fin n) (ok : Nat → Bool)

def Call.apply : Call n → State n → State n
  | .setColor index red green blue => Is31fl3733.setColor leds index red green blue
  | .setColorAll red green blue => Is31fl3733.setColorAll leds red green blue
  | .updatePwmBuffers d ok => Is31fl3733.updatePwmBuffers d ok

def runCalls (s : State n) (calls : List (Call n)) : State n :=
  calls.foldl (fun s call => call.apply leds s) s

/-- Some update of the driver is among the calls. -/
def Updates (d : Fin n) (calls : List (Call n)) : Prop := ∃ ok, .updatePwmBuffers d ok ∈ calls

/-- The PWM page has the buffer. -/
def HasPwm (c : Chip) (buffer : PwmBuffer) : Prop :=
  ∀ r : Fin 192, c.regs pagePwm (BitVec.ofNat 8 r) = buffer r

/-- From an update of the driver on: where its flag is clear, the PWM page
of its chip has its buffer. -/
def PwmSound (chip : Fin n → Chip) (d : Fin n) (calls : List (Call n)) : Prop :=
  ∀ past, past <+: calls → Updates d past →
    let s := runCalls leds { chip := chip } past
    s.pwmBufferUpdateRequired d = false → HasPwm (s.chip d) (s.pwmBuffer d)

/-- The update finds the PWM page selected, or selects it. -/
def Selects (c : Chip) (ok : Nat → Bool) : Prop :=
  c.page = pagePwm ∨ (c.unlocked = true ∨ ok 0 = true) ∧ ok 1 = true

/-- Each byte of the buffer is transferred to the PWM page, unless the page
has it already. -/
def Transfers (c : Chip) (buffer : PwmBuffer) (ok : Nat → Bool) : Prop :=
  ∀ r : Fin 192, (Selects c ok ∧ ∀ k ≤ r.val / 16, ok (k + 2) = true) ∨
    c.regs pagePwm (BitVec.ofNat 8 r) = buffer r

/-! ## What a transfer leaves -/

/-- A write below the two command registers goes to the page that is selected. -/
theorem write_of_lt (c : Chip) {reg : Nat} (hreg : reg < 0xFD) (data : BitVec 8) :
    c.write (BitVec.ofNat 8 reg) data =
      { c with regs := fun p r =>
          if p = c.page ∧ r = BitVec.ofNat 8 reg then data else c.regs p r } := by
  have hne : ∀ special : BitVec 8, 0xFD ≤ special.toNat → BitVec.ofNat 8 reg ≠ special := by
    intro special hspecial heq
    have hval := congrArg BitVec.toNat heq
    rw [BitVec.toNat_ofNat] at hval
    omega
  rw [Chip.write, if_neg (hne _ (by decide)), if_neg (hne _ (by decide))]

/-- A transfer below the command registers goes to the page, in order. -/
theorem receive_of_le (c : Chip) {reg : Nat} {bytes : List (BitVec 8)}
    (hreg : reg + bytes.length ≤ 0xFD) :
    (c.receive (BitVec.ofNat 8 reg) bytes).page = c.page ∧
      (c.receive (BitVec.ofNat 8 reg) bytes).unlocked = c.unlocked ∧
      ∀ p r, r < 0xFD → (c.receive (BitVec.ofNat 8 reg) bytes).regs p (BitVec.ofNat 8 r) =
        if p = c.page ∧ reg ≤ r then bytes.getD (r - reg) (c.regs p (BitVec.ofNat 8 r))
        else c.regs p (BitVec.ofNat 8 r) := by
  induction bytes generalizing c reg with
  | nil => exact ⟨rfl, rfl, fun p r hr => by simp [Chip.receive]⟩
  | cons data rest ih =>
    rw [List.length_cons] at hreg
    have hnext : BitVec.ofNat 8 reg + 1 = BitVec.ofNat 8 (reg + 1) := BitVec.ofNat_add_ofNat reg 1
    have hwrite := write_of_lt c (show reg < 0xFD by omega) data
    obtain ⟨hpage, hunlocked, hregs⟩ := ih (c.write (BitVec.ofNat 8 reg) data)
      (show reg + 1 + rest.length ≤ 0xFD by omega)
    rw [Chip.receive, hnext]
    refine ⟨hpage.trans (by rw [hwrite]), hunlocked.trans (by rw [hwrite]), fun p r hr => ?_⟩
    have hsame : BitVec.ofNat 8 r = BitVec.ofNat 8 reg ↔ r = reg := by
      rw [← BitVec.toNat_inj, BitVec.toNat_ofNat, BitVec.toNat_ofNat]
      omega
    rw [hregs p r hr, hwrite]
    simp only [hsame]
    rcases Nat.lt_trichotomy r reg with hlt | rfl | hgt
    · rw [if_neg (by omega), if_neg (by omega), if_neg (by omega)]
    · by_cases hp : p = c.page
      · rw [if_neg (by omega), if_pos ⟨hp, rfl⟩, if_pos ⟨hp, Nat.le_refl r⟩, Nat.sub_self,
          List.getD_cons_zero]
      · simp [hp]
    · have hindex : r - reg = r - (reg + 1) + 1 := by omega
      by_cases hp : p = c.page
      · rw [if_pos ⟨hp, hgt⟩, if_neg (by omega), if_pos ⟨hp, Nat.le_of_lt hgt⟩, hindex,
          List.getD_cons_succ]
      · simp [hp]

/-- A transfer of 16 bytes carries those of the buffer from `i` on. -/
theorem getD_transferBytes (buffer : PwmBuffer) {i : Nat} (r : Fin 192) (hi : i ≤ r.val)
    (other : BitVec 8) :
    (transferBytes buffer i).getD (r.val - i) other =
      if r.val < i + 16 then buffer r else other := by
  rw [transferBytes, List.getD_eq_getElem?_getD, List.getElem?_map]
  split
  case isTrue hlt =>
    rw [List.getElem?_range' (by omega), Nat.one_mul, Nat.add_sub_cancel' hi]
    simp
  case isFalse hge =>
    rw [List.getElem?_eq_none (by rw [List.length_range']; omega)]
    rfl

/-- A block is transferred to the selected page, and the page is kept. -/
theorem receive_block (buffer : PwmBuffer) {k : Nat} (hk : k < 12) (c : Chip) :
    (c.receive (BitVec.ofNat 8 (16 * k)) (transferBytes buffer (16 * k))).page = c.page ∧
      ∀ r : Fin 192, (c.receive (BitVec.ofNat 8 (16 * k)) (transferBytes buffer (16 * k))).regs
          pagePwm (BitVec.ofNat 8 r) =
        if c.page = pagePwm ∧ r.val / 16 = k then buffer r
        else c.regs pagePwm (BitVec.ofNat 8 r) := by
  have hlen : (transferBytes buffer (16 * k)).length = 16 := by simp [transferBytes]
  obtain ⟨hpage, -, hregs⟩ := receive_of_le c
    (show 16 * k + (transferBytes buffer (16 * k)).length ≤ 0xFD by omega)
  refine ⟨hpage, fun r => ?_⟩
  rw [hregs _ _ (by omega)]
  by_cases hlow : 16 * k ≤ r.val
  · rw [getD_transferBytes buffer r hlow]
    by_cases hp : c.page = pagePwm
    · rw [if_pos ⟨hp.symm, hlow⟩]
      exact if_congr (by rw [and_iff_right hp]; omega) rfl rfl
    · rw [if_neg fun h => hp h.1.symm, if_neg fun h => hp h.1]
  · rw [if_neg fun h => hlow h.2, if_neg (by omega)]

/-- Of the transfers of `IS31FL3733_write_pwm_buffer` those before the first
that fails bring the page up to the buffer. -/
theorem writeBlocks_eq_iff (buffer : PwmBuffer) (ok : Nat → Bool) (m k : Nat) (c : Chip)
    (hblocks : k + m ≤ 12) (r : Fin 192) :
    (writeBlocks buffer ok m k c).2.regs pagePwm (BitVec.ofNat 8 r) = buffer r ↔
      (c.page = pagePwm ∧ k ≤ r.val / 16 ∧ r.val / 16 < k + m ∧
          ∀ j, k ≤ j → j ≤ r.val / 16 → ok j = true) ∨
        c.regs pagePwm (BitVec.ofNat 8 r) = buffer r := by
  induction m generalizing k c with
  | zero =>
    rw [writeBlocks, or_iff_right]
    rintro ⟨-, hlow, hhigh, -⟩
    omega
  | succ m ih =>
    rw [writeBlocks]
    split
    case isTrue hok =>
      obtain ⟨hpage, hregs⟩ := receive_block buffer (k := k) (by omega) c
      rw [ih _ _ (by omega), hpage, hregs]
      by_cases hp : c.page = pagePwm
      case neg => simp [hp]
      by_cases hq : r.val / 16 = k
      · rw [if_pos ⟨hp, hq⟩]
        refine iff_of_true (.inr rfl) (.inl ⟨hp, by omega, by omega, fun j hlow hhigh => ?_⟩)
        obtain rfl : j = k := by omega
        exact hok
      · rw [if_neg fun h => hq h.2]
        refine or_congr_left ⟨?_, ?_⟩
        · rintro ⟨-, hlow, hhigh, hall⟩
          refine ⟨hp, by omega, by omega, fun j hj hjr => ?_⟩
          by_cases hjk : j = k
          · rw [hjk]
            exact hok
          · exact hall j (by omega) hjr
        · rintro ⟨-, hlow, hhigh, hall⟩
          exact ⟨hp, by omega, by omega, fun j hj hjr => hall j (by omega) hjr⟩
    case isFalse hfail =>
      rw [or_iff_right]
      rintro ⟨-, hlow, -, hall⟩
      exact hfail (hall k (Nat.le_refl k) hlow)

/-! ## Selecting a page -/

/-- The two writes of `IS31FL3733_update_pwm_buffers` before its blocks. -/
def selectPwm (c : Chip) (ok : Nat → Bool) : Chip :=
  (writeRegister (writeRegister c commandRegisterWriteLock 0xC5 (ok 0)).2 commandRegister pagePwm
    (ok 1)).2

/-- The unlock code opens the command register for one write. -/
theorem writeRegister_unlock (c : Chip) (ok : Bool) :
    (writeRegister c commandRegisterWriteLock 0xC5 ok).2 =
      { c with unlocked := c.unlocked || ok } := by
  cases ok
  · simp [writeRegister]
  · simp [writeRegister, Chip.receive, Chip.write]

/-- A page is selected only when the command register is open. -/
theorem writeRegister_select (c : Chip) (page : BitVec 8) (ok : Bool) :
    (writeRegister c commandRegister page ok).2 =
      if c.unlocked && ok then { c with page := page, unlocked := false } else c := by
  cases ok
  · simp [writeRegister]
  · simp [writeRegister, Chip.receive, Chip.write, commandRegister, commandRegisterWriteLock]

theorem selectPwm_regs (c : Chip) (ok : Nat → Bool) : (selectPwm c ok).regs = c.regs := by
  rw [selectPwm, writeRegister_select, writeRegister_unlock]
  split <;> rfl

/-- The page is the PWM page exactly when the select arrived or it was there
already. -/
theorem selectPwm_page (c : Chip) (ok : Nat → Bool) :
    (selectPwm c ok).page = pagePwm ↔ Selects c ok := by
  rw [selectPwm, writeRegister_select, writeRegister_unlock, Selects]
  split
  case isTrue h => exact iff_of_true rfl (.inr (by simpa using h))
  case isFalse h => exact (or_iff_left (by simpa using h)).symm

/-! ## One update -/

/-- **One update.** It leaves the buffer on the PWM page exactly where it
transfers what the page does not have. -/
theorem hasPwm_update_iff {d : Fin n} {s : State n} (hdirty : s.pwmBufferUpdateRequired d = true)
    (ok : Nat → Bool) :
    HasPwm ((updatePwmBuffers d ok s).chip d) (s.pwmBuffer d) ↔
      Transfers (s.chip d) (s.pwmBuffer d) ok := by
  have hchip : (updatePwmBuffers d ok s).chip d =
      (writePwmBuffer (selectPwm (s.chip d) ok) (s.pwmBuffer d) fun k => ok (k + 2)).2 := by
    rw [updatePwmBuffers, hdirty]
    exact Function.update_self ..
  refine forall_congr' fun r => ?_
  rw [hchip, writePwmBuffer, writeBlocks_eq_iff _ _ _ _ _ (by decide), selectPwm_regs,
    selectPwm_page]
  refine or_congr_left ⟨?_, ?_⟩
  · rintro ⟨hselects, -, -, hall⟩
    exact ⟨hselects, fun k hk => hall k (Nat.zero_le k) hk⟩
  · rintro ⟨hselects, hall⟩
    exact ⟨hselects, Nat.zero_le _, by omega, fun k _ hk => hall k hk⟩

/-- A buffer whose flag is clear is not sent. -/
theorem update_clean {d : Fin n} {s : State n} (hclean : s.pwmBufferUpdateRequired d = false)
    (ok : Nat → Bool) : (updatePwmBuffers d ok s).chip = s.chip := by
  rw [updatePwmBuffers, hclean, if_neg Bool.false_ne_true]

@[simp] theorem update_pwmBuffer (d : Fin n) (ok : Nat → Bool) (s : State n) :
    (updatePwmBuffers d ok s).pwmBuffer = s.pwmBuffer := by
  rw [updatePwmBuffers]
  split <;> rfl

@[simp] theorem update_flag (d : Fin n) (ok : Nat → Bool) (s : State n) :
    (updatePwmBuffers d ok s).pwmBufferUpdateRequired =
      Function.update s.pwmBufferUpdateRequired d false := by
  rw [updatePwmBuffers]
  split <;> rfl

/-! ## Other calls -/

/-- The chip of `d` is left alone, and so is its buffer unless the flag is
set. -/
structure Frame (d : Fin n) (s s' : State n) : Prop where
  chip : s'.chip d = s.chip d
  clean : s'.pwmBufferUpdateRequired d = false →
    s.pwmBufferUpdateRequired d = false ∧ s'.pwmBuffer d = s.pwmBuffer d

theorem Frame.refl (d : Fin n) (s : State n) : Frame d s s := ⟨rfl, fun h => ⟨h, rfl⟩⟩

theorem Frame.trans {d : Fin n} {s s' s'' : State n} (h : Frame d s s') (h' : Frame d s' s'') :
    Frame d s s'' := by
  refine ⟨h'.chip.trans h.chip, fun hclean => ?_⟩
  obtain ⟨hmid, hbuffer⟩ := h'.clean hclean
  exact ⟨(h.clean hmid).1, hbuffer.trans (h.clean hmid).2⟩

/-- Setting one colour sends nothing, and sets the flag of what it changes. -/
theorem frame_setColor (d : Fin n) (index : Int) (red green blue : BitVec 8) (s : State n) :
    Frame d s (setColor leds index red green blue s) := by
  rw [setColor]
  split
  case isFalse => exact .refl d s
  case isTrue =>
    split
    case h_2 => exact .refl d s
    case h_1 led hled =>
      refine ⟨rfl, fun hclean => ?_⟩
      have hne : d ≠ led.driver := by
        rintro rfl
        exact absurd hclean (by simp)
      exact ⟨(Function.update_of_ne hne ..).symm.trans hclean, Function.update_of_ne hne ..⟩

/-- Setting all colours sends nothing, and sets the flags. -/
theorem frame_setColorAll (d : Fin n) (red green blue : BitVec 8) (s : State n) :
    Frame d s (setColorAll leds red green blue s) := by
  rw [setColorAll]
  induction List.range leds.length generalizing s with
  | nil => exact .refl d s
  | cons i rest ih => exact (frame_setColor leds d i red green blue s).trans (ih _)

/-- Sending one driver's buffer leaves the others alone. -/
theorem frame_update {d d' : Fin n} (hne : d ≠ d') (ok : Nat → Bool) (s : State n) :
    Frame d s (updatePwmBuffers d' ok s) := by
  constructor
  case chip =>
    rw [updatePwmBuffers]
    split
    · exact Function.update_of_ne hne ..
    · rfl
  case clean =>
    rw [update_flag, update_pwmBuffer, Function.update_of_ne hne]
    exact fun h => ⟨h, rfl⟩

/-- Only an update of the driver itself changes its chip or clears its flag. -/
theorem frame_apply {d : Fin n} {call : Call n} (hcall : ∀ ok, call ≠ .updatePwmBuffers d ok)
    (s : State n) : Frame d s (call.apply leds s) := by
  cases call with
  | setColor index red green blue => exact frame_setColor leds d index red green blue s
  | setColorAll red green blue => exact frame_setColorAll leds d red green blue s
  | updatePwmBuffers d' ok =>
    refine frame_update (fun h => ?_) ok s
    exact hcall ok (h ▸ rfl)

/-! ## Runs of calls -/

theorem runCalls_append (s : State n) (past : List (Call n)) (call : Call n) :
    runCalls leds s (past ++ [call]) = call.apply leds (runCalls leds s past) := by
  rw [runCalls, List.foldl_append]
  rfl

/-- A run without an update of `d` leaves its chip alone. -/
theorem frame_run {d : Fin n} {calls : List (Call n)} (hcalls : ¬Updates d calls) (s : State n) :
    Frame d s (runCalls leds s calls) := by
  induction calls using List.reverseRecOn with
  | nil => exact .refl d s
  | append_singleton past call ih =>
    rw [runCalls_append]
    have hpast : ¬Updates d past := fun ⟨ok, hok⟩ => hcalls ⟨ok, List.mem_append_left _ hok⟩
    refine (ih hpast).trans (frame_apply leds (fun ok hcall => ?_) _)
    exact hcalls ⟨ok, by simp [hcall]⟩

/-- Where the flag of `d` is set at an update, all its transfers are carried
out; and if the first update finds it clear, the page was zero. -/
structure CarriedOut (chip : Fin n → Chip) (d : Fin n) (calls : List (Call n)) : Prop where
  transferred : ∀ past ok, past ++ [.updatePwmBuffers d ok] <+: calls →
    let s := runCalls leds { chip := chip } past
    s.pwmBufferUpdateRequired d = true → Transfers (s.chip d) (s.pwmBuffer d) ok
  cleared : ∀ past ok, past ++ [.updatePwmBuffers d ok] <+: calls → ¬Updates d past →
    (runCalls leds { chip := chip } past).pwmBufferUpdateRequired d = false →
    HasPwm (chip d) fun _ => 0

/-- **The dirty flag.** It tells whether the chip has the buffer exactly in
the runs whose transfers all were carried out. -/
theorem pwmSound_iff (chip : Fin n → Chip) (d : Fin n) (calls : List (Call n)) :
    PwmSound leds chip d calls ↔ CarriedOut leds chip d calls := by
  constructor
  · intro h
    have hupdated : ∀ past ok, past ++ [.updatePwmBuffers d ok] <+: calls →
        HasPwm ((updatePwmBuffers d ok (runCalls leds { chip := chip } past)).chip d)
          ((runCalls leds { chip := chip } past).pwmBuffer d) := by
      intro past ok hpast
      have hafter := h _ hpast ⟨ok, by simp⟩
      simpa [runCalls_append, Call.apply] using hafter
    constructor
    case transferred =>
      intro past ok hpast s hdirty
      exact (hasPwm_update_iff hdirty ok).mp (hupdated past ok hpast)
    case cleared =>
      intro past ok hpast hfirst hclean
      have hframe := frame_run leds hfirst { chip := chip }
      have hafter := hupdated past ok hpast
      rw [update_clean hclean, hframe.chip, (hframe.clean hclean).2] at hafter
      exact hafter
  · intro h past
    -- by induction on the calls made so far: the last one is the one to look at
    induction past using List.reverseRecOn with
    | nil => exact fun _ ⟨_, hok⟩ => absurd hok List.not_mem_nil
    | append_singleton past call ih =>
      intro hpast hupdates s hclean
      have hs : s = call.apply leds (runCalls leds { chip := chip } past) :=
        runCalls_append leds _ past call
      have hbefore := ih ((List.prefix_append past [call]).trans hpast)
      generalize hrun : runCalls leds { chip := chip } past = before at hs hbefore
      by_cases hcall : ∃ ok, call = .updatePwmBuffers d ok
      · obtain ⟨ok, rfl⟩ := hcall
        have hbuffer : s.pwmBuffer d = before.pwmBuffer d := by
          rw [hs, Call.apply, update_pwmBuffer]
        rw [hbuffer, hs]
        cases hdirty : before.pwmBufferUpdateRequired d with
        | true =>
          have htransfers := h.transferred past ok hpast (hrun ▸ hdirty)
          exact (hasPwm_update_iff hdirty ok).mpr (hrun ▸ htransfers)
        | false =>
          rw [Call.apply, update_clean hdirty]
          by_cases hfirst : Updates d past
          · exact hbefore hfirst hdirty
          · have hframe := frame_run leds hfirst { chip := chip }
            rw [hrun] at hframe
            rw [hframe.chip, (hframe.clean hdirty).2]
            exact h.cleared past ok hpast hfirst (hrun ▸ hdirty)
      · -- any other call leaves this chip and its buffer alone
        have hframe := frame_apply leds (fun ok heq => hcall ⟨ok, heq⟩) before (d := d)
        rw [← hs] at hframe
        have hpastUpdates : Updates d past := by
          obtain ⟨ok, hok⟩ := hupdates
          rcases List.mem_append.mp hok with hmem | hmem
          · exact ⟨ok, hmem⟩
          · exact absurd ⟨ok, (List.mem_singleton.mp hmem).symm⟩ hcall
        rw [hframe.chip, (hframe.clean hclean).2]
        exact hbefore hpastUpdates (hframe.clean hclean).1

/-! ## After `IS31FL3733_init` -/

def Chip.writeAll (c : Chip) (writes : List (BitVec 8 × BitVec 8)) : Chip :=
  writes.foldl (fun c w => c.write w.1 w.2) c

theorem writeAll_append (c : Chip) (writes writes' : List (BitVec 8 × BitVec 8)) :
    c.writeAll (writes ++ writes') = (c.writeAll writes).writeAll writes' :=
  List.foldl_append

/-- When every transfer succeeds the chip takes all the writes. -/
theorem writeRegisters_ok (c : Chip) (writes : List (BitVec 8 × BitVec 8)) :
    writeRegisters c writes (fun _ => true) = c.writeAll writes := by
  have hsteps : ∀ (k : Nat) (c : Chip),
      (writes.zipIdx k).foldl (fun c w => (writeRegister c w.1.1 w.1.2 true).2) c =
        c.writeAll writes := by
    induction writes with
    | nil => exact fun _ _ => rfl
    | cons w rest ih => exact fun k c => ih (k + 1) (c.write w.1 w.2)
  exact hsteps 0 c

/-- The two writes select the page and close the command register again. -/
theorem writeAll_unlockWrites (c : Chip) (page : BitVec 8) :
    c.writeAll (unlockWrites page) = { c with page := page, unlocked := false } := by
  simp [Chip.writeAll, unlockWrites, Chip.write, commandRegister, commandRegisterWriteLock]

/-- The loop clears the registers it goes through, on the page selected. -/
theorem writeAll_clearWrites (c : Chip) {m : Nat} (hm : m ≤ 0xFD) :
    (c.writeAll (clearWrites m)).page = c.page ∧
      ∀ r < m, (c.writeAll (clearWrites m)).regs c.page (BitVec.ofNat 8 r) = 0 := by
  induction m with
  | zero => exact ⟨rfl, fun _ hr => absurd hr (Nat.not_lt_zero _)⟩
  | succ m ih =>
    obtain ⟨hpage, hregs⟩ := ih (by omega)
    have hlast : c.writeAll (clearWrites (m + 1)) =
        (c.writeAll (clearWrites m)).write (BitVec.ofNat 8 m) 0 := by
      rw [clearWrites, List.range_succ, List.map_append, writeAll_append]
      rfl
    rw [hlast, write_of_lt _ (by omega)]
    refine ⟨hpage, fun r hr => ?_⟩
    by_cases hr' : r = m
    · exact if_pos ⟨hpage.symm, hr' ▸ rfl⟩
    · dsimp only
      split
      · rfl
      · exact hregs r (by omega)

/-- The last two writes of `IS31FL3733_init` are to another page. -/
theorem writeAll_function (c : Chip) (current config : BitVec 8) :
    (({ c with page := pageFunction, unlocked := false } : Chip).writeAll
      [(regGlobalCurrent, current), (regConfiguration, config)]).regs pagePwm = c.regs pagePwm := by
  funext r
  simp [Chip.writeAll, Chip.write, regGlobalCurrent, regConfiguration, commandRegister,
    commandRegisterWriteLock, pagePwm, pageFunction]

/-- Where its transfers succeed, `IS31FL3733_init` leaves zeros on the page. -/
theorem hasPwm_init (c : Chip) (sync : BitVec 8) :
    HasPwm (init c sync fun _ => true) fun _ => 0 := by
  intro r
  rw [init, writeRegisters_ok, initWrites]
  simp only [writeAll_append, writeAll_unlockWrites, writeAll_function]
  generalize Chip.writeAll _ (clearWrites 0x18) = off
  obtain ⟨-, hregs⟩ := writeAll_clearWrites { off with page := pagePwm, unlocked := false }
    (m := 0xC0) (by decide)
  dsimp only at hregs
  exact hregs r r.isLt

/-- An update all of whose transfers fail clears the flag, and the chip has
nothing of the colour. -/
theorem update_failed_flag_clear :
    ¬PwmSound [⟨0, 0, 1, 2⟩] (fun _ : Fin 1 => init {} 0 fun _ => true) 0
      [.setColor 0 255 0 0, .updatePwmBuffers 0 fun _ => false] := by
  have hzero := hasPwm_init {} 0 0
  generalize init {} 0 (fun _ => true) = c at hzero ⊢
  intro h
  have hpage := h _ (List.prefix_refl _) ⟨fun _ => false, by simp⟩ rfl 0
  exact absurd (show (0 : BitVec 8) = 255 from hzero.symm.trans hpage) (by decide)

end Ch583Kbd.Rgb.Is31fl3733
