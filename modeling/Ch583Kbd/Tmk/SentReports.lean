/-
Ch583Kbd.Tmk.SentReports — what the functions of `action_util.c` and
`host.c` send, and what they leave as it was.

`send_keyboard_report` writes the union of the three modifier stores into
the report and sends it (`sendKeyboardReport_eq`). Its three branches
differ in one thing only: if a key is down, the one-shot modifiers are
gone afterwards.
-/
import Ch583Kbd.Tmk.ActionTheorems

namespace Ch583Kbd.Tmk

/-! ## The last report of each kind -/

namespace HostReport

def keyboard? : HostReport → Option (Vector (BitVec 8) keyboardReportSize)
  | keyboard raw => some raw
  | _ => none

def mouse? : HostReport → Option MouseReport
  | mouse report => some report
  | _ => none

def system? : HostReport → Option (BitVec 16)
  | system usage => some usage
  | _ => none

def consumer? : HostReport → Option (BitVec 16)
  | consumer usage => some usage
  | _ => none

end HostReport

/-- The last report of a kind, `d` if there is none. -/
def lastReport {α : Type} (kind : HostReport → Option α) (d : α) (sent : List HostReport) : α :=
  (sent.filterMap kind).getLast?.getD d

section LastReport

variable {α : Type} {kind : HostReport → Option α} {d : α}

/-- A report of another kind leaves the last one of this kind. -/
theorem lastReport_other {sent : List HostReport} {r : HostReport} (h : kind r = none) :
    lastReport kind d (sent ++ [r]) = lastReport kind d sent := by
  simp [lastReport, h]

/-- A report of this kind is the last one. -/
theorem lastReport_same {sent : List HostReport} {r : HostReport} {a : α} (h : kind r = some a) :
    lastReport kind d (sent ++ [r]) = a := by
  simp [lastReport, h]

theorem lastReport_keyboard (d raw : Vector (BitVec 8) keyboardReportSize)
    (sent : List HostReport) :
    lastReport HostReport.keyboard? d (sent ++ [.keyboard raw]) = raw := lastReport_same rfl

end LastReport

namespace KeyReport

theorem drop_set_zero {α : Type} (l : List α) (v : α) : (l.set 0 v).drop 1 = l.drop 1 := by
  cases l <;> rfl

theorem toList_setMods (r : KeyReport) (m : BitVec 8) :
    (r.setMods m).raw.toList = r.raw.toList.set 0 m := by
  simp [setMods]

/-- The modifier byte does not count as a key. -/
@[simp] theorem hasAnykey_setMods (r : KeyReport) (m : BitVec 8) :
    (r.setMods m).hasAnykey = r.hasAnykey := by
  rw [hasAnykey, hasAnykey, toList_setMods, drop_set_zero]

@[simp] theorem hasAnykey_clearKeys (r : KeyReport) : r.clearKeys.hasAnykey = 0 := by
  rw [hasAnykey, clearKeys, Vector.toList_setIfInBounds, drop_set_zero, List.countP_eq_zero]
  intro b hb
  have hzero := List.eq_of_mem_replicate (List.mem_of_mem_drop hb)
  simp [hzero]

/-- Without keys and modifiers the report is all zero. -/
theorem raw_clearKeys_setMods_zero (r : KeyReport) :
    (r.clearKeys.setMods 0).raw = Vector.replicate keyboardReportSize 0 := by
  ext i hi
  simp [clearKeys, setMods]

end KeyReport

namespace ActionState

variable (s : ActionState)

/-- The modifier byte of the next keyboard report. -/
def reportMods : BitVec 8 := s.realMods ||| s.weakMods ||| s.oneshotMods

/-- `send_keyboard_report` puts the modifiers into the report and sends it; with
a key in it the one-shot modifiers are used up. -/
theorem sendKeyboardReport_eq : s.sendKeyboardReport =
    { s with
      keyReport := s.keyReport.setMods s.reportMods
      oneshotMods := if s.keyReport.hasAnykey ≠ 0 then 0 else s.oneshotMods
      sent := s.sent ++ [.keyboard (s.keyReport.setMods s.reportMods).raw] } := by
  unfold sendKeyboardReport reportMods
  dsimp only
  by_cases hone : s.oneshotMods ≠ 0
  · rw [if_pos hone, KeyReport.hasAnykey_setMods]
    by_cases hkey : s.keyReport.hasAnykey ≠ 0
    · rw [if_pos hkey, if_pos hkey]
      rfl
    · rw [if_neg hkey, if_neg hkey]
      rfl
  · have hzero : s.oneshotMods = 0 := by simpa using hone
    have hor : s.realMods ||| s.weakMods ||| 0 = s.realMods ||| s.weakMods := BitVec.or_zero
    rw [if_neg hone, hzero, ite_self, hor]
    rfl

/-- `host_system_send` remembers the usage and sends it when it has changed. -/
theorem hostSystemSend_eq (c : BitVec 16) : s.hostSystemSend c =
    { s with
      lastSystemReport := c
      sent := s.sent ++ if c = s.lastSystemReport then [] else [.system c] } := by
  unfold hostSystemSend
  split
  · next h => subst h; simp
  · rfl

/-- `host_consumer_send` remembers the usage and sends it when it has changed. -/
theorem hostConsumerSend_eq (c : BitVec 16) : s.hostConsumerSend c =
    { s with
      lastConsumerReport := c
      sent := s.sent ++ if c = s.lastConsumerReport then [] else [.consumer c] } := by
  unfold hostConsumerSend
  split
  · next h => subst h; simp
  · rfl

section Keyboard

@[simp] theorem sendKeyboardReport_realMods : s.sendKeyboardReport.realMods = s.realMods := by
  rw [sendKeyboardReport_eq]

@[simp] theorem sendKeyboardReport_weakMods : s.sendKeyboardReport.weakMods = s.weakMods := by
  rw [sendKeyboardReport_eq]

@[simp] theorem sendKeyboardReport_keyReport :
    s.sendKeyboardReport.keyReport = s.keyReport.setMods s.reportMods := by
  rw [sendKeyboardReport_eq]

/-- A report with a key uses up the one-shot modifiers. -/
@[simp] theorem sendKeyboardReport_oneshotMods : s.sendKeyboardReport.oneshotMods =
    if s.keyReport.hasAnykey ≠ 0 then 0 else s.oneshotMods := by
  rw [sendKeyboardReport_eq]

@[simp] theorem sendKeyboardReport_sent : s.sendKeyboardReport.sent =
    s.sent ++ [.keyboard (s.keyReport.setMods s.reportMods).raw] := by
  rw [sendKeyboardReport_eq]

@[simp] theorem sendKeyboardReport_mouse : s.sendKeyboardReport.mouse = s.mouse := by
  rw [sendKeyboardReport_eq]

@[simp] theorem sendKeyboardReport_lastSystemReport :
    s.sendKeyboardReport.lastSystemReport = s.lastSystemReport := by
  rw [sendKeyboardReport_eq]

@[simp] theorem sendKeyboardReport_lastConsumerReport :
    s.sendKeyboardReport.lastConsumerReport = s.lastConsumerReport := by
  rw [sendKeyboardReport_eq]

@[simp] theorem sendKeyboardReport_nkroActive :
    s.sendKeyboardReport.nkroActive = s.nkroActive := by
  rw [sendKeyboardReport_eq]
  rfl

@[simp] theorem sendKeyboardReport_leds : s.sendKeyboardReport.leds = s.leds := by
  rw [sendKeyboardReport_eq]

end Keyboard

@[simp] theorem registerMods_realMods (m : BitVec 8) :
    (s.registerMods m).realMods = s.realMods ||| m := by
  unfold registerMods
  split
  · rw [sendKeyboardReport_realMods]
    rfl
  · next hm => simp [show m = 0 by simpa using hm]

@[simp] theorem unregisterMods_realMods (m : BitVec 8) :
    (s.unregisterMods m).realMods = s.realMods &&& ~~~m := by
  unfold unregisterMods
  split
  · rw [sendKeyboardReport_realMods]
    rfl
  · next hm =>
    rw [show m = 0 by simpa using hm]
    exact BitVec.and_allOnes.symm

@[simp] theorem registerMods_weakMods (m : BitVec 8) : (s.registerMods m).weakMods =
    s.weakMods := by
  unfold registerMods
  split
  · rw [sendKeyboardReport_weakMods]
    rfl
  · rfl

@[simp] theorem unregisterMods_weakMods (m : BitVec 8) :
    (s.unregisterMods m).weakMods = s.weakMods := by
  unfold unregisterMods
  split
  · rw [sendKeyboardReport_weakMods]
    rfl
  · rfl

end ActionState

end Ch583Kbd.Tmk
