/-
Ch583Kbd.Tmk.MouseKeyProgress — when a held direction key keeps the
pointer moving.

`move_unit` is at least 1, but a diagonal move scales it by 7/10 and
truncates: a unit of 1 becomes 0, and the task never revives an axis that
is 0. `progress_iff` says exactly when that does not happen.
-/
import Ch583Kbd.Tmk.MouseKeySafety

namespace Ch583Kbd.Tmk

open MouseKey

/-! ## Directions -/

/-- The key for the other direction of the same axis. -/
def opposite (code : BitVec 8) : BitVec 8 :=
  match code.toNat with
  | 0xF0 => 0xF1
  | 0xF1 => 0xF0
  | 0xF2 => 0xF3
  | 0xF3 => 0xF2
  | 0xF9 => 0xFA
  | 0xFA => 0xF9
  | 0xFB => 0xFC
  | 0xFC => 0xFB
  | _ => code

/-- `IS_MOUSEKEY_MOVE` or `IS_MOUSEKEY_WHEEL`. -/
def IsDirection (code : BitVec 8) : Prop :=
  0xF0 ≤ code.toNat ∧ code.toNat ≤ 0xF3 ∨ 0xF9 ≤ code.toNat ∧ code.toNat ≤ 0xFC

instance (code : BitVec 8) : Decidable (IsDirection code) := inferInstanceAs (Decidable (_ ∨ _))

theorem isDirection_opposite {code : BitVec 8} (hdir : IsDirection code) :
    IsDirection (opposite code) := by
  unfold opposite
  split <;> first | exact hdir | decide

/-- The key has been pressed, and since then neither released nor
overridden by the opposite key. -/
def liveStep (code : BitVec 8) (live : Bool) : MouseOp → Bool
  | .on c => c = code || live && c ≠ opposite code
  | .off c => live && c ≠ code
  | .clear => false
  | _ => live

def Live (ops : List MouseOp) (code : BitVec 8) : Prop := ops.foldl (liveStep code) false = true

instance (ops : List MouseOp) (code : BitVec 8) : Decidable (Live ops code) :=
  inferInstanceAs (Decidable (_ = true))

theorem live_concat (ops : List MouseOp) (op : MouseOp) (code : BitVec 8) :
    Live (ops ++ [op]) code ↔ liveStep code (ops.foldl (liveStep code) false) op = true := by
  simp [Live]

namespace MouseKey

section Off

variable (m : MouseKey) (code : BitVec 8)

/-- Releasing a vertical key stops the movement in its own direction only. -/
theorem off_y : (m.off code).report.y =
    if code.toNat = 0xF0 ∧ m.report.y < 0 ∨ code.toNat = 0xF1 ∧ 0 < m.report.y then 0
    else m.report.y := by
  rw [off_report]
  unfold release
  split <;> simp_all <;> split <;> simp_all

theorem off_x : (m.off code).report.x =
    if code.toNat = 0xF2 ∧ m.report.x < 0 ∨ code.toNat = 0xF3 ∧ 0 < m.report.x then 0
    else m.report.x := by
  rw [off_report]
  unfold release
  split <;> simp_all <;> split <;> simp_all

theorem off_v : (m.off code).report.v =
    if code.toNat = 0xF9 ∧ 0 < m.report.v ∨ code.toNat = 0xFA ∧ m.report.v < 0 then 0
    else m.report.v := by
  rw [off_report]
  unfold release
  split <;> simp_all <;> split <;> simp_all

theorem off_h : (m.off code).report.h =
    if code.toNat = 0xFB ∧ m.report.h < 0 ∨ code.toNat = 0xFC ∧ 0 < m.report.h then 0
    else m.report.h := by
  rw [off_report]
  unfold release
  split <;> simp_all <;> split <;> simp_all

end Off

/-- A direction key that goes down shows in the report. -/
theorem shows_on_self (m : MouseKey) {code : BitVec 8} (hdir : IsDirection code) :
    (m.on code).report.Shows code := by
  have hmove := m.moveUnit_pos
  have hwheel := m.wheelUnit_pos
  unfold MouseReport.Shows
  split
  case h_5 hc | h_6 hc | h_7 hc | h_8 hc | h_9 hc =>
    simp [IsDirection, hc] at hdir
  case h_14 =>
    simp only [imp_false] at *
    rcases hdir with hdir | hdir <;> omega
  all_goals
    next hc =>
      simp [on_x, on_y, on_v, on_h, hc]
      omega

/-- The opposite key is not shown at the same time. -/
theorem not_shows_opposite {r : MouseReport} {code : BitVec 8} (hdir : IsDirection code)
    (h : r.Shows (opposite code)) : ¬ r.Shows code := by
  intro hcode
  unfold MouseReport.Shows at hcode
  split at hcode
  case h_5 hc | h_6 hc | h_7 hc | h_8 hc | h_9 hc =>
    simp [IsDirection, hc] at hdir
  case h_14 => exact hcode
  all_goals
    next hc =>
      simp [opposite, hc, MouseReport.Shows] at h
      omega

/-- A direction stays in the report when another key goes down that is not its
opposite. -/
theorem shows_on_of_ne {m : MouseKey} {code c : BitVec 8} (hdir : IsDirection code)
    (h : m.report.Shows code) (hne : c ≠ code) (hopp : c ≠ opposite code) :
    (m.on c).report.Shows code := by
  have hc : c.toNat ≠ code.toNat := fun heq => hne (BitVec.eq_of_toNat_eq heq)
  have ho : c.toNat ≠ (opposite code).toNat := fun heq => hopp (BitVec.eq_of_toNat_eq heq)
  unfold MouseReport.Shows at h ⊢
  split at h
  case h_5 hcode | h_6 hcode | h_7 hcode | h_8 hcode | h_9 hcode =>
    simp [IsDirection, hcode] at hdir
  case h_14 => exact h
  all_goals
    next hcode =>
      simp [opposite, hcode] at hc ho
      simp only [on_x, on_y, on_v, on_h]
      split_ifs
      omega

/-- A direction stays in the report when another key goes up. -/
theorem shows_off_of_ne {m : MouseKey} {code c : BitVec 8} (hdir : IsDirection code)
    (h : m.report.Shows code) (hne : c ≠ code) : (m.off c).report.Shows code := by
  have hc : c.toNat ≠ code.toNat := fun heq => hne (BitVec.eq_of_toNat_eq heq)
  unfold MouseReport.Shows at h ⊢
  split at h
  case h_5 hcode | h_6 hcode | h_7 hcode | h_8 hcode | h_9 hcode =>
    simp [IsDirection, hcode] at hdir
  case h_14 => exact h
  all_goals
    next hcode =>
      rw [hcode] at hc
      simp only [off_x, off_y, off_v, off_h]
      rw [if_neg (by omega)]
      exact h

/-! ## Diagonals -/

/-- Seven tenths of a unit, truncated, are nothing only for the unit 1. -/
theorem tdiv_pos_iff {unit : Int} (hpos : 0 < unit) : 0 < (unit * 7).tdiv 10 ↔ 2 ≤ unit := by
  rw [Int.tdiv_eq_ediv_of_nonneg (by omega)]
  omega

theorem tdiv_neg_iff {unit : Int} (hpos : 0 < unit) :
    (unit * -1 * 7).tdiv 10 < 0 ↔ 2 ≤ unit := by
  have hneg : unit * -1 * 7 = -(unit * 7) := by omega
  rw [hneg, Int.neg_tdiv, ← tdiv_pos_iff hpos]
  omega

/-- Both axes move. -/
def Diagonal (r : MouseReport) : Prop := r.x ≠ 0 ∧ r.y ≠ 0

instance (r : MouseReport) : Decidable (Diagonal r) := inferInstanceAs (Decidable (_ ∧ _))

/-- The new unit keeps the sign of the axis. -/
theorem resign_eq_zero_iff (axis : Int) {unit : Int} (hpos : 0 < unit) :
    resign axis unit = 0 ↔ axis = 0 := by
  rw [resign]
  split_ifs <;> omega

/-- Along the x axis the task moves by the unit, or by seven tenths of it on a
diagonal. -/
theorem moved_x (m : MouseKey) : m.moved.x =
    if Diagonal m.report then (resign m.report.x m.moveUnit * 7).tdiv 10
    else resign m.report.x m.moveUnit := by
  refine if_congr ?_ rfl rfl
  exact and_congr (not_congr (resign_eq_zero_iff _ m.moveUnit_pos))
    (not_congr (resign_eq_zero_iff _ m.moveUnit_pos))

/-- Along the y axis the task moves by the unit, or by seven tenths of it on a
diagonal. -/
theorem moved_y (m : MouseKey) : m.moved.y =
    if Diagonal m.report then (resign m.report.y m.moveUnit * 7).tdiv 10
    else resign m.report.y m.moveUnit := by
  refine if_congr ?_ rfl rfl
  exact and_congr (not_congr (resign_eq_zero_iff _ m.moveUnit_pos))
    (not_congr (resign_eq_zero_iff _ m.moveUnit_pos))

/-- A moving axis keeps its sign, on a diagonal if the unit is not 1. -/
theorem scaled_sign (axis : Int) {unit : Int} (diagonal : Prop) [Decidable diagonal]
    (hpos : 0 < unit) (hunit : diagonal → 2 ≤ unit) :
    (0 < axis → 0 < if diagonal then (resign axis unit * 7).tdiv 10 else resign axis unit) ∧
      (axis < 0 →
        (if diagonal then (resign axis unit * 7).tdiv 10 else resign axis unit) < 0) := by
  constructor
  · intro h
    have hresign : resign axis unit = unit := if_pos h
    rw [hresign]
    split
    · next hdiag => exact (tdiv_pos_iff hpos).mpr (hunit hdiag)
    · exact hpos
  · intro h
    have hresign : resign axis unit = unit * -1 := by rw [resign, if_neg (by omega), if_pos h]
    rw [hresign]
    split
    · next hdiag => exact (tdiv_neg_iff hpos).mpr (hunit hdiag)
    · omega

/-- A move keeps showing a direction, on a diagonal when the unit is at least 2. -/
theorem shows_moved {m : MouseKey} {code : BitVec 8} (hdir : IsDirection code)
    (hunit : Diagonal m.report → 2 ≤ m.moveUnit) (h : m.report.Shows code) :
    m.moved.Shows code := by
  have hx := scaled_sign m.report.x (Diagonal m.report) m.moveUnit_pos hunit
  have hy := scaled_sign m.report.y (Diagonal m.report) m.moveUnit_pos hunit
  have hv := scaled_sign m.report.v False m.wheelUnit_pos nofun
  have hh := scaled_sign m.report.h False m.wheelUnit_pos nofun
  rw [← moved_x] at hx
  rw [← moved_y] at hy
  unfold MouseReport.Shows at h ⊢
  split at h
  case h_1 => exact hy.2 h
  case h_2 => exact hy.1 h
  case h_3 => exact hx.2 h
  case h_4 => exact hx.1 h
  case h_5 hc | h_6 hc | h_7 hc | h_8 hc | h_9 hc =>
    simp [IsDirection, hc] at hdir
  case h_10 => exact hv.1 h
  case h_11 => exact hv.2 h
  case h_12 => exact hh.2 h
  case h_13 => exact hh.1 h
  case h_14 => exact h

/-- A unit of 1 takes both axes of a diagonal to rest. -/
theorem moved_stops {m : MouseKey} (hdiag : Diagonal m.report) (hunit : ¬ 2 ≤ m.moveUnit) :
    m.moved.x = 0 := by
  have hone : m.moveUnit = 1 := by
    have hpos := m.moveUnit_pos
    omega
  rw [moved_x, if_pos hdiag, hone, resign]
  split_ifs <;> first | rfl | exact absurd (by omega) hdiag.1

/-- The next unit is at least 2, told from the parameters and from what
the repeat counter is about to be. -/
def BeyondOne (m : MouseKey) : Prop :=
  let rep := min 255 (m.rep.toNat + 1)
  if m.accel.getLsbD 0 then 2 ≤ m.params.maxSpeed.toNat
  else if m.accel.getLsbD 1 ∨ m.accel.getLsbD 2 then 1 ≤ m.params.maxSpeed.toNat
  else if m.params.timeToMax.toNat ≤ rep then 1 ≤ m.params.maxSpeed.toNat
  else 2 * m.params.timeToMax.toNat ≤ 5 * m.params.maxSpeed.toNat * rep

instance (m : MouseKey) : Decidable m.BeyondOne := by
  unfold BeyondOne
  infer_instance

/-- The repeat count grows by one up to 255. -/
theorem accelerate_rep (m : MouseKey) : m.accelerate.rep.toNat = min 255 (m.rep.toNat + 1) := by
  have hlt := m.rep.isLt
  rw [accelerate]
  split
  · next hrep =>
    have hne : m.rep.toNat ≠ 255 := fun h => hrep (BitVec.eq_of_toNat_eq h)
    show (m.rep + 1#8).toNat = _
    rw [BitVec.toNat_add, BitVec.toNat_one (by decide)]
    omega
  · next hrep =>
    rw [not_not.mp hrep]
    rfl

/-- The condition before the task speaks of the unit that the task computes. -/
theorem beyondOne_iff (m : MouseKey) : m.BeyondOne ↔ 2 ≤ m.accelerate.moveUnit := by
  have hrep := m.accelerate_rep
  have hclamp : ∀ n : Nat,
      2 ≤ (if mousekeyMax < n then mousekeyMax else if n = 0 then 1 else n) ↔ 2 ≤ n := by
    intro n
    rw [mousekeyMax]
    split_ifs <;> omega
  have hne : m.accelerate.rep ≠ 0 := by
    intro h
    rw [h, show (0 : BitVec 8).toNat = 0 from rfl] at hrep
    omega
  have hunit : 2 ≤ m.accelerate.moveUnit ↔
      2 ≤ m.accelerate.unit mousekeyMoveDelta m.params.maxSpeed m.params.timeToMax := by
    rw [moveUnit, accelerate_params]
    omega
  rw [hunit, unit, hclamp, accelerate_accel, BeyondOne, if_neg hne, mousekeyMoveDelta, ← hrep]
  by_cases h0 : m.accel.getLsbD 0 = true
  · rw [if_pos h0, if_pos h0]
    omega
  · rw [if_neg h0, if_neg h0]
    by_cases h1 : m.accel.getLsbD 1 = true
    · rw [if_pos (.inl h1), if_pos h1]
      omega
    · by_cases h2 : m.accel.getLsbD 2 = true
      · rw [if_pos (.inr h2), if_neg h1, if_pos h2]
        omega
      · rw [if_neg (fun h => h.elim h1 h2), if_neg h1, if_neg h2]
        by_cases htime : m.params.timeToMax ≤ m.accelerate.rep
        · rw [if_pos htime, if_pos (BitVec.le_def.mp htime)]
          omega
        · have hlt : m.accelerate.rep.toNat < m.params.timeToMax.toNat := Nat.not_le.mp htime
          rw [if_neg htime, if_neg (Nat.not_le.mpr hlt), Nat.le_div_iff_mul_le (by omega)]

end MouseKey

/-! ## Runs -/

/-- The call sends a mouse report. -/
def Sends (m : MouseKey) : MouseOp → Prop
  | .task timer => m.due timer = true
  | .send _ => True
  | _ => False

/-- Every mouse report sent shows every live direction key. -/
def Progress (params : MouseParams) (ops : List MouseOp) : Prop :=
  ∀ past op, past ++ [op] <+: ops → Sends (MouseKey.run params past) op →
    ∀ code, IsDirection code → Live (past ++ [op]) code →
      (MouseKey.run params (past ++ [op])).report.Shows code

/-- **A step shows only live directions.** -/
theorem live_of_shows {m : MouseKey} {op : MouseOp} {code : BitVec 8} {live : Bool}
    (hdir : IsDirection code) (hm : m.report.Shows code → live = true)
    (h : (m.apply op).report.Shows code) : liveStep code live op = true := by
  cases op with
  | on c =>
    rw [liveStep, Bool.or_eq_true, Bool.and_eq_true, decide_eq_true_iff, decide_eq_true_iff]
    rcases shows_on h with hc | hshown
    · exact .inl hc.symm
    · refine .inr ⟨hm hshown, ?_⟩
      rintro rfl
      exact not_shows_opposite hdir (m.shows_on_self (isDirection_opposite hdir)) h
  | off c =>
    rw [liveStep, Bool.and_eq_true, decide_eq_true_iff]
    refine ⟨hm ((m.fades_off c).shows h), ?_⟩
    rintro rfl
    exact m.not_shows_off c h
  | task timer => exact hm (task_shows h)
  | send timer => exact hm h
  | clear => exact absurd h (not_shows_init code)
  | configure params => exact hm h

/-- A run shows only live directions, by induction over it. -/
theorem live_of_run_shows {params : MouseParams} {ops : List MouseOp} {code : BitVec 8}
    (hdir : IsDirection code) (h : (MouseKey.run params ops).report.Shows code) :
    Live ops code := by
  induction ops using List.reverseRecOn with
  | nil => exact absurd h (not_shows_init code)
  | append_singleton ops op ih =>
    rw [run_concat] at h
    exact (live_concat ops op code).mpr (live_of_shows hdir ih h)

/-- A task that moves on a diagonal does so by more than 1. -/
def MovesOn (m : MouseKey) (op : MouseOp) : Prop :=
  ∀ timer, op = .task timer → m.due timer = true → Diagonal m.report → m.BeyondOne

/-- **A step shows every live direction**, when its unit does not vanish. -/
theorem shows_of_live {m : MouseKey} {op : MouseOp} {code : BitVec 8} {live : Bool}
    (hdir : IsDirection code) (hm : live = true → m.report.Shows code) (hmoves : MovesOn m op)
    (h : liveStep code live op = true) : (m.apply op).report.Shows code := by
  cases op with
  | on c =>
    rw [liveStep, Bool.or_eq_true, Bool.and_eq_true, decide_eq_true_iff, decide_eq_true_iff] at h
    by_cases hc : c = code
    · rw [hc]
      exact m.shows_on_self hdir
    · obtain ⟨hlive, hopp⟩ := h.resolve_left hc
      exact shows_on_of_ne hdir (hm hlive) hc hopp
  | off c =>
    rw [liveStep, Bool.and_eq_true, decide_eq_true_iff] at h
    exact shows_off_of_ne hdir (hm h.1) h.2
  | task timer =>
    have hshown : m.accelerate.report.Shows code := m.accelerate_report ▸ hm h
    rw [apply, task]
    split
    · next hdue =>
      have hunit : Diagonal m.accelerate.report → 2 ≤ m.accelerate.moveUnit := by
        rw [accelerate_report]
        exact fun hdiag => m.beyondOne_iff.mp (hmoves timer rfl hdue hdiag)
      exact shows_moved hdir hunit hshown
    · exact hm h
  | send timer => exact hm h
  | clear => exact absurd h (Bool.false_ne_true)
  | configure params => exact hm h

/-- A run shows every live direction, when no unit vanishes in it. -/
theorem run_shows_of_live {params : MouseParams} {ops : List MouseOp} {code : BitVec 8}
    (hdir : IsDirection code)
    (hmoves : ∀ past op, past ++ [op] <+: ops → MovesOn (MouseKey.run params past) op)
    (h : Live ops code) : (MouseKey.run params ops).report.Shows code := by
  induction ops using List.reverseRecOn with
  | nil => exact absurd h (Bool.false_ne_true)
  | append_singleton ops op ih =>
    have hpast : ∀ past op', past ++ [op'] <+: ops → MovesOn (MouseKey.run params past) op' :=
      fun past op' hpast => hmoves past op' (hpast.trans (List.prefix_append ops [op]))
    rw [run_concat]
    rw [live_concat] at h
    exact shows_of_live hdir (ih hpast) (hmoves ops op List.prefix_rfl) h

/-- A task that does not move on stops an axis whose key is live, and
sends that. -/
theorem moves_on_of_progress {params : MouseParams} {ops past : List MouseOp} {op : MouseOp}
    (h : Progress params ops) (hpast : past ++ [op] <+: ops) :
    MovesOn (MouseKey.run params past) op := by
  rintro timer rfl hdue hdiag
  rw [beyondOne_iff]
  by_contra hunit
  -- the direction key whose axis comes to rest
  obtain ⟨code, hdir, hshown, hx⟩ : ∃ code, IsDirection code ∧
      (MouseKey.run params past).report.Shows code ∧
        ∀ r : MouseReport, r.x = 0 → ¬ r.Shows code := by
    rcases Int.lt_or_gt_of_ne hdiag.1 with hleft | hright
    · exact ⟨0xF2, by decide, hleft, fun r hr => by simp [MouseReport.Shows, hr]⟩
    · exact ⟨0xF3, by decide, hright, fun r hr => by simp [MouseReport.Shows, hr]⟩
  have hlive : Live (past ++ [.task timer]) code :=
    (live_concat past _ code).mpr (live_of_run_shows hdir hshown)
  refine hx _ ?_ (h past _ hpast hdue code hdir hlive)
  rw [run_concat, apply, task, if_pos hdue]
  have hdiag' : Diagonal (MouseKey.run params past).accelerate.report := by rwa [accelerate_report]
  exact moved_stops hdiag' hunit

/-- **Progress.** Every report shows every live direction key exactly in
the runs whose tasks never move on a diagonal by a unit of 1. -/
theorem progress_iff (params : MouseParams) (ops : List MouseOp) :
    Progress params ops ↔
      ∀ past op, past ++ [op] <+: ops → MovesOn (MouseKey.run params past) op := by
  constructor
  · intro h past op hpast
    exact moves_on_of_progress h hpast
  · intro h past op hpast _ code hdir hlive
    exact run_shows_of_live hdir (fun past' op' hpast' => h past' op' (hpast'.trans hpast))
      hlive

/-- With a maximum speed of 0 a diagonal comes to rest at the first
repetition, both keys still down. -/
theorem diagonal_stops :
    ¬ Progress { maxSpeed := 0 } [.on 0xF3, .on 0xF1, .task 300] := by
  intro h
  have hdue : (MouseKey.run { maxSpeed := 0 } [.on 0xF3, .on 0xF1]).due 300 = true := by decide
  have hshown : 0 < (MouseKey.run { maxSpeed := 0 } [.on 0xF3, .on 0xF1, .task 300]).report.x :=
    h [.on 0xF3, .on 0xF1] (.task 300) List.prefix_rfl hdue 0xF3 (by decide) (by decide)
  exact absurd hshown (by decide)

end Ch583Kbd.Tmk
