/-
Ch583Kbd.Drivers.KeyboardMatrix — scanning and debouncing the key matrix
(`DRIVERS/keyboard_matrix.c`).

A scan reads the column pins once for every row; what it reads is the
snapshot. `DEBOUNCE` is a parameter of the build and so one of the
definitions here. All rows share one counter. `debounced_iff`: the matrix
follows the snapshots as it should for every `DEBOUNCE` but 0, for which
`config.h` promises no debouncing and the code never passes anything on.
-/
import Ch583Kbd.Lib.Debounce
import Ch583Kbd.Eeprom.Storage
import Mathlib.Tactic.ByContra
import Mathlib.Data.Fintype.Basic

namespace Ch583Kbd.Drivers

open Eeprom Lib

/-- `matrix_row_t`, one bit a column. -/
abbrev MatrixRow := BitVec 16

abbrev Rows := Fin matrixRows → MatrixRow

/-- The levels of the column pins while each row is selected. -/
abbrev Pins := Fin matrixRows → Fin matrixCols → Bool

def readCols (pins : Fin matrixCols → Bool) : MatrixRow :=
  (List.finRange matrixCols).foldl
    (fun result c => if pins c then result ||| 1#16 <<< c.val else result) 0

def snapshot (pins : Pins) : Rows := fun i => readCols (pins i)

/-- The static variables of `keyboard_matrix.c`. -/
structure MatrixState where
  debouncing : BitVec 8
  matrix : Rows := fun _ => 0
  matrixDebouncing : Rows := fun _ => 0

variable (debounce : BitVec 8)

/-- One turn of the row loop of `matrix_scan_kb`. -/
def scanRow (pins : Pins) (s : MatrixState) (i : Fin matrixRows) : MatrixState :=
  let cols := readCols (pins i)
  if s.matrixDebouncing i ≠ cols then
    { s with
      matrixDebouncing := Function.update s.matrixDebouncing i cols
      debouncing := debounce }
  else s

/-- `matrix_scan_kb`, and so `matrix_scan`. -/
def matrixScan (s : MatrixState) (pins : Pins) : MatrixState :=
  let s := (List.finRange matrixRows).foldl (scanRow debounce pins) s
  if s.debouncing ≠ 0 then
    let s := { s with debouncing := s.debouncing - 1 }
    if s.debouncing ≠ 0 then s else { s with matrix := s.matrixDebouncing }
  else s

/-- The state after scans of `history`, in that order, from the start. -/
def scans (history : List Pins) : MatrixState :=
  history.foldl (matrixScan debounce) { debouncing := debounce }

theorem scans_concat (history : List Pins) (pins : Pins) :
    scans debounce (history ++ [pins]) = matrixScan debounce (scans debounce history) pins := by
  simp [scans]

/-! ## What a scan reads -/

theorem getLsbD_colMask (c : Nat) {k : Nat} (hk : k < 16) :
    (1#16 <<< c).getLsbD k = decide (k = c) := by
  have htwo := BitVec.getLsbD_twoPow (w := 16) c k
  rw [BitVec.twoPow] at htwo
  rw [htwo]
  by_cases h : c = k
  · simp [h, hk]
  · simp [h, Ne.symm h]

/-- The source's test of a column is the bit of the row. -/
theorem colMask_ne_zero (row : MatrixRow) {c : Nat} (hc : c < 16) :
    row &&& 1#16 <<< c ≠ 0 ↔ row.getLsbD c = true := by
  constructor
  · intro h
    by_contra hbit
    exact h ((BitVec.and_twoPow row c).trans (if_neg hbit))
  · intro h hzero
    have hbit := congrArg (·.getLsbD c) hzero
    simp only [BitVec.getLsbD_and, getLsbD_colMask c hc, h] at hbit
    simp at hbit

/-- `read_cols` sets the bits of the columns whose pin is high. -/
theorem getLsbD_foldl_cols (pins : Fin matrixCols → Bool) (l : List (Fin matrixCols))
    (row : MatrixRow) (c : Fin 16) :
    (l.foldl (fun result c => if pins c then result ||| 1#16 <<< c.val else result) row).getLsbD c =
      (row.getLsbD c || l.any fun k => k.val == c.val && pins k) := by
  induction l generalizing row with
  | nil => simp
  | cons k l ih =>
    rw [List.foldl_cons, ih, List.any_cons]
    cases hpin : pins k with
    | false => simp
    | true =>
      rw [if_pos rfl, BitVec.getLsbD_or, getLsbD_colMask k.val c.isLt]
      simp [Bool.or_assoc, Bool.beq_eq_decide_eq, eq_comm]

/-- A row has the levels of the column pins, and no bit above them. -/
theorem getLsbD_readCols (pins : Fin matrixCols → Bool) (c : Nat) :
    (readCols pins).getLsbD c = true ↔ ∃ k : Fin matrixCols, k.val = c ∧ pins k = true := by
  by_cases hc : c < 16
  · rw [readCols, getLsbD_foldl_cols pins _ 0 ⟨c, hc⟩]
    simp
  · rw [BitVec.getLsbD_of_ge _ _ (by omega)]
    simp only [Bool.false_eq_true, false_iff, not_exists, not_and]
    intro k hk
    have hlt : k.val < 14 := k.isLt
    omega

/-- The rows have bits for the columns only. -/
def InCols (rows : Rows) : Prop := ∀ r c, matrixCols ≤ c → (rows r).getLsbD c = false

theorem inCols_zero : InCols fun _ => 0 := by
  intro r c _
  exact BitVec.getLsbD_zero

/-- A snapshot of the pins has bits for the columns only. -/
theorem inCols_snapshot (pins : Pins) : InCols (snapshot pins) := by
  intro r c hc
  refine Bool.eq_false_iff.mpr fun hbit => ?_
  obtain ⟨k, rfl, -⟩ := (getLsbD_readCols (pins r) c).mp hbit
  exact absurd k.isLt (Nat.not_lt.mpr hc)

/-! ## The row loop -/

/-- A scan takes the snapshot of every row it visits. -/
theorem foldl_scanRow_matrixDebouncing (pins : Pins) (l : List (Fin matrixRows))
    (s : MatrixState) (i : Fin matrixRows) :
    (l.foldl (scanRow debounce pins) s).matrixDebouncing i =
      if i ∈ l then snapshot pins i else s.matrixDebouncing i := by
  induction l generalizing s with
  | nil => rfl
  | cons k l ih =>
    rw [List.foldl_cons, ih, scanRow]
    by_cases hk : i = k
    · subst hk
      simp only [List.mem_cons_self, if_true]
      split
      · rfl
      · split
        · simp [snapshot]
        · next hsame => exact not_not.mp hsame
    · simp only [List.mem_cons, hk, false_or]
      split
      · rfl
      · split
        · simp [hk]
        · rfl

/-- The counter restarts when one of the visited rows has changed. -/
theorem foldl_scanRow_debouncing (pins : Pins) (l : List (Fin matrixRows)) (s : MatrixState) :
    (l.foldl (scanRow debounce pins) s).debouncing =
      if ∀ i ∈ l, s.matrixDebouncing i = snapshot pins i then s.debouncing else debounce := by
  induction l generalizing s with
  | nil => simp
  | cons k l ih =>
    rw [List.foldl_cons, ih]
    by_cases hk : s.matrixDebouncing k = snapshot pins k
    · have hsame : scanRow debounce pins s k = s := if_neg (not_not.mpr hk)
      simp [hsame, hk]
    · have hchanged : (scanRow debounce pins s k).debouncing = debounce :=
        congrArg MatrixState.debouncing (if_pos hk)
      simp [hchanged, hk]

/-- Visiting the rows leaves `matrix` as it is. -/
theorem foldl_scanRow_matrix (pins : Pins) (l : List (Fin matrixRows)) (s : MatrixState) :
    (l.foldl (scanRow debounce pins) s).matrix = s.matrix := by
  induction l generalizing s with
  | nil => rfl
  | cons k l ih =>
    rw [List.foldl_cons, ih, scanRow]
    split <;> rfl

/-! ## The scan as a debouncer of snapshots -/

def MatrixState.debouncer (s : MatrixState) : Debouncer Rows where
  pending := s.matrixDebouncing
  wait := s.debouncing.toNat
  out := s.matrix

theorem pred_toNat {b : BitVec 8} (hb : b ≠ 0) : (b - 1).toNat = b.toNat - 1 := by
  have hpos : b.toNat ≠ 0 := fun h => hb (BitVec.eq_of_toNat_eq h)
  have hlt := b.isLt
  have hone : (1 : BitVec 8).toNat = 1 := rfl
  rw [BitVec.toNat_sub, hone]
  omega

theorem pred_ne_zero_iff {b : BitVec 8} (hb : b ≠ 0) : b - 1 ≠ 0 ↔ ¬b.toNat = 1 := by
  have hpos : b.toNat ≠ 0 := fun h => hb (BitVec.eq_of_toNat_eq h)
  have hzero : (0 : BitVec 8).toNat = 0 := rfl
  rw [ne_eq, ← BitVec.toNat_inj, pred_toNat hb, hzero]
  omega

/-- `matrix_scan` is one step of the debouncer, for every `DEBOUNCE`. -/
theorem matrixScan_debouncer (s : MatrixState) (pins : Pins) :
    (matrixScan debounce s pins).debouncer =
      s.debouncer.step debounce.toNat (snapshot pins) := by
  rw [matrixScan, Debouncer.step]
  have hwait : ((List.finRange matrixRows).foldl (scanRow debounce pins) s).debouncing.toNat =
      if s.debouncer.pending = snapshot pins then s.debouncer.wait else debounce.toNat := by
    rw [foldl_scanRow_debouncing, apply_ite BitVec.toNat]
    exact if_congr ⟨fun h => funext fun i => h i (List.mem_finRange i), fun h i _ => congrFun h i⟩
      rfl rfl
  have hpending : ((List.finRange matrixRows).foldl (scanRow debounce pins) s).matrixDebouncing =
      snapshot pins := by
    funext i
    rw [foldl_scanRow_matrixDebouncing, if_pos (List.mem_finRange i)]
  have hmatrix := foldl_scanRow_matrix debounce pins (List.finRange matrixRows) s
  rw [← hwait]
  generalize (List.finRange matrixRows).foldl (scanRow debounce pins) s = t at *
  by_cases hzero : t.debouncing = 0
  · simp [hzero, MatrixState.debouncer, hpending, hmatrix]
  · rw [if_pos hzero]
    by_cases hlast : t.debouncing.toNat = 1
    · rw [if_neg (fun h => (pred_ne_zero_iff hzero).mp h hlast), if_pos hlast]
      simp only [MatrixState.debouncer, pred_toNat hzero, hpending]
    · rw [if_pos ((pred_ne_zero_iff hzero).mpr hlast), if_neg hlast]
      simp only [MatrixState.debouncer, pred_toNat hzero, hpending, hmatrix]

/-- A history of scans is a run of the debouncer over its snapshots. -/
theorem scans_debouncer (history : List Pins) :
    (scans debounce history).debouncer =
      Debouncer.run debounce.toNat ⟨fun _ => 0, debounce.toNat, fun _ => 0⟩
        (history.map snapshot) := by
  induction history using List.reverseRecOn with
  | nil => rfl
  | append_singleton history pins ih =>
    rw [scans_concat, matrixScan_debouncer, ih, List.map_append, List.map_singleton,
      Debouncer.run_concat]

theorem scans_matrix (history : List Pins) :
    (scans debounce history).matrix =
      (Debouncer.run debounce.toNat ⟨fun _ => 0, debounce.toNat, fun _ => 0⟩
        (history.map snapshot)).out :=
  congrArg Debouncer.out (scans_debouncer debounce history)

/-- No history sets a bit of `matrix` outside the columns. -/
theorem scans_inCols (history : List Pins) : InCols (scans debounce history).matrix := by
  rw [scans_matrix]
  refine Debouncer.out_of_input (P := InCols) _ inCols_zero fun rows hrows => ?_
  obtain ⟨pins, -, rfl⟩ := List.mem_map.mp hrows
  exact inCols_snapshot pins

/-! ## What debouncing is for -/

/-- Number of scans a snapshot has to stay for, with `config.h`'s reading
of 0 as no debouncing. -/
def settleScans : Nat := max 1 debounce.toNat

/-- At every scan: a changed matrix is a snapshot that has stayed long
enough, and a snapshot that has is the matrix. -/
def Debounced (history : List Pins) : Prop :=
  ∀ past pins, past ++ [pins] <+: history →
    ((scans debounce (past ++ [pins])).matrix ≠ (scans debounce past).matrix →
      StableFor (settleScans debounce) ((past ++ [pins]).map snapshot)
        (scans debounce (past ++ [pins])).matrix) ∧
    ∀ rows, StableFor (settleScans debounce) ((past ++ [pins]).map snapshot) rows →
      (scans debounce (past ++ [pins])).matrix = rows

/-- With `DEBOUNCE` 0 no scan ever reaches `matrix`. -/
theorem scans_zero (history : List Pins) : (scans 0 history).matrix = fun _ => 0 :=
  (scans_matrix 0 history).trans (Debouncer.out_of_zero _ _)

/-- **Debouncing.** The matrix follows the snapshots unless `DEBOUNCE` is
0 and a key is seen down. -/
theorem debounced_iff (history : List Pins) :
    Debounced debounce history ↔
      debounce ≠ 0 ∨ ∀ pins ∈ history, snapshot pins = fun _ => 0 := by
  by_cases hzero : debounce = 0
  · subst hzero
    simp only [Debounced, scans_zero, ne_eq, not_true_eq_false, false_imp_iff, true_and, false_or]
    constructor
    · intro h pins hpins
      obtain ⟨past, later, rfl⟩ := List.append_of_mem hpins
      refine (h past pins ⟨later, by simp⟩ (snapshot pins) ?_).symm
      rw [List.map_append, List.map_singleton]
      exact (stableFor_concat 0 _ _ _).mpr ⟨rfl, stableFor_zero _ _⟩
    · intro h past pins hpast rows hstable
      rw [List.map_append, List.map_singleton] at hstable
      rw [← ((stableFor_concat 0 _ _ _).mp hstable).1]
      exact (h pins (hpast.subset (by simp))).symm
  · have hpos : 0 < debounce.toNat := by
      have hne : debounce.toNat ≠ 0 := fun h => hzero (BitVec.eq_of_toNat_eq (by simpa using h))
      omega
    have hsettle : settleScans debounce = debounce.toNat := Nat.max_eq_right hpos
    simp only [hzero, ne_eq, not_false_eq_true, true_or, iff_true]
    intro past pins _
    simp only [scans_matrix, hsettle, List.map_append, List.map_singleton]
    exact ⟨Debouncer.stable_of_change hpos _, fun rows => Debouncer.out_of_stable hpos _⟩

/-- Without debouncing nothing is ever passed on. -/
theorem debounce_zero_stuck : ¬ Debounced 0 [fun _ _ => true] := by
  intro h
  have hmatrix := (h [] (fun _ _ => true) List.prefix_rfl).2 (snapshot fun _ _ => true) (by decide)
  exact absurd (congrFun hmatrix ⟨0, by decide⟩) (by decide)

end Ch583Kbd.Drivers
