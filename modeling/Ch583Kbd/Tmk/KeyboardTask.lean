/-
Ch583Kbd.Tmk.KeyboardTask — from matrix states to key events
(`keyboard_task` of `keyboard.c`).

A call compares the debounced matrix with the one it last reported and
passes one event to `action_exec` for every bit that differs, then a
`TICK`. With `MATRIX_HAS_GHOST` it leaves a row alone as long as its keys
could be ghosts. `matrix_ghost` only steers a debug print and is left out,
as are the hooks behind an event.
-/
import Ch583Kbd.Drivers.KeyboardMatrix
import Ch583Kbd.Tmk.ActionTapping

namespace Ch583Kbd.Tmk

open Drivers Eeprom

/-- What a call of `keyboard_task` reads: the matrix after `matrix_scan`,
which has bits for the columns only, and `timer_read()` at the event for
each key (at (255, 255) for the `TICK`). -/
structure TaskInput where
  matrix : Rows
  inCols : InCols matrix
  timer : KeyPos → BitVec 16

/-- What a call reads whose `matrix_scan` is the last of `history`. -/
def TaskInput.scanned (debounce : BitVec 8) (history : List Pins) (timer : KeyPos → BitVec 16) :
    TaskInput where
  matrix := (scans debounce history).matrix
  inCols := scans_inCols debounce history
  timer := timer

def keyAt (r : Fin matrixRows) (c : Fin matrixCols) : KeyPos :=
  ⟨BitVec.ofNat 8 r.val, BitVec.ofNat 8 c.val⟩

def hasGhostInRow (matrix : Rows) (row : Fin matrixRows) : Bool :=
  let matrixRow := matrix row
  if (matrixRow - 1) &&& matrixRow = 0 then false
  else (List.finRange matrixRows).any fun i => i ≠ row && matrix i &&& matrixRow ≠ 0

/-- The event for a key whose bit has changed. -/
def keyEvent (inp : TaskInput) (r : Fin matrixRows) (c : Fin matrixCols) : KeyEvent :=
  { key := keyAt r c
    pressed := inp.matrix r &&& 1#16 <<< c.val ≠ 0
    time := inp.timer (keyAt r c) ||| 1 }

/-- One turn of the column loop; the state is `matrix_prev` and what
`action_exec` has received. -/
def taskCol (inp : TaskInput) (r : Fin matrixRows) (matrixChange : MatrixRow)
    (s : Rows × List KeyEvent) (c : Fin matrixCols) : Rows × List KeyEvent :=
  let colMask := 1#16 <<< c.val
  if matrixChange &&& colMask ≠ 0 then
    (Function.update s.1 r (s.1 r ^^^ colMask), s.2 ++ [keyEvent inp r c])
  else s

/-- One turn of the row loop. -/
def taskRow (matrixHasGhost : Bool) (inp : TaskInput) (s : Rows × List KeyEvent)
    (r : Fin matrixRows) : Rows × List KeyEvent :=
  let matrixChange := inp.matrix r ^^^ s.1 r
  if matrixChange = 0 then s
  else if matrixHasGhost && hasGhostInRow inp.matrix r then s
  else (List.finRange matrixCols).foldl (taskCol inp r matrixChange) s

/-- `keyboard_task` up to `action_exec(TICK)`: `matrix_prev` afterwards, and
the events passed to `action_exec`. -/
def keyboardTask (matrixHasGhost : Bool) (matrixPrev : Rows) (inp : TaskInput) :
    Rows × List KeyEvent :=
  let s := (List.finRange matrixRows).foldl (taskRow matrixHasGhost inp) (matrixPrev, [])
  (s.1, s.2 ++ [KeyEvent.tick (inp.timer ⟨255, 255⟩)])

/-- `matrix_prev` after the calls, and all events passed to `action_exec`. -/
def keyboardTasks (matrixHasGhost : Bool) (inputs : List TaskInput) : Rows × List KeyEvent :=
  inputs.foldl
    (fun s inp =>
      let after := keyboardTask matrixHasGhost s.1 inp
      (after.1, s.2 ++ after.2))
    (fun _ => 0, [])

variable {matrixHasGhost : Bool}

theorem keyboardTasks_concat (inputs : List TaskInput) (inp : TaskInput) :
    keyboardTasks matrixHasGhost (inputs ++ [inp]) =
      ((keyboardTask matrixHasGhost (keyboardTasks matrixHasGhost inputs).1 inp).1,
        (keyboardTasks matrixHasGhost inputs).2 ++
          (keyboardTask matrixHasGhost (keyboardTasks matrixHasGhost inputs).1 inp).2) := by
  simp [keyboardTasks]

/-! ## What the two loops do -/

/-- Whether a call leaves the row alone. -/
def Ghosted (matrixHasGhost : Bool) (matrix : Rows) (r : Fin matrixRows) : Prop :=
  matrixHasGhost = true ∧ hasGhostInRow matrix r = true

instance (matrix : Rows) (r : Fin matrixRows) : Decidable (Ghosted matrixHasGhost matrix r) :=
  inferInstanceAs (Decidable (_ ∧ _))

/-- The key's bit is not the one last reported. -/
def changed (prev : MatrixRow) (row : MatrixRow) (c : Fin matrixCols) : Bool :=
  row.getLsbD c.val != prev.getLsbD c.val

theorem colLt (c : Fin matrixCols) : c.val < 16 := Nat.lt_trans c.isLt (by decide)

/-- One round of the inner loop: a changed key is reported, and its bit stored. -/
theorem taskCol_eq (inp : TaskInput) (r : Fin matrixRows) (prev : MatrixRow)
    (s : Rows × List KeyEvent) (c : Fin matrixCols) :
    taskCol inp r (inp.matrix r ^^^ prev) s c =
      if changed prev (inp.matrix r) c then
        (Function.update s.1 r (s.1 r ^^^ 1#16 <<< c.val), s.2 ++ [keyEvent inp r c])
      else s := by
  refine if_congr ?_ rfl rfl
  rw [colMask_ne_zero _ (colLt c), BitVec.getLsbD_xor, changed, bne]
  cases (inp.matrix r).getLsbD c.val <;> cases prev.getLsbD c.val <;> simp

/-- The inner loop reports the changed keys of its row, in order. -/
theorem foldl_taskCol_events (inp : TaskInput) (r : Fin matrixRows) (prev : MatrixRow)
    (l : List (Fin matrixCols)) (s : Rows × List KeyEvent) :
    (l.foldl (taskCol inp r (inp.matrix r ^^^ prev)) s).2 =
      s.2 ++ (l.filter (changed prev (inp.matrix r))).map (keyEvent inp r) := by
  induction l generalizing s with
  | nil => simp
  | cons c l ih =>
    rw [List.foldl_cons, ih, taskCol_eq, List.filter_cons]
    split <;> simp

theorem foldl_taskCol_other (inp : TaskInput) (r : Fin matrixRows) (change : MatrixRow)
    {i : Fin matrixRows} (hi : i ≠ r) (l : List (Fin matrixCols)) (s : Rows × List KeyEvent) :
    (l.foldl (taskCol inp r change) s).1 i = s.1 i := by
  induction l generalizing s with
  | nil => rfl
  | cons c l ih =>
    rw [List.foldl_cons, ih, taskCol]
    split
    · exact Function.update_of_ne hi _ _
    · rfl

/-- The column loop flips the changed bits of the columns it has passed. -/
theorem foldl_taskCol_getLsbD (inp : TaskInput) (r : Fin matrixRows) (prev : MatrixRow) {k : Nat}
    (hk : k < 16) {l : List (Fin matrixCols)} (hl : l.Nodup) (s : Rows × List KeyEvent) :
    ((l.foldl (taskCol inp r (inp.matrix r ^^^ prev)) s).1 r).getLsbD k =
      ((s.1 r).getLsbD k ^^ l.any fun c => c.val == k && changed prev (inp.matrix r) c) := by
  induction l generalizing s with
  | nil => simp
  | cons c l ih =>
    obtain ⟨hc, hl⟩ := List.nodup_cons.mp hl
    rw [List.foldl_cons, ih hl, taskCol_eq, List.any_cons]
    by_cases hck : c.val = k
    · have hrest : (l.any fun c => c.val == k && changed prev (inp.matrix r) c) = false := by
        rw [List.any_eq_false]
        intro d hd hdk
        have hdc : d = c := Fin.ext (by simp_all)
        exact hc (hdc ▸ hd)
      split
      · next h => simp [hck, hrest, h, getLsbD_colMask k hk]
      · next h => simp [hrest, h]
    · split
      · simp [hck, Ne.symm hck, getLsbD_colMask c.val hk]
      · simp [hck]

theorem any_changed (prev now : BitVec 16) {k : Nat} (hcol : k < matrixCols) :
    ((List.finRange matrixCols).any fun c => c.val == k && changed prev now c) =
      changed prev now ⟨k, hcol⟩ := by
  rw [Bool.eq_iff_iff, List.any_eq_true]
  constructor
  · rintro ⟨c, -, hc⟩
    obtain ⟨hck, hchanged⟩ := Bool.and_eq_true_iff.mp hc
    rwa [show c = ⟨k, hcol⟩ from Fin.ext (by simpa using hck)] at hchanged
  · intro hchanged
    exact ⟨⟨k, hcol⟩, List.mem_finRange _, by simp [hchanged]⟩

theorem any_changed_beyond (prev now : BitVec 16) {k : Nat} (hcol : ¬k < matrixCols) :
    ((List.finRange matrixCols).any fun c => c.val == k && changed prev now c) = false := by
  rw [List.any_eq_false]
  intro c _
  have hlt := c.isLt
  simp only [Bool.and_eq_true, beq_iff_eq, not_and]
  omega

/-- The inner loop brings the stored row up to the matrix. -/
theorem foldl_taskCol_row (inp : TaskInput) (r : Fin matrixRows) {s : Rows × List KeyEvent}
    (hs : InCols s.1) :
    ((List.finRange matrixCols).foldl (taskCol inp r (inp.matrix r ^^^ s.1 r)) s).1 =
      Function.update s.1 r (inp.matrix r) := by
  funext i
  by_cases hi : i = r
  · subst hi
    rw [Function.update_self]
    refine BitVec.eq_of_getLsbD_eq fun k hk => ?_
    rw [foldl_taskCol_getLsbD inp i (s.1 i) hk (List.nodup_finRange _)]
    by_cases hcol : k < matrixCols
    · rw [any_changed (s.1 i) (inp.matrix i) hcol, changed]
      cases (inp.matrix i).getLsbD k <;> cases (s.1 i).getLsbD k <;> rfl
    · rw [any_changed_beyond (s.1 i) (inp.matrix i) hcol, hs i k (by omega),
        inp.inCols i k (by omega)]
      rfl
  · rw [foldl_taskCol_other inp r _ hi, Function.update_of_ne hi]

/-- The events of a row whose last reported value is `prev`. -/
def rowEvents (matrixHasGhost : Bool) (inp : TaskInput) (prev : Rows) (r : Fin matrixRows) :
    List KeyEvent :=
  if Ghosted matrixHasGhost inp.matrix r then []
  else ((List.finRange matrixCols).filter (changed (prev r) (inp.matrix r))).map (keyEvent inp r)

/-- One round of the outer loop: a ghosted row is left alone, another is
reported. -/
theorem taskRow_eq (inp : TaskInput) (r : Fin matrixRows) {s : Rows × List KeyEvent}
    (hs : InCols s.1) :
    taskRow matrixHasGhost inp s r =
      (if Ghosted matrixHasGhost inp.matrix r then s.1 else Function.update s.1 r (inp.matrix r),
        s.2 ++ rowEvents matrixHasGhost inp s.1 r) := by
  have hghost : (matrixHasGhost && hasGhostInRow inp.matrix r) = true ↔
      Ghosted matrixHasGhost inp.matrix r := Bool.and_eq_true_iff
  rw [taskRow, rowEvents]
  by_cases hzero : inp.matrix r ^^^ s.1 r = 0
  · have hsame : inp.matrix r = s.1 r := BitVec.xor_eq_zero_iff.mp hzero
    have hnone : (List.finRange matrixCols).filter (changed (s.1 r) (inp.matrix r)) = [] := by
      rw [List.filter_eq_nil_iff]
      intro c _
      simp [changed, hsame]
    rw [if_pos hzero, hnone, hsame, Function.update_eq_self]
    simp
  · rw [if_neg hzero]
    by_cases hg : Ghosted matrixHasGhost inp.matrix r
    · simp [hghost.mpr hg, hg]
    · rw [if_neg (fun h => hg (hghost.mp h)), if_neg hg, if_neg hg, Prod.ext_iff]
      exact ⟨foldl_taskCol_row inp r hs, foldl_taskCol_events inp r (s.1 r) _ s⟩

/-- `matrix_prev` after a call. -/
def reportedRows (matrixHasGhost : Bool) (inp : TaskInput) (prev : Rows) : Rows := fun r =>
  if Ghosted matrixHasGhost inp.matrix r then prev r else inp.matrix r

theorem taskRow_self (inp : TaskInput) (k : Fin matrixRows) {s : Rows × List KeyEvent}
    (hs : InCols s.1) :
    (taskRow matrixHasGhost inp s k).1 k = reportedRows matrixHasGhost inp s.1 k := by
  rw [taskRow_eq inp k hs, reportedRows]
  split <;> simp

theorem taskRow_other (inp : TaskInput) {k r : Fin matrixRows} (hr : r ≠ k)
    {s : Rows × List KeyEvent} (hs : InCols s.1) :
    (taskRow matrixHasGhost inp s k).1 r = s.1 r := by
  rw [taskRow_eq inp k hs]
  split <;> simp [hr]

/-- The stored rows have bits for the columns only. -/
theorem inCols_taskRow (inp : TaskInput) (k : Fin matrixRows) {s : Rows × List KeyEvent}
    (hs : InCols s.1) : InCols (taskRow matrixHasGhost inp s k).1 := by
  intro r c hc
  by_cases hr : r = k
  · rw [hr, taskRow_self inp k hs, reportedRows]
    split
    · exact hs k c hc
    · exact inp.inCols k c hc
  · rw [taskRow_other inp hr hs]
    exact hs r c hc

/-- The outer loop reports each row by what was stored of it before the call. -/
theorem foldl_taskRow (inp : TaskInput) {l : List (Fin matrixRows)} (hl : l.Nodup)
    {s : Rows × List KeyEvent} (hs : InCols s.1) :
    l.foldl (taskRow matrixHasGhost inp) s =
      (fun r => if r ∈ l then reportedRows matrixHasGhost inp s.1 r else s.1 r,
        s.2 ++ l.flatMap (rowEvents matrixHasGhost inp s.1)) := by
  induction l generalizing s with
  | nil => simp
  | cons k l ih =>
    obtain ⟨hk, hl⟩ := List.nodup_cons.mp hl
    -- row `k` is reported now, and the rows behind it are as they were
    have hself : (taskRow matrixHasGhost inp s k).1 k = reportedRows matrixHasGhost inp s.1 k :=
      taskRow_self inp k hs
    have hother : ∀ r, r ≠ k → (taskRow matrixHasGhost inp s k).1 r = s.1 r := fun r hr =>
      taskRow_other inp hr hs
    have hsnd : (taskRow matrixHasGhost inp s k).2 =
        s.2 ++ rowEvents matrixHasGhost inp s.1 k := by
      rw [taskRow_eq inp k hs]
    have hmem : ∀ r, r ∈ l → r ≠ k := fun r hr hrk => hk (hrk ▸ hr)
    rw [List.foldl_cons, ih hl (inCols_taskRow inp k hs), hsnd, List.flatMap_cons,
      ← List.append_assoc]
    refine Prod.ext (funext fun r => ?_) (congrArg (_ ++ ·) (List.flatMap_congr fun r hr => ?_))
    · by_cases hr : r = k
      · subst hr
        simp [hk, hself]
      · simp [hr, hother r hr, reportedRows]
    · rw [rowEvents, rowEvents, hother r (hmem r hr)]

/-- `keyboard_task` stores the rows it reports. -/
theorem keyboardTask_fst (inp : TaskInput) {prev : Rows} (hprev : InCols prev) :
    (keyboardTask matrixHasGhost prev inp).1 = reportedRows matrixHasGhost inp prev := by
  rw [keyboardTask, foldl_taskRow inp (List.nodup_finRange _) hprev]
  simp

/-- `keyboard_task` sends the events of the rows in order, and one `TICK`. -/
theorem keyboardTask_snd (inp : TaskInput) {prev : Rows} (hprev : InCols prev) :
    (keyboardTask matrixHasGhost prev inp).2 =
      (List.finRange matrixRows).flatMap (rowEvents matrixHasGhost inp prev) ++
        [KeyEvent.tick (inp.timer ⟨255, 255⟩)] := by
  rw [keyboardTask, foldl_taskRow inp (List.nodup_finRange _) hprev]
  simp

/-- No sequence stores a bit outside the columns. -/
theorem inCols_keyboardTasks (inputs : List TaskInput) :
    InCols (keyboardTasks matrixHasGhost inputs).1 := by
  induction inputs using List.reverseRecOn with
  | nil => exact inCols_zero
  | append_singleton inputs inp ih =>
    rw [keyboardTasks_concat, keyboardTask_fst inp ih]
    intro r c hc
    rw [reportedRows]
    split
    · exact ih r c hc
    · exact inp.inCols r c hc

/-! ## The events of one key -/

/-- The edges that `action_exec` has received for a key, in order. -/
def edges (r : Fin matrixRows) (c : Fin matrixCols) (events : List KeyEvent) : List Bool :=
  (events.filter (·.key = keyAt r c)).map (·.pressed)

/-- The edges of a key come in the order of the events. -/
theorem edges_append (r : Fin matrixRows) (c : Fin matrixCols) (events later : List KeyEvent) :
    edges r c (events ++ later) = edges r c events ++ edges r c later := by
  simp [edges]

theorem keyAt_inj {r r' : Fin matrixRows} {c c' : Fin matrixCols} :
    keyAt r c = keyAt r' c' ↔ r = r' ∧ c = c' := by
  constructor
  · intro h
    have hr := congrArg (·.row.toNat) h
    have hc := congrArg (·.col.toNat) h
    have hlt : r.val < 5 ∧ r'.val < 5 ∧ c.val < 14 ∧ c'.val < 14 :=
      ⟨r.isLt, r'.isLt, c.isLt, c'.isLt⟩
    simp only [keyAt, BitVec.toNat_ofNat] at hr hc
    exact ⟨Fin.ext (by omega), Fin.ext (by omega)⟩
  · rintro ⟨rfl, rfl⟩
    rfl

theorem edges_tick (r : Fin matrixRows) (c : Fin matrixCols) (timer : BitVec 16) :
    edges r c [KeyEvent.tick timer] = [] := by
  have hne : (KeyEvent.tick timer).key ≠ keyAt r c := by
    intro h
    have hrow : 255 = r.val % 256 := congrArg (·.row.toNat) h
    have hlt : r.val < 5 := r.isLt
    omega
  simp [edges, hne]

/-- An event carries the bit of its key in the matrix. -/
theorem keyEvent_pressed (inp : TaskInput) (r : Fin matrixRows) (c : Fin matrixCols) :
    (keyEvent inp r c).pressed = (inp.matrix r).getLsbD c.val := by
  rw [keyEvent, Bool.eq_iff_iff, decide_eq_true_iff]
  exact colMask_ne_zero _ (colLt c)

/-- The edges for one key of the events of a row: one of its bit when it
has changed. -/
def edgesOf (matrixHasGhost : Bool) (inp : TaskInput) (prev : Rows) (r : Fin matrixRows)
    (c : Fin matrixCols) : List Bool :=
  if Ghosted matrixHasGhost inp.matrix r then []
  else if changed (prev r) (inp.matrix r) c then [(inp.matrix r).getLsbD c.val]
  else []

theorem flatMap_of_mem {ι β : Type} {l : List ι} (hl : l.Nodup) {i : ι} (hi : i ∈ l)
    {f : ι → List β} (hf : ∀ j, j ≠ i → f j = []) : l.flatMap f = f i := by
  induction l with
  | nil => simp at hi
  | cons j l ih =>
    obtain ⟨hj, hl⟩ := List.nodup_cons.mp hl
    rw [List.flatMap_cons]
    rcases List.mem_cons.mp hi with rfl | hi
    · have hrest : l.flatMap f = [] :=
        List.flatMap_eq_nil_iff.mpr fun k hk => hf k fun hki => hj (hki ▸ hk)
      rw [hrest, List.append_nil]
    · rw [ih hl hi, hf j fun hji => hj (hji ▸ hi), List.nil_append]

theorem filter_filter_of_mem {ι : Type} [DecidableEq ι] {l : List ι} (hl : l.Nodup) {i : ι}
    (hi : i ∈ l) (p : ι → Bool) :
    (l.filter p).filter (fun j => decide (j = i)) = if p i then [i] else [] := by
  induction l with
  | nil => simp at hi
  | cons j l ih =>
    obtain ⟨hj, hl⟩ := List.nodup_cons.mp hl
    rw [List.filter_filter, List.filter_cons, ← List.filter_filter]
    rcases List.mem_cons.mp hi with rfl | hi
    · have hrest : (l.filter p).filter (fun j => decide (j = i)) = [] := by
        rw [List.filter_eq_nil_iff]
        intro k hk hki
        exact hj (of_decide_eq_true hki ▸ (List.mem_filter.mp hk).1)
      rw [hrest, decide_eq_true rfl, Bool.true_and]
    · have hne : ¬ j = i := fun hji => hj (hji ▸ hi)
      rw [ih hl hi, decide_eq_false hne, Bool.false_and, if_neg Bool.false_ne_true]

/-- The events of a row have the edges of its own keys. -/
theorem edges_rowEvents (inp : TaskInput) (prev : Rows) (r i : Fin matrixRows)
    (c : Fin matrixCols) :
    edges r c (rowEvents matrixHasGhost inp prev i) =
      if i = r then edgesOf matrixHasGhost inp prev r c else [] := by
  by_cases hg : Ghosted matrixHasGhost inp.matrix i
  · rw [rowEvents, if_pos hg]
    split
    · next hi => rw [← hi, edgesOf, if_pos hg]; rfl
    · rfl
  · rw [rowEvents, if_neg hg, edges, List.filter_map, List.map_map]
    by_cases hi : i = r
    · subst hi
      have hkey : (fun e : KeyEvent => decide (e.key = keyAt i c)) ∘ keyEvent inp i =
          fun d => decide (d = c) := by
        funext d
        simp [keyEvent, keyAt_inj]
      rw [hkey, filter_filter_of_mem (List.nodup_finRange _) (List.mem_finRange c), if_pos rfl,
        edgesOf, if_neg hg]
      split
      · simp [keyEvent_pressed]
      · rfl
    · have hkey : (fun e : KeyEvent => decide (e.key = keyAt r c)) ∘ keyEvent inp i =
          fun _ => false := by
        funext d
        simp [keyEvent, keyAt_inj, hi]
      rw [hkey, List.filter_false, if_neg hi]
      rfl

/-- One call reports at most one edge of each key, and that when its bit differs
in a row without ghosting. -/
theorem edges_keyboardTask (inp : TaskInput) {prev : Rows} (hprev : InCols prev)
    (r : Fin matrixRows) (c : Fin matrixCols) :
    edges r c (keyboardTask matrixHasGhost prev inp).2 = edgesOf matrixHasGhost inp prev r c := by
  have hrow : (List.finRange matrixRows).flatMap (fun i =>
      edges r c (rowEvents matrixHasGhost inp prev i)) = edgesOf matrixHasGhost inp prev r c := by
    rw [flatMap_of_mem (List.nodup_finRange _) (List.mem_finRange r), edges_rowEvents, if_pos rfl]
    intro i hi
    rw [edges_rowEvents, if_neg hi]
  rw [keyboardTask_snd inp hprev, edges_append, edges_tick, List.append_nil, ← hrow]
  simp only [edges, List.filter_flatMap, List.map_flatMap]

/-! ## Whole runs -/

/-- Edges that take turns: what follows a state is the other one. -/
def Alternates : Bool → List Bool → Prop
  | _, [] => True
  | down, edge :: rest => edge = !down ∧ Alternates edge rest

/-- Edges that alternate go on alternating from where they stopped. -/
theorem alternates_append {down : Bool} {l l' : List Bool} (h : Alternates down l)
    (h' : Alternates (l.getLastD down) l') : Alternates down (l ++ l') := by
  induction l generalizing down with
  | nil => exact h'
  | cons edge l ih => exact ⟨h.1, ih h.2 (by rwa [List.getLastD_cons] at h')⟩

/-- The row at the last call that did not leave it alone. -/
def lastReported (matrixHasGhost : Bool) (inputs : List TaskInput) (r : Fin matrixRows) :
    MatrixRow :=
  ((inputs.filter fun inp => ¬ Ghosted matrixHasGhost inp.matrix r).getLast?.map
    (·.matrix r)).getD 0

/-- What was last reported of a row is its matrix row, unless it is ghosted. -/
theorem lastReported_concat (inputs : List TaskInput) (inp : TaskInput) :
    lastReported matrixHasGhost (inputs ++ [inp]) =
      reportedRows matrixHasGhost inp (lastReported matrixHasGhost inputs) := by
  funext r
  rw [lastReported, reportedRows, List.filter_append, List.filter_singleton]
  by_cases hg : Ghosted matrixHasGhost inp.matrix r <;> simp [hg, lastReported]

/-- The stored rows are those that were last reported. -/
theorem keyboardTasks_fst (inputs : List TaskInput) :
    (keyboardTasks matrixHasGhost inputs).1 = lastReported matrixHasGhost inputs := by
  induction inputs using List.reverseRecOn with
  | nil => rfl
  | append_singleton inputs inp ih =>
    rw [keyboardTasks_concat, keyboardTask_fst inp (inCols_keyboardTasks inputs), ih,
      lastReported_concat]

/-- A key's edges take turns, and the last one is the bit last reported. -/
theorem keyboardTasks_edges (inputs : List TaskInput) (r : Fin matrixRows) (c : Fin matrixCols) :
    Alternates false (edges r c (keyboardTasks matrixHasGhost inputs).2) ∧
      (edges r c (keyboardTasks matrixHasGhost inputs).2).getLastD false =
        (lastReported matrixHasGhost inputs r).getLsbD c.val := by
  induction inputs using List.reverseRecOn with
  | nil => exact ⟨trivial, by simp [keyboardTasks, edges, lastReported]⟩
  | append_singleton inputs inp ih =>
    obtain ⟨halt, hlast⟩ := ih
    rw [keyboardTasks_concat, edges_append, edges_keyboardTask inp (inCols_keyboardTasks inputs),
      keyboardTasks_fst, edgesOf, lastReported_concat, reportedRows]
    split
    · rw [List.append_nil]
      exact ⟨halt, hlast⟩
    · split
      · next hchanged =>
        refine ⟨alternates_append halt ⟨?_, trivial⟩, by simp⟩
        rw [hlast]
        rw [changed, bne_iff_ne] at hchanged
        exact Bool.eq_not.mpr hchanged
      · next hsame =>
        simp only [changed, bne_iff_ne, ne_eq, not_not] at hsame
        rw [List.append_nil, hsame]
        exact ⟨halt, hlast⟩

/-- Every event is that of a key of the matrix or the `TICK`. -/
theorem mem_keyboardTask (inp : TaskInput) {prev : Rows} (hprev : InCols prev) {e : KeyEvent}
    (he : e ∈ (keyboardTask matrixHasGhost prev inp).2) :
    (∃ r c, e = keyEvent inp r c) ∨ e = KeyEvent.tick (inp.timer ⟨255, 255⟩) := by
  rw [keyboardTask_snd inp hprev, List.mem_append, List.mem_flatMap, List.mem_singleton] at he
  refine he.imp_left fun ⟨r, _, hr⟩ => ?_
  rw [rowEvents] at hr
  split at hr
  · simp at hr
  · obtain ⟨c, -, rfl⟩ := List.mem_map.mp hr
    exact ⟨r, c, rfl⟩

/-- What the tapping code takes for granted of its events. -/
theorem keyboardTask_wellFormed (inp : TaskInput) {prev : Rows} (hprev : InCols prev)
    {e : KeyEvent} (he : e ∈ (keyboardTask matrixHasGhost prev inp).2) : e.WellFormed := by
  rcases mem_keyboardTask inp hprev he with ⟨r, c, rfl⟩ | rfl
  · have htime : ((keyEvent inp r c).time == 0) = false := timer_or_one_ne_zero _
    have hrow : ((keyEvent inp r c).key.row == 255) = false := by
      refine beq_eq_false_iff_ne.mpr fun h => ?_
      have hval : r.val % 256 = 255 := congrArg BitVec.toNat h
      have hlt : r.val < 5 := r.isLt
      omega
    intro hnone
    rw [KeyEvent.isNoEvent, htime, hrow, Bool.false_and, Bool.or_false] at hnone
    exact absurd hnone Bool.false_ne_true
  · exact fun _ => ⟨rfl, rfl⟩

/-- What the call after those of `past` does with the matrix it finds. -/
structure Reconciles (matrixHasGhost : Bool) (past : List TaskInput) (inp : TaskInput) : Prop where
  /-- One event for every changed bit, with the new bit. -/
  changes : ∀ r c, ¬ Ghosted matrixHasGhost inp.matrix r →
    edges r c (keyboardTask matrixHasGhost (keyboardTasks matrixHasGhost past).1 inp).2 =
      if (inp.matrix r).getLsbD c.val ≠ ((keyboardTasks matrixHasGhost past).1 r).getLsbD c.val then
        [(inp.matrix r).getLsbD c.val]
      else []
  ghosted : ∀ r c, Ghosted matrixHasGhost inp.matrix r →
    edges r c (keyboardTask matrixHasGhost (keyboardTasks matrixHasGhost past).1 inp).2 = []
  /-- All events but the `TICK` are of keys of the matrix. -/
  keys : ∀ e ∈ (keyboardTask matrixHasGhost (keyboardTasks matrixHasGhost past).1 inp).2,
    (∃ r c, e.key = keyAt r c) ∨ e = KeyEvent.tick (inp.timer ⟨255, 255⟩)
  stored : ∀ r, ¬ Ghosted matrixHasGhost inp.matrix r →
    (keyboardTasks matrixHasGhost (past ++ [inp])).1 r = inp.matrix r
  /-- The events of a row are the difference from what it last reported. -/
  net : ∀ r c, ¬ Ghosted matrixHasGhost inp.matrix r →
    edges r c (keyboardTask matrixHasGhost (keyboardTasks matrixHasGhost past).1 inp).2 =
      if (inp.matrix r).getLsbD c.val ≠ (lastReported matrixHasGhost past r).getLsbD c.val then
        [(inp.matrix r).getLsbD c.val]
      else []

/-- In a row without ghosting a key has an edge exactly when its bit differs. -/
theorem edgesOf_of_not_ghosted {inp : TaskInput} {prev : Rows} {r : Fin matrixRows}
    {c : Fin matrixCols} (hg : ¬ Ghosted matrixHasGhost inp.matrix r) :
    edgesOf matrixHasGhost inp prev r c =
      if (inp.matrix r).getLsbD c.val ≠ (prev r).getLsbD c.val then
        [(inp.matrix r).getLsbD c.val]
      else [] := by
  rw [edgesOf, if_neg hg]
  exact if_congr bne_iff_ne rfl rfl

/-- After any calls one more reconciles every row that is not ghosted. -/
theorem reconciles (past : List TaskInput) (inp : TaskInput) :
    Reconciles matrixHasGhost past inp where
  changes r c hg := by
    rw [edges_keyboardTask inp (inCols_keyboardTasks past), edgesOf_of_not_ghosted hg]
  ghosted r c hg := by
    rw [edges_keyboardTask inp (inCols_keyboardTasks past), edgesOf, if_pos hg]
  keys e he :=
    (mem_keyboardTask inp (inCols_keyboardTasks past) he).imp_left
      fun ⟨r, c, hkey⟩ => ⟨r, c, hkey ▸ rfl⟩
  stored r hg := by
    rw [keyboardTasks_fst, lastReported_concat, reportedRows, if_neg hg]
  net r c hg := by
    rw [edges_keyboardTask inp (inCols_keyboardTasks past), keyboardTasks_fst,
      edgesOf_of_not_ghosted hg]

/-- **Reconciliation.** With or without ghost detection, the edges of
every key take turns from a press on, and each call reports the
difference to what was reported before, row by row. -/
theorem keyboardTasks_reconcile (matrixHasGhost : Bool) (inputs : List TaskInput) :
    (∀ r c, Alternates false (edges r c (keyboardTasks matrixHasGhost inputs).2)) ∧
      ∀ past inp, past ++ [inp] <+: inputs → Reconciles matrixHasGhost past inp :=
  ⟨fun r c => (keyboardTasks_edges inputs r c).1, fun past inp _ => reconciles past inp⟩

/-- Two keys of one row that share their columns with another row are
ghosts, and the row is left alone. -/
example : hasGhostInRow (fun r => if r.val < 2 then 3 else 0) ⟨0, by decide⟩ = true := by
  decide

end Ch583Kbd.Tmk
