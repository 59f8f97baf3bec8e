/-
Ch583Kbd.Firmware.Typing — from the pins to the reports.

One turn of `kbd_task`: `matrix_scan`, the events of `keyboard_task` with
`action_exec` for each, the `TICK` and `mousekey_task`. `typing_faithful` joins the
debouncer, the event loop, the tapping code and the action layer: on a
keymap of plain keys the host sees, after any history of scans, what the
keys contribute that have been down for the last `DEBOUNCE` scans.

The build of `zora61` has no `MATRIX_HAS_GHOST`.
-/
import Ch583Kbd.Tmk.Contributors
import Ch583Kbd.Tmk.TapToggle
import Ch583Kbd.Tmk.KeyboardTask

namespace Ch583Kbd.Firmware

open Ch583Kbd.Tmk Ch583Kbd.Drivers Ch583Kbd.Eeprom Ch583Kbd.Lib TappingState

/-! ## The keyboard -/

/-- What a turn reads: the column pins; for every key, `timer_read()` at its
event and what `action_exec` reads while it executes it; `timer_read()` in
`mousekey_task`. The `TICK` has the position (255, 255). -/
structure Turn where
  pins : Pins
  eventTimer : KeyPos → BitVec 16
  timer : KeyPos → BitVec 16
  leds : KeyPos → BitVec 8
  mouseTimer : BitVec 16

/-- The calls of `action_exec` for the events. -/
def Turn.inputs (turn : Turn) (events : List KeyEvent) (h : ∀ e ∈ events, e.WellFormed) :
    List Input :=
  events.pmap (fun e wf => ⟨e, turn.timer e.key, turn.leds e.key, wf⟩) h

/-- The static variables of `keyboard_matrix.c`, `keyboard.c`,
`action_tapping.c` and the action layer. -/
structure Keyboard where
  scan : MatrixState
  matrixPrev : Rows
  tapping : Tapping
  matrixInCols : InCols scan.matrix
  prevInCols : InCols matrixPrev

theorem MatrixState.inCols_step {s t : MatrixState} {n : Nat} {pins : Pins}
    (h : t.debouncer = s.debouncer.step n (snapshot pins)) (hmatrix : InCols s.matrix) :
    InCols t.matrix := by
  have hout : t.matrix = (s.debouncer.step n (snapshot pins)).out := congrArg Debouncer.out h
  have hcases : (s.debouncer.step n (snapshot pins)).out = snapshot pins ∨
      (s.debouncer.step n (snapshot pins)).out = s.matrix :=
    ite_eq_or_eq ((if s.debouncer.pending = snapshot pins then s.debouncer.wait else n) = 1) _ _
  rcases hcases with hnew | hold
  · rw [hout, hnew]
    exact inCols_snapshot pins
  · rw [hout, hold]
    exact hmatrix

theorem inCols_matrixScan {debounce : BitVec 8} {s : MatrixState} (hmatrix : InCols s.matrix)
    (pins : Pins) : InCols (matrixScan debounce s pins).matrix :=
  MatrixState.inCols_step (matrixScan_debouncer debounce s pins) hmatrix

/-- Without ghost detection a call leaves the new matrix behind. -/
theorem keyboardTask_prev (inp : TaskInput) {prev : Rows} (hprev : InCols prev) :
    (keyboardTask false prev inp).1 = inp.matrix := by
  rw [keyboardTask_fst inp hprev]
  funext r
  exact if_neg fun h => Bool.false_ne_true h.1

namespace Keyboard

def start (debounce protocol : BitVec 8) (nkro : Bool) : Keyboard where
  scan := { debouncing := debounce }
  matrixPrev _ := 0
  tapping := { Tapping.init with act := startState protocol nkro }
  matrixInCols := inCols_zero
  prevInCols := inCols_zero

variable (debounce : BitVec 8) (K : Keymap)

/-- What `keyboard_task` compares, after `matrix_scan`. -/
def taskInput (kb : Keyboard) (turn : Turn) : TaskInput where
  matrix := (matrixScan debounce kb.scan turn.pins).matrix
  inCols := inCols_matrixScan kb.matrixInCols turn.pins
  timer := turn.eventTimer

/-- The events that `keyboard_task` passes on. -/
def events (kb : Keyboard) (turn : Turn) : List KeyEvent :=
  (keyboardTask false kb.matrixPrev (kb.taskInput debounce turn)).2

/-- Every event of a turn is a `TICK` or that of a key of the matrix. -/
theorem events_wellFormed (kb : Keyboard) (turn : Turn) :
    ∀ e ∈ kb.events debounce turn, e.WellFormed := fun _ he =>
  keyboardTask_wellFormed (kb.taskInput debounce turn) kb.prevInCols he

/-- `mousekey_task`, at the end of `keyboard_task`. -/
def mousekeyTask (turn : Turn) (s : Tapping) : Tapping :=
  { s with act := { s.act with timer := turn.mouseTimer }.mousekeyTask }

/-- `keyboard_task`. -/
def task (kb : Keyboard) (turn : Turn) : Keyboard where
  scan := matrixScan debounce kb.scan turn.pins
  matrixPrev := (keyboardTask false kb.matrixPrev (kb.taskInput debounce turn)).1
  tapping := mousekeyTask turn
    (run K (turn.inputs (kb.events debounce turn) (kb.events_wellFormed debounce turn)) kb.tapping)
  matrixInCols := inCols_matrixScan kb.matrixInCols turn.pins
  prevInCols := by
    rw [keyboardTask_prev (kb.taskInput debounce turn) kb.prevInCols]
    exact (kb.taskInput debounce turn).inCols

theorem scan_task (kb : Keyboard) (turn : Turn) :
    (kb.task debounce K turn).scan = matrixScan debounce kb.scan turn.pins := by
  rw [task]

/-- A turn compares the matrix of its own scan. -/
theorem matrix_taskInput (kb : Keyboard) (turn : Turn) :
    (kb.taskInput debounce turn).matrix = (matrixScan debounce kb.scan turn.pins).matrix := by
  rw [taskInput]

/-- The turns of `kbd_task` from power-up. -/
def turns (protocol : BitVec 8) (nkro : Bool) (history : List Turn) : Keyboard :=
  history.foldl (task debounce K) (start debounce protocol nkro)

end Keyboard

/-! ## Which keys are down -/

def downIn (rows : Rows) (k : KeyPos) : Bool :=
  (List.finRange matrixRows).any fun r => (List.finRange matrixCols).any fun c =>
    k = keyAt r c && (rows r).getLsbD c.val

/-- The keys down in a matrix are those at its set bits. -/
theorem downIn_iff {rows : Rows} {k : KeyPos} :
    downIn rows k = true ↔ ∃ r c, k = keyAt r c ∧ (rows r).getLsbD c.val = true := by
  simp [downIn]

theorem downIn_keyAt (rows : Rows) (r : Fin matrixRows) (c : Fin matrixCols) :
    downIn rows (keyAt r c) = (rows r).getLsbD c.val := by
  rw [Bool.eq_iff_iff, downIn_iff]
  constructor
  · rintro ⟨r', c', hkey, hbit⟩
    obtain ⟨rfl, rfl⟩ := keyAt_inj.mp hkey
    exact hbit
  · intro hbit
    exact ⟨r, c, rfl, hbit⟩

/-- What the events leave down. -/
def downAfter (down : KeyPos → Bool) (events : List KeyEvent) : KeyPos → Bool :=
  events.foldl (fun down e k => if !e.isNoEvent && k = e.key then e.pressed else down k) down

/-- A key is down after some events as its own last event says. -/
theorem downAfter_eq (down : KeyPos → Bool) (events : List KeyEvent) (k : KeyPos) :
    downAfter down events k =
      ((events.filter fun e => !e.isNoEvent && k = e.key).map (·.pressed)).getLastD (down k) := by
  induction events generalizing down with
  | nil => rfl
  | cons e events ih =>
    rw [downAfter, List.foldl_cons, ← downAfter, ih, List.filter_cons]
    split
    · rw [List.map_cons, List.getLastD_cons]
    · rfl

/-- The events of a call take the keys from the matrix last reported to the
new one. -/
theorem downAfter_keyboardTask (inp : TaskInput) {prev : Rows} (hprev : InCols prev) :
    downAfter (downIn prev) (keyboardTask false prev inp).2 = downIn inp.matrix := by
  funext k
  rw [downAfter_eq]
  by_cases hkey : ∃ r c, k = keyAt r c
  · obtain ⟨r, c, rfl⟩ := hkey
    have hreal : ∀ e ∈ (keyboardTask false prev inp).2, e.key = keyAt r c →
        e.isNoEvent = false := by
      intro e he hk
      cases hn : e.isNoEvent with
      | false => rfl
      | true =>
        have hpos := (keyboardTask_wellFormed inp hprev he hn).1
        have hrow : 255 = r.val % 256 := congrArg (·.row.toNat) (hpos.symm.trans hk)
        have hlt : r.val < 5 := r.isLt
        omega
    have hedges : ((keyboardTask false prev inp).2.filter fun e =>
      !e.isNoEvent && keyAt r c = e.key)
        = (keyboardTask false prev inp).2.filter (·.key = keyAt r c) := by
      refine List.filter_congr fun e he => ?_
      rw [Bool.eq_iff_iff]
      simp only [Bool.and_eq_true, Bool.not_eq_true', decide_eq_true_eq]
      exact ⟨fun h => h.2.symm, fun h => ⟨hreal e he h, h.symm⟩⟩
    have hfalse : ¬Ghosted false inp.matrix r := fun h => Bool.false_ne_true h.1
    rw [hedges, ← edges, edges_keyboardTask inp hprev, edgesOf_of_not_ghosted hfalse, downIn_keyAt,
      downIn_keyAt]
    split
    · rfl
    · next hsame => exact (not_not.mp hsame).symm
  · have hnone : ((keyboardTask false prev inp).2.filter fun e => !e.isNoEvent && k = e.key) =
      [] := by
      rw [List.filter_eq_nil_iff]
      intro e he hk
      simp only [Bool.and_eq_true, Bool.not_eq_true', decide_eq_true_eq] at hk
      rcases mem_keyboardTask inp hprev he with ⟨r, c, rfl⟩ | rfl
      · exact hkey ⟨r, c, hk.2⟩
      · simp [KeyEvent.isNoEvent, KeyEvent.tick] at hk
    have hup : ∀ rows, downIn rows k = false := fun rows =>
      Bool.eq_false_iff.mpr fun h =>
        hkey ((downIn_iff.mp h).imp fun _ => Exists.imp fun _ => And.left)
    rw [hnone, hup inp.matrix]
    exact hup prev

/-! ## Plain keys -/

/-- Layer 0 has modifiers, codes and usages only, each on one key; no key is
a lock key or a usage of zero. -/
structure PlainKeys (K : Keymap) : Prop where
  simple : ∀ r c, (K 0 (keyAt r c)).Simple
  distinct : ∀ r c r' c' x, (K 0 (keyAt r c)).Contributes x → (K 0 (keyAt r' c')).Contributes x →
    keyAt r c = keyAt r' c'
  noClobbers : ∀ r c leds pressed x, ¬(K 0 (keyAt r c)).Clobbers leds pressed x

/-- The action of a key that sends a code and no modifiers. -/
def keyAction (code : BitVec 8) : Action := ⟨code.setWidth 16⟩

theorem kindId_keyAction (code : BitVec 8) : (keyAction code).kindId = .lmods := by
  revert code
  decide +kernel

theorem keyCode_keyAction (code : BitVec 8) : (keyAction code).keyCode = code := by
  revert code
  decide +kernel

theorem keyMods_keyAction (code : BitVec 8) : (keyAction code).keyMods = 0 := by
  revert code
  decide +kernel

/-- The action of a code contributes what the code fills. -/
theorem contributes_keyAction (code : BitVec 8) (x : Slot) :
    (keyAction code).Contributes x ↔ codeSlots code x := by
  have hmods : ¬weakModSlots (sideMods 0 true) x := by
    cases x <;> simp [weakModSlots, sideMods]
  simp only [Action.Contributes, kindId_keyAction, keyCode_keyAction, keyMods_keyAction, hmods,
    false_or]

/-- Codes of keys and modifiers, without the lock keys that resync. -/
def Ordinary (code : BitVec 8) : Prop :=
  code ≠ kcNo ∧ lockingKey code = none ∧ (isKey code = true ∨ isMod code = true)

instance (code : BitVec 8) : Decidable (Ordinary code) := inferInstanceAs (Decidable (_ ∧ _))

/-- What the code fills. -/
def ordinarySlot (code : BitVec 8) : Slot :=
  if isKey code then .code code else .mod (code &&& 0x07#8).toNat

theorem modSlots_modBit (code : BitVec 8) {x : Slot} (hx : modSlots (modBit code) x) :
    x = .mod (code &&& 0x07#8).toNat := by
  cases x with
  | mod i =>
    have hlt : i < 8 := BitVec.lt_of_getLsbD hx
    have hbit : (1#8 <<< (code &&& 0x07#8).toNat).getLsbD i = true := hx
    have htwo := BitVec.getLsbD_twoPow (w := 8) (code &&& 0x07#8).toNat i
    rw [BitVec.twoPow, hbit] at htwo
    simp only [Bool.true_eq, Bool.and_eq_true, decide_eq_true_eq] at htwo
    rw [htwo.2]
  | _ => exact hx.elim

/-- An ordinary code fills one slot only. -/
theorem codeSlots_ordinary {code : BitVec 8} (h : Ordinary code) {x : Slot}
    (hx : codeSlots code x) :
    x = ordinarySlot code := by
  obtain ⟨hno, hlock, hkind⟩ := h
  by_cases hkey : isKey code = true
  · rw [codeSlots_key hno hlock hkey] at hx
    rw [ordinarySlot, if_pos hkey, hx]
  · rw [codeSlots_mod hno hlock hkey (hkind.resolve_left hkey)] at hx
    rw [ordinarySlot, if_neg hkey]
    exact modSlots_modBit code hx

/-- Two ordinary codes with the same slot are the same code. -/
theorem ordinarySlot_inj {code code' : BitVec 8} (h : Ordinary code) (h' : Ordinary code')
    (heq : ordinarySlot code = ordinarySlot code') : code = code' := by
  have hmod : ∀ code : BitVec 8, isMod code = true → code = 0xE0#8 + (code &&& 0x07#8) := by
    decide +kernel
  simp only [ordinarySlot] at heq
  split at heq <;> split at heq
  · exact Slot.code.inj heq
  · simp at heq
  · simp at heq
  · next hk hk' =>
    rw [hmod code (h.2.2.resolve_left hk), hmod code' (h'.2.2.resolve_left hk'),
      BitVec.eq_of_toNat_eq (Slot.mod.inj heq)]

/-- A keymap with a code for every key, each code but `KC_NO` once, has plain
keys. -/
theorem plainKeys_of_codes {K : Keymap} (codes : Fin matrixRows → Fin matrixCols → BitVec 8)
    (hK : ∀ r c, K 0 (keyAt r c) = keyAction (codes r c))
    (hkey : ∀ r c, codes r c = kcNo ∨ Ordinary (codes r c))
    (honce : ∀ r c r' c', codes r c ≠ kcNo → codes r c = codes r' c' → r = r' ∧ c = c') :
    PlainKeys K := by
  have hslots : ∀ r c x, (K 0 (keyAt r c)).Contributes x →
      Ordinary (codes r c) ∧ x = ordinarySlot (codes r c) := by
    intro r c x hx
    rw [hK, contributes_keyAction] at hx
    rcases hkey r c with hno | hcode
    · simp [codeSlots, hno] at hx
    · exact ⟨hcode, codeSlots_ordinary hcode hx⟩
  refine ⟨fun r c => ?_, fun r c r' c' x hx hx' => ?_, fun r c leds pressed x hx => ?_⟩
  · rw [hK]
    exact .inl (kindId_keyAction _)
  · obtain ⟨hcode, hslot⟩ := hslots r c x hx
    obtain ⟨hcode', hslot'⟩ := hslots r' c' x hx'
    have heq := ordinarySlot_inj hcode hcode' (hslot.symm.trans hslot')
    exact keyAt_inj.mpr (honce r c r' c' hcode.1 heq)
  · rw [hK] at hx
    simp only [Action.Clobbers, kindId_keyAction, keyCode_keyAction] at hx
    rcases hkey r c with hno | ⟨-, hlock, -⟩
    · rw [hno] at hx
      exact not_lockSlots kcNo (by decide) leds pressed x hx
    · exact not_lockSlots _ hlock leds pressed x hx

/-- The keymap with these codes on every layer. -/
def codeKeymap (codes : Fin matrixRows → Fin matrixCols → BitVec 8) : Keymap := fun _ k =>
  if h : k.row.toNat < matrixRows ∧ k.col.toNat < matrixCols then
    keyAction (codes ⟨k.row.toNat, h.1⟩ ⟨k.col.toNat, h.2⟩)
  else Action.no

theorem codeKeymap_keyAt (codes : Fin matrixRows → Fin matrixCols → BitVec 8) (layer : BitVec 8)
    (r : Fin matrixRows) (c : Fin matrixCols) : codeKeymap codes layer (keyAt r c) =
      keyAction (codes r c) := by
  have hr : (keyAt r c).row.toNat = r.val := Nat.mod_eq_of_lt (Nat.lt_trans r.isLt (by decide))
  have hc : (keyAt r c).col.toNat = c.val := Nat.mod_eq_of_lt (Nat.lt_trans c.isLt (by decide))
  rw [codeKeymap, dif_pos ⟨hr ▸ r.isLt, hc ▸ c.isLt⟩]
  congr 2 <;> exact Fin.ext (by assumption)

/-- The keys down in one of two matrices have at most six codes. -/
def AtMostSix (K : Keymap) (rows rows' : Rows) : Prop :=
  ∃ codes : List (BitVec 8), codes.length ≤ 6 ∧ ∀ k c,
    downIn rows k = true ∨ downIn rows' k = true → (K 0 k).Contributes (.code c) → c ∈ codes

/-- Between two events: nothing is being tapped, the reports are those of
the keys that are down, the mouse does not move. -/
structure Typed (K : Keymap) (s : Tapping) (down : KeyPos → Bool) : Prop where
  idle : s.Idle
  board : Board.Inv K ⟨s.act, down⟩
  still : MouseKey.still s.act.mouse.report = true

section Event

variable {K : Keymap} {s : Tapping} {down : KeyPos → Bool} {inp : Input}

/-- The clock and the LEDs play no part in the invariant of the board. -/
theorem inv_readings {act : ActionState} (h : Board.Inv K ⟨act, down⟩) (timer : BitVec 16)
    (leds : BitVec 8) : Board.Inv K ⟨{ act with timer := timer, leds := leds }, down⟩ where
  settled := ⟨fun hn => sixKro_of_report (h.settled.ring hn) rfl rfl, h.settled.oneshot,
    h.settled.report, h.settled.mods⟩
  synced := ⟨h.synced.mouse, h.synced.system, h.synced.consumer⟩
  noLayer := ⟨h.noLayer.layerState, h.noLayer.defaultLayerState, h.noLayer.layerPressed⟩
  holds x := by
    have hholds := h.holds x
    cases x <;> exact hholds

/-- A basic step leaves the mouse report as it is. -/
theorem mouse_apply {step : ActionStep} (hb : step.Basic) (act : ActionState) :
    (step.apply act).mouse = act.mouse := by
  cases step with
  | system u =>
    simp [ActionStep.apply, ActionStep.reports, ActionStep.update, ActionState.hostSystemSend_eq]
  | consumer u =>
    simp [ActionStep.apply, ActionStep.reports, ActionStep.update, ActionState.hostConsumerSend_eq]
  | addMods m | delMods m | addWeakMods m | delWeakMods m =>
    exact ActionState.sendKeyboardReport_mouse _
  | registerKey c | relockKey c | delKey c => exact ActionState.sendKeyboardReport_mouse _
  | _ => exact hb.elim

/-- A simple action leaves the mouse report as it is. -/
theorem mouse_step {b : Board} {x : Stroke} (h : Board.Inv K b) (hsimple : (K 0 x.key).Simple) :
    (b.step K x).act.mouse = b.act.mouse := by
  obtain ⟨f, hf⟩ := Board.before_eq K b x
  rw [Board.step_act h.noLayer x]
  refine foldl_invariant (P := fun act : ActionState => act.mouse = b.act.mouse)
    (R := ActionStep.Basic) (fun act step hact hb => (mouse_apply hb act).trans hact)
    (by rw [hf]) fun step hstep => ?_
  exact (Action.confined_performSteps (b.before K x) x.pressed x.record.tap hsimple
    step hstep).basic

theorem Simple.not_isTap {a : Action} (h : a.Simple) : a.isTap = false := by
  rcases h with h | h | h <;> simp [Action.isTap, h]

/-- An event of an idle tapping machine is executed at once. -/
theorem actionExec_idle (h : s.Idle) (hlayer : NoLayer s.act)
    (hsimple : inp.event.isNoEvent = false → (K 0 inp.event.key).Simple) :
    (actionExec K inp s).Idle ∧
      (actionExec K inp s).act = (processAction K (s.record inp) (s.submit inp).act).2 := by
  obtain ⟨htapping, hempty⟩ := h
  obtain ⟨consumed, r', w, hstep, hdone, -⟩ := actionExec_step (K := K) inp s hempty
  have hnot : (s.view.submit inp).isTapping = false := htapping
  have hpressed : (s.view.submit inp).isTappingPressed = false := by
    simp [isTappingPressed, hnot]
  have hreleased : (s.view.submit inp).isTappingReleased = false := by
    simp [isTappingReleased, hnot]
  have hundecided : (s.view.submit inp).undecided = false := by simp [undecided, hpressed]
  have hsettled : (s.view.submit inp).settled = false := by simp [TappingState.settled, hpressed]
  have hbuffer : (s.view.submit inp).waitingBuffer = [] := (RingQueue.isEmpty_iff _).mp hempty
  have hlayer' : NoLayer (s.view.submit inp).act :=
    ⟨hlayer.layerState, hlayer.defaultLayerState, hlayer.layerPressed⟩
  -- the record is handed over, or it is a `TICK`
  suffices hw : (consumed = true ∨ inp.event.isNoEvent = true) ∧ w.isTapping = false ∧
      w.waitingBuffer = [] ∧ w.act = (processAction K (s.record inp) (s.submit inp).act).2 by
    obtain ⟨hconsumed, htap, hwait, hact⟩ := hw
    have hview := hdone hwait hconsumed
    rw [← hact, ← hview]
    refine ⟨⟨?_, isEmpty_of_view hview hwait⟩, rfl⟩
    rw [← htap, ← hview]
    rfl
  cases hstep with
  | firstTap hu _ => exact absurd (hundecided.symm.trans hu) Bool.false_ne_true
  | early hu _ _ _ _ _ => exact absurd (hundecided.symm.trans hu) Bool.false_ne_true
  | wait hu _ _ _ => exact absurd (hundecided.symm.trans hu) Bool.false_ne_true
  | timeout hu _ => exact absurd (hundecided.symm.trans hu) Bool.false_ne_true
  | tapRelease hd _ _ => exact absurd (hsettled.symm.trans hd) Bool.false_ne_true
  | start _ _ hp ht _ _ =>
    have hreal : inp.event.isNoEvent = false := (inp.event.isPressed_iff.mp hp).1
    have htap : ((s.view.submit inp).act.actionOf K inp.event).isTap = true := ht
    rw [hlayer'.actionOf hreal, Simple.not_isTap (hsimple hreal)] at htap
    exact absurd htap Bool.false_ne_true
  | sequential hr _ _ _ _ _ => exact absurd (hreleased.symm.trans hr) Bool.false_ne_true
  | again hr _ _ _ _ => exact absurd (hreleased.symm.trans hr) Bool.false_ne_true
  | pass _ _ _ _ _ =>
    refine ⟨.inl rfl, ?_, hbuffer, rfl⟩
    have hkey : ((s.view.submit inp).interruptedBy inp.event).tappingKey =
        (s.view.submit inp).tappingKey := by simp [interruptedBy, hreleased]
    show (!((s.view.submit inp).interruptedBy inp.event).tappingKey.event.isNoEvent) = false
    rw [hkey]
    exact hnot
  | releasedTimeout hr _ => exact absurd (hreleased.symm.trans hr) Bool.false_ne_true
  | tick _ he _ =>
    have hn : inp.event.isNoEvent = true := he
    refine ⟨.inl rfl, hnot, hbuffer, ?_⟩
    rw [processAction, if_pos (show (s.record inp).event.isNoEvent = true from hn)]
    rfl

/-- The key is one of the matrix, and its codes are among `codes`. -/
def InPlay (K : Keymap) (codes : List (BitVec 8)) (k : KeyPos) : Prop :=
  (∃ r c, k = keyAt r c) ∧ ∀ c, (K 0 k).Contributes (.code c) → c ∈ codes

theorem InPlay.simple (hK : PlainKeys K) {codes : List (BitVec 8)} {k : KeyPos}
    (h : InPlay K codes k) : (K 0 k).Simple := by
  obtain ⟨⟨r, c, rfl⟩, -⟩ := h
  exact hK.simple r c

/-- With at most six codes in play, a plain key disturbs no other key. -/
theorem undisturbed_of_inPlay (hK : PlainKeys K) {codes : List (BitVec 8)} (hlen : codes.length ≤ 6)
    {b : Board} {x : Stroke} (hdown : ∀ k, b.down k = true → InPlay K codes k)
    (hkey : InPlay K codes x.key) : Undisturbed K (b, x) := by
  obtain ⟨⟨r, c, hrc⟩, hfills⟩ := hkey
  refine ⟨fun k hne hk y hy hremoves => ?_, codes, hlen, fun code hcode => ?_⟩
  · obtain ⟨⟨r', c', rfl⟩, -⟩ := hdown k hk
    rw [hrc] at hremoves hne
    rcases hremoves with hclob | ⟨-, hcontr⟩
    · exact hK.noClobbers r c _ _ y hclob
    · exact hne (hK.distinct r' c' r c y hy hcontr)
  · rcases hcode with ⟨k, hk, hcontr⟩ | hcontr | hclob
    · exact (hdown k hk).2 code hcontr
    · exact hfills code hcontr
    · rw [hrc] at hclob
      exact absurd hclob (hK.noClobbers r c _ _ _)

/-- The stroke that a real event is. -/
def strokeOf (inp : Input) (s : Tapping) (h : inp.event.isNoEvent = false) : Stroke :=
  ⟨s.record inp, inp.leds, h⟩

/-- The board as `action_exec` finds it. -/
def boardAt (inp : Input) (s : Tapping) (down : KeyPos → Bool) : Board :=
  ⟨{ s.act with timer := inp.timer, leds := inp.leds }, down⟩

theorem downAfter_single (hn : inp.event.isNoEvent = false) : downAfter down [inp.event] =
    ((boardAt inp s down).step K (strokeOf inp s hn)).down := by
  funext k
  simp only [downAfter, List.foldl_cons, List.foldl_nil, hn, Board.step, Bool.not_false,
    Bool.true_and, decide_eq_true_eq]
  rfl

theorem downAfter_tick (hn : inp.event.isNoEvent = true) : downAfter down [inp.event] = down := by
  funext k
  simp [downAfter, hn]

theorem Typed.inv_boardAt (h : Typed K s down) (inp : Input) : Board.Inv K (boardAt inp s down) :=
  inv_readings h.board inp.timer inp.leds

section Exec

variable {codes : List (BitVec 8)}
variable (hK : PlainKeys K) (h : Typed K s down)
variable (hkey : inp.event.isNoEvent = false → InPlay K codes inp.event.key)
include hK h hkey

/-- A real event is handled as one stroke of the board. -/
theorem Typed.exec_real (hn : inp.event.isNoEvent = false) : (actionExec K inp s).act =
    ((boardAt inp s down).step K (strokeOf inp s hn)).act :=
  (actionExec_idle h.idle h.board.noLayer fun hn => (hkey hn).simple hK).2

/-- A `TICK` changes the readings only. -/
theorem Typed.exec_tick (hn : inp.event.isNoEvent = true) :
    (actionExec K inp s).act = (boardAt inp s down).act := by
  have hrecord : (s.record inp).event.isNoEvent = true := hn
  rw [(actionExec_idle h.idle h.board.noLayer fun hn => (hkey hn).simple hK).2, processAction,
    if_pos hrecord]
  rfl

/-- **One call of `action_exec`** keeps the state that of the keys down, for any
plain key in play. -/
theorem Typed.exec (hlen : codes.length ≤ 6) (hdown : ∀ k, down k = true → InPlay K codes k) :
    Typed K (actionExec K inp s) (downAfter down [inp.event]) := by
  have hidle := (actionExec_idle h.idle h.board.noLayer fun hn => (hkey hn).simple hK).1
  have hread := h.inv_boardAt inp
  cases hn : inp.event.isNoEvent with
  | true =>
    rw [downAfter_tick hn]
    refine ⟨hidle, ?_, ?_⟩ <;> rw [h.exec_tick hK hkey hn]
    · exact hread
    · exact h.still
  | false =>
    have hundisturbed : Undisturbed K (boardAt inp s down, strokeOf inp s hn) :=
      undisturbed_of_inPlay hK hlen hdown (hkey hn)
    have hsimple : (K 0 (strokeOf inp s hn).key).Simple := (hkey hn).simple hK
    rw [downAfter_single (K := K) (s := s) hn]
    refine ⟨hidle, ?_, ?_⟩ <;> rw [h.exec_real hK hkey hn]
    · exact hread.step hsimple hundisturbed
    · rw [mouse_step hread hsimple]
      exact h.still

end Exec

end Event

/-! ## One turn -/

section Turns

variable {K : Keymap} {s : Tapping} {down : KeyPos → Bool}

theorem downAfter_cons (down : KeyPos → Bool) (e : KeyEvent) (events : List KeyEvent) :
    downAfter down (e :: events) = downAfter (downAfter down [e]) events := rfl

/-- Every event's key is in play, so the keys that are down stay in play. -/
theorem inPlay_downAfter {codes : List (BitVec 8)} {e : KeyEvent}
    (hdown : ∀ k, down k = true → InPlay K codes k)
    (hkey : e.isNoEvent = false → InPlay K codes e.key) :
    ∀ k, downAfter down [e] k = true → InPlay K codes k := by
  intro k hk
  simp only [downAfter, List.foldl_cons, List.foldl_nil] at hk
  split at hk
  · next hreal =>
    simp only [Bool.and_eq_true, Bool.not_eq_true', decide_eq_true_eq] at hreal
    rw [hreal.2]
    exact hkey hreal.1
  · exact hdown k hk

/-- The calls of `action_exec` for events of keys that have no more than six
codes together with those that are down. -/
theorem Typed.run (hK : PlainKeys K) {codes : List (BitVec 8)} (hlen : codes.length ≤ 6)
    (inputs : List Input) (h : Typed K s down) (hdown : ∀ k, down k = true → InPlay K codes k)
    (hkeys : ∀ inp ∈ inputs, inp.event.isNoEvent = false → InPlay K codes inp.event.key) :
    Typed K (Tmk.run K inputs s) (downAfter down (inputs.map (·.event))) := by
  induction inputs generalizing s down with
  | nil => exact h
  | cons inp inputs ih =>
    have hfirst := hkeys inp List.mem_cons_self
    rw [run_cons, List.map_cons, downAfter_cons]
    exact ih (h.exec hK hfirst hlen hdown) (inPlay_downAfter hdown hfirst) fun inp' hinp' =>
      hkeys inp' (List.mem_cons_of_mem _ hinp')

/-- The calls of a turn carry its events, in order. -/
theorem map_inputs (turn : Turn) (events : List KeyEvent) (h : ∀ e ∈ events, e.WellFormed) :
    (turn.inputs events h).map (·.event) = events := by
  rw [Turn.inputs, List.map_pmap, List.pmap_eq_map, List.map_id']

/-- The mouse is still, so `mousekey_task` sends nothing. -/
theorem Typed.mousekeyTask (h : Typed K s down) (turn : Turn) :
    Typed K (Keyboard.mousekeyTask turn s) down := by
  have hread := inv_readings h.board turn.mouseTimer s.act.leds
  have hdue : s.act.mouse.due turn.mouseTimer = false := by simp [MouseKey.due, h.still]
  have hact : (Keyboard.mousekeyTask turn s).act = { s.act with timer := turn.mouseTimer } := by
    simp [Keyboard.mousekeyTask, ActionState.mousekeyTask, hdue]
  refine ⟨h.idle, ?_, ?_⟩
  · rw [hact]
    exact hread
  · rw [hact]
    exact h.still

/-- A real event of a call is of a key that is down before or after it. -/
theorem down_of_mem_keyboardTask (inp : TaskInput) {prev : Rows} (hprev : InCols prev)
    {e : KeyEvent} (he : e ∈ (keyboardTask false prev inp).2) (hreal : e.isNoEvent = false) :
    (∃ r c, e.key = keyAt r c) ∧ (downIn prev e.key = true ∨ downIn inp.matrix e.key = true) := by
  rw [keyboardTask_snd inp hprev, List.mem_append, List.mem_flatMap, List.mem_singleton] at he
  rcases he with ⟨r, -, hr⟩ | rfl
  · rw [rowEvents, if_neg (fun h : Ghosted false inp.matrix r => Bool.false_ne_true h.1)] at hr
    obtain ⟨c, hc, rfl⟩ := List.mem_map.mp hr
    have hchanged := (List.mem_filter.mp hc).2
    refine ⟨⟨r, c, rfl⟩, ?_⟩
    rw [show (keyEvent inp r c).key = keyAt r c from rfl, downIn_keyAt, downIn_keyAt]
    rw [changed, bne_iff_ne] at hchanged
    cases hbit : (prev r).getLsbD c.val with
    | true => exact .inl rfl
    | false => exact .inr (Bool.ne_false_iff.mp (hbit ▸ hchanged))
  · simp [KeyEvent.isNoEvent, KeyEvent.tick] at hreal

theorem matrixPrev_task {debounce : BitVec 8} (kb : Keyboard) (turn : Turn) :
    (kb.task debounce K turn).matrixPrev = (kb.taskInput debounce turn).matrix :=
  keyboardTask_prev (kb.taskInput debounce turn) kb.prevInCols

/-- The calls of `action_exec` in one turn. -/
def Keyboard.calls (debounce : BitVec 8) (kb : Keyboard) (turn : Turn) : List Input :=
  turn.inputs (kb.events debounce turn) (kb.events_wellFormed debounce turn)

section Calls

variable {debounce : BitVec 8} {kb : Keyboard} {turn : Turn}

theorem mem_events {inp : Input} (hinp : inp ∈ kb.calls debounce turn) :
    inp.event ∈ kb.events debounce turn := by
  rw [← map_inputs turn _ (kb.events_wellFormed debounce turn)]
  exact List.mem_map_of_mem hinp

/-- After the calls of a turn the keys down are those of the matrix it scanned. -/
theorem downAfter_calls :
    downAfter (downIn kb.matrixPrev) ((kb.calls debounce turn).map (·.event)) =
    downIn (kb.taskInput debounce turn).matrix := by
  rw [Keyboard.calls, map_inputs]
  exact downAfter_keyboardTask (kb.taskInput debounce turn) kb.prevInCols

variable {codes : List (BitVec 8)} (hcodes : ∀ k c, downIn kb.matrixPrev k = true ∨
  downIn (kb.taskInput debounce turn).matrix k = true → (K 0 k).Contributes (.code c) → c ∈ codes)

include hcodes

/-- The keys down before a turn are in play. -/
theorem inPlay_matrixPrev : ∀ k, downIn kb.matrixPrev k = true → InPlay K codes k := by
  intro k hk
  obtain ⟨r, c, hkey, -⟩ := downIn_iff.mp hk
  exact ⟨⟨r, c, hkey⟩, fun c => hcodes k c (.inl hk)⟩

/-- The keys that a turn presses or releases are in play. -/
theorem inPlay_calls : ∀ inp ∈ kb.calls debounce turn, inp.event.isNoEvent = false →
    InPlay K codes inp.event.key := by
  intro inp hinp hreal
  obtain ⟨hpos, hdown⟩ := down_of_mem_keyboardTask (kb.taskInput debounce turn) kb.prevInCols
    (mem_events hinp) hreal
  exact ⟨hpos, fun c => hcodes _ c hdown⟩

end Calls

/-- **One turn of `keyboard_task`** keeps the state that of the matrix, with at
most six codes in the two matrices together. -/
theorem Typed.task {debounce : BitVec 8} (hK : PlainKeys K) {kb : Keyboard} {turn : Turn}
    (h : Typed K kb.tapping (downIn kb.matrixPrev))
    (hsix : AtMostSix K kb.matrixPrev (kb.taskInput debounce turn).matrix) :
    Typed K (kb.task debounce K turn).tapping (downIn (kb.task debounce K turn).matrixPrev) := by
  obtain ⟨codes, hlen, hcodes⟩ := hsix
  rw [matrixPrev_task, ← downAfter_calls]
  exact (h.run hK hlen _ (inPlay_matrixPrev hcodes) (inPlay_calls hcodes)).mousekeyTask turn

end Turns

/-! ## Runs -/

section Runs

variable {K : Keymap} {debounce protocol : BitVec 8} {nkro : Bool}

open Keyboard

theorem turns_concat (history : List Turn) (turn : Turn) :
    turns debounce K protocol nkro (history ++ [turn]) =
      (turns debounce K protocol nkro history).task debounce K turn := by
  simp [turns]

/-- The scans of a history are those of its pins. -/
theorem scan_turns (history : List Turn) : (turns debounce K protocol nkro history).scan =
    scans debounce (history.map (·.pins)) := by
  induction history using List.reverseRecOn with
  | nil => rfl
  | append_singleton history turn ih =>
    rw [turns_concat, scan_task, ih, List.map_append, List.map_singleton, scans_concat]

/-- After a history `matrix_prev` is the debounced matrix of its pins. -/
theorem matrixPrev_turns (K : Keymap) (protocol : BitVec 8) (nkro : Bool) (history : List Turn) :
    (turns debounce K protocol nkro history).matrixPrev =
      (scans debounce (history.map (·.pins))).matrix := by
  induction history using List.reverseRecOn with
  | nil => rfl
  | append_singleton history turn _ =>
    rw [turns_concat, matrixPrev_task, matrix_taskInput, scan_turns, List.map_append,
      List.map_singleton, scans_concat]

/-- Nothing is down when the keyboard starts. -/
theorem typed_start : Typed K (start debounce protocol nkro).tapping (downIn fun _ => 0) := by
  refine ⟨⟨rfl, rfl⟩, ?_, rfl⟩
  have hup : (downIn fun _ => 0) = fun _ => false := by
    funext k
    simp [downIn]
  rw [hup]
  exact Board.inv_start K protocol nkro

/-- No two consecutive debounced matrices have more than six codes. -/
def SixAlong (debounce : BitVec 8) (K : Keymap) (history : List Turn) : Prop :=
  ∀ past turn, past ++ [turn] <+: history →
    AtMostSix K (scans debounce (past.map (·.pins))).matrix
      (scans debounce ((past ++ [turn]).map (·.pins))).matrix

/-- A history with at most six codes has them at each earlier turn. -/
theorem SixAlong.past {history : List Turn} {turn : Turn}
    (h : SixAlong debounce K (history ++ [turn])) : SixAlong debounce K history :=
  fun past turn' hpast => h past turn' (hpast.trans (List.prefix_append _ _))

/-- A history with at most six codes has them at its last turn. -/
theorem SixAlong.last {history : List Turn} {turn : Turn}
    (h : SixAlong debounce K (history ++ [turn])) :
    AtMostSix K (turns debounce K protocol nkro history).matrixPrev
      ((turns debounce K protocol nkro history).taskInput debounce turn).matrix := by
  have hlast := h history turn List.prefix_rfl
  rw [List.map_append, List.map_singleton, scans_concat] at hlast
  rwa [matrixPrev_turns, matrix_taskInput, scan_turns]

/-- **Every turn.** Between two turns the host sees what the keys of the
debounced matrix contribute. -/
theorem typed_turns (protocol : BitVec 8) (nkro : Bool) (hK : PlainKeys K) (history : List Turn)
    (hsix : SixAlong debounce K history) :
    Typed K (turns debounce K protocol nkro history).tapping
      (downIn (scans debounce (history.map (·.pins))).matrix) := by
  induction history using List.reverseRecOn with
  | nil => exact typed_start
  | append_singleton history turn ih =>
    have hbefore := ih hsix.past
    rw [← matrixPrev_turns K protocol nkro] at hbefore ⊢
    rw [turns_concat]
    exact hbefore.task hK hsix.last

/-- **From the pins to the host.** On a keymap of plain keys, after any
history of scans in which no two consecutive matrices have more than six
codes, the host sees what the keys contribute that the last `DEBOUNCE`
scans have found down: all of it and nothing else. -/
theorem typing_faithful (hK : PlainKeys K) (hdebounce : debounce ≠ 0) (history : List Turn)
    (hsix : SixAlong debounce K history)
    {rows : Rows} (hstable : StableFor debounce.toNat (history.map (snapshot ·.pins)) rows) :
    (Board.mk (turns debounce K protocol nkro history).tapping.act (downIn rows)).Faithful K := by
  have hpos : 0 < debounce.toNat := by
    have hne : debounce.toNat ≠ 0 := fun h => hdebounce (BitVec.eq_of_toNat_eq (by simpa using h))
    omega
  have hmatrix : (scans debounce (history.map (·.pins))).matrix = rows := by
    rw [scans_matrix, List.map_map]
    exact Debouncer.out_of_stable hpos _ hstable
  have htyped := typed_turns protocol nkro hK history hsix
  rw [hmatrix] at htyped
  exact htyped.board.faithful

end Runs

/-- Shift and two letters. -/
def sampleCodes (r : Fin matrixRows) (c : Fin matrixCols) : BitVec 8 :=
  if r.val = 0 then
    match c.val with
    | 0 => 0xE1
    | 1 => 0x04
    | 2 => 0x05
    | _ => kcNo
  else kcNo

/-- Shift and a letter, held through five scans. -/
def shiftedLetter : Turn where
  pins r c := r.val = 0 && c.val < 2
  eventTimer _ := 7
  timer _ := 7
  leds _ := 0
  mouseTimer := 7

theorem plainKeys_sample : PlainKeys (codeKeymap sampleCodes) :=
  plainKeys_of_codes sampleCodes (codeKeymap_keyAt sampleCodes 0) (by decide +kernel)
    (by decide +kernel)

/-- The sample matrix has only two codes, so every history of it is within six. -/
theorem sixAlong_sample (debounce : BitVec 8) (history : List Turn) :
    SixAlong debounce (codeKeymap sampleCodes) history := by
  intro past turn hpast
  refine ⟨[0x04, 0x05], by decide, fun k c hdown hcontr => ?_⟩
  have hkey : ∃ r c, k = keyAt r c := by
    rcases hdown with h | h <;> obtain ⟨r, c, hk, -⟩ := downIn_iff.mp h <;> exact ⟨r, c, hk⟩
  obtain ⟨r, c', rfl⟩ := hkey
  rw [codeKeymap_keyAt, contributes_keyAction] at hcontr
  have hcode : ∀ r c', sampleCodes r c' = kcNo ∨ sampleCodes r c' = 0xE1 ∨
      sampleCodes r c' ∈ [0x04#8, 0x05] ∧ Ordinary (sampleCodes r c') := by decide +kernel
  rcases hcode r c' with h | h | ⟨hmem, hord⟩
  · simp [h, codeSlots] at hcontr
  · have hslot := codeSlots_ordinary (h ▸ (by decide : Ordinary 0xE1)) hcontr
    rw [h, show ordinarySlot 0xE1 = .mod 1 by decide] at hslot
    simp at hslot
  · have hslot := codeSlots_ordinary hord hcontr
    have hall : ∀ code ∈ [0x04#8, 0x05], ordinarySlot code = .code code := by decide
    rw [hall _ hmem] at hslot
    rwa [Slot.code.inj hslot]

/-- Shift and a letter, held through `DEBOUNCE` scans. -/
theorem typing_shiftedLetter :
    (Board.mk (Keyboard.turns 5 (codeKeymap sampleCodes) 1 false
      (List.replicate 5 shiftedLetter)).tapping.act (downIn (snapshot shiftedLetter.pins))).Faithful
        (codeKeymap sampleCodes) := by
  refine typing_faithful plainKeys_sample (by decide) _ (sixAlong_sample _ _) ?_
  rw [List.map_replicate]
  exact List.suffix_rfl

end Ch583Kbd.Firmware
