/-
Ch583Kbd.Firmware.TypingReports — the reports within a turn.

`typing_faithful` says what the host sees between two turns. A turn with several
events sends several reports, and an event with a modifier and a code more
than one. `reports_between`: each of them shows what the keys contribute
that are down before and after the turn, and nothing but what keys
contribute that are down before or after it. So a held key never flickers
and a key that is not pressed never appears.
-/
import Ch583Kbd.Firmware.Typing

namespace Ch583Kbd.Firmware

open Ch583Kbd.Tmk Ch583Kbd.Drivers Ch583Kbd.Eeprom Ch583Kbd.Lib TappingState
open ActionState (Settled Room)

/-! ## Reports that are sent from one state to another -/

/-- The keyboard reports sent between the states meet `ok`. -/
structure Reports (ok : Vector (BitVec 8) keyboardReportSize → Prop)
    (s s' : ActionState) : Prop where
  grows : s.sent <+: s'.sent
  new : ∀ raw, .keyboard raw ∈ s'.sent.drop s.sent.length → ok raw
  nkroActive : s'.nkroActive = s.nkroActive

namespace Reports

variable {ok : Vector (BitVec 8) keyboardReportSize → Prop} {s s' s'' : ActionState}

theorem of_eq (h : s'.sent = s.sent) (hn : s'.nkroActive = s.nkroActive) : Reports ok s s' where
  grows := h ▸ List.prefix_rfl
  new raw hraw := by simp [h] at hraw
  nkroActive := hn

theorem trans (h : Reports ok s s') (h' : Reports ok s' s'') : Reports ok s s'' where
  grows := h.grows.trans h'.grows
  new raw hraw := by
    obtain ⟨new, hnew⟩ := h.grows
    obtain ⟨new', hnew'⟩ := h'.grows
    rw [← hnew', ← hnew, List.append_assoc, List.drop_left, List.mem_append] at hraw
    rcases hraw with hraw | hraw
    · exact h.new raw (by rwa [← hnew, List.drop_left])
    · exact h'.new raw (by rwa [← hnew', List.drop_left])
  nkroActive := h'.nkroActive.trans h.nkroActive

end Reports

/-- A basic step only appends to the reports that were sent. -/
theorem sent_apply {step : ActionStep} (hb : step.Basic) (s : ActionState) :
    s.sent <+: (step.apply s).sent := by
  have hsend : ∀ {s' : ActionState}, s'.sent = s.sent → s.sent <+: s'.sendKeyboardReport.sent := by
    intro s' hs'
    rw [ActionState.sendKeyboardReport_sent, hs']
    exact List.prefix_append _ _
  cases step with
  | addMods m | delMods m | addWeakMods m | delWeakMods m => exact hsend rfl
  | registerKey c | relockKey c | delKey c => exact hsend rfl
  | system u =>
    simp [ActionStep.apply, ActionStep.reports, ActionStep.update, ActionState.hostSystemSend_eq]
  | consumer u =>
    simp [ActionStep.apply, ActionStep.reports, ActionStep.update, ActionState.hostConsumerSend_eq]
  | _ => exact hb.elim

/-- The steps of an event show slots of `P` only, if `P` has all slots that
are taken before and all that a step fills. -/
theorem reports_within {P : Slot → Prop} {codes : List (BitVec 8)} {steps : List ActionStep}
    {s : ActionState} (hsteps : Steps codes steps) (hs : Settled s) (hroom : Room codes s)
    (hP : ∀ x, s.Holds x → P x) (hfills : ∀ step ∈ steps, ∀ x, step.Fills x → P x) :
    Reports (fun raw => ∀ m, (HostReport.keyboard raw).Shows s.nkroActive m →
      ∃ x, P x ∧ x.mark = some m) s (runSteps steps s) := by
  induction steps generalizing s with
  | nil => exact .of_eq rfl rfl
  | cons step steps ih =>
    have hone : Steps codes [step] := fun step' h =>
      hsteps step' (List.mem_singleton.mp h ▸ List.mem_cons_self)
    obtain ⟨hb, hk, -⟩ := hsteps step List.mem_cons_self
    have hnext := ActionStep.settled_apply hb hk hs
    have hholds := holds_apply hone hs hroom
    have hn := step.apply_nkroActive s
    have hPnext : ∀ x, (step.apply s).Holds x → P x := by
      intro x hx
      rw [hholds] at hx
      rcases hx with hx | ⟨hx, -⟩
      · exact hfills step List.mem_cons_self x hx
      · exact hP x hx
    have hrest := ih (fun step' h => hsteps step' (List.mem_cons_of_mem _ h)) hnext
      (room_apply hone hs hroom) hPnext fun step' h => hfills step' (List.mem_cons_of_mem _ h)
    rw [hn] at hrest
    refine Reports.trans ⟨sent_apply hb s, fun raw hraw m hm => ?_, hn⟩ hrest
    rcases keyboard_apply hb hraw with hold | rfl
    · simp at hold
    · rw [← hn, shows_iff hnext] at hm
      obtain ⟨x, hx, hmark⟩ := hm
      exact ⟨x, hPnext x hx, hmark⟩

/-! ## One event -/

/-- The report shows what the held keys contribute, and nothing that no
key in play does. -/
structure Between (K : Keymap) (nkroActive : Bool) (held inPlay : KeyPos → Prop)
    (raw : Vector (BitVec 8) keyboardReportSize) : Prop where
  held : ∀ k, held k → ∀ x m, (K 0 k).Contributes x → x.mark = some m →
    (HostReport.keyboard raw).Shows nkroActive m
  inPlay : ∀ m, (HostReport.keyboard raw).Shows nkroActive m →
    ∃ k x, inPlay k ∧ (K 0 k).Contributes x ∧ x.mark = some m

theorem Between.mono {K : Keymap} {nkroActive : Bool} {held held' inPlay inPlay' : KeyPos → Prop}
    {raw : Vector (BitVec 8) keyboardReportSize} (h : Between K nkroActive held inPlay raw)
    (hheld : ∀ k, held' k → held k) (hplay : ∀ k, inPlay k → inPlay' k) :
    Between K nkroActive held' inPlay' raw where
  held k hk := h.held k (hheld k hk)
  inPlay m hm := by
    obtain ⟨k, x, hk, hx⟩ := h.inPlay m hm
    exact ⟨k, x, hplay k hk, hx⟩

theorem Reports.mono {ok ok' : Vector (BitVec 8) keyboardReportSize → Prop} {s s' : ActionState}
    (h : Reports ok s s') (hok : ∀ raw, ok raw → ok' raw) : Reports ok' s s' where
  grows := h.grows
  new raw hraw := hok raw (h.new raw hraw)
  nkroActive := h.nkroActive

section Event

variable {K : Keymap} {codes : List (BitVec 8)}

/-- Every report of one stroke has the other keys down in it and no code that is
not in play. -/
theorem reports_step (hK : PlainKeys K) (hlen : codes.length ≤ 6) {b : Board} {x : Stroke}
    (h : Board.Inv K b) (hdown : ∀ k, b.down k = true → InPlay K codes k)
    (hkey : InPlay K codes x.key) :
    Reports (Between K b.act.nkroActive (fun k => k ≠ x.key ∧ b.down k = true)
      fun k => b.down k = true ∨ k = x.key) b.act (b.step K x).act := by
  have hsimple := hkey.simple hK
  have hundisturbed : Undisturbed K (b, x) := undisturbed_of_inPlay hK hlen hdown hkey
  have hkept := h.kept hsimple hundisturbed
  obtain ⟨hsettled, -, -, hholds⟩ := h.before x
  obtain ⟨codes', hroom, hsteps⟩ := Board.Undisturbed.steps h hsimple hundisturbed
  obtain ⟨f, hf⟩ := Board.before_eq K b x
  have hsent : (b.before K x).sent = b.act.sent := by rw [hf]
  have hn : (b.before K x).nkroActive = b.act.nkroActive := by
    rw [hf]
    rfl
  have hwithin := reports_within (P := fun y => ∃ k, (b.down k = true ∨ k = x.key) ∧
    (K 0 k).Contributes y) hsteps hsettled hroom ?_ ?_
  · rw [← Board.step_act h.noLayer x, hn] at hwithin
    refine ⟨hsent ▸ hwithin.grows, fun raw hraw => ⟨?_, fun m hm => ?_⟩,
      hwithin.nkroActive.trans hn⟩
    · intro k hk y m hy hm
      exact hkept raw hraw k hk.1 hk.2 y m hy hm
    · obtain ⟨y, ⟨k, hk, hy⟩, hmark⟩ := hwithin.new raw (by rwa [hsent]) m hm
      exact ⟨k, y, hk, hy, hmark⟩
  · intro y hy
    rw [hholds] at hy
    obtain ⟨k, hk, hcontr⟩ := (h.holds y).mp hy
    exact ⟨k, .inl hk, hcontr⟩
  · intro step hstep y hy
    have hconf := Action.confined_performSteps (b.before K x) x.pressed x.record.tap
      hsimple step hstep
    rcases hconf.fills y hy with hcontr | hclob
    · exact ⟨x.key, .inr rfl, hcontr⟩
    · obtain ⟨⟨r, c, hrc⟩, -⟩ := hkey
      rw [hrc] at hclob
      exact absurd hclob (hK.noClobbers r c _ _ y)

end Event

/-! ## One turn -/

section Turns

variable {K : Keymap} {codes : List (BitVec 8)} {s : Tapping} {down : KeyPos → Bool}
variable {held inPlay : KeyPos → Prop}

/-- One call of `action_exec`, for keys `held` that the event is not about. -/
theorem reports_exec (hK : PlainKeys K) (hlen : codes.length ≤ 6) {inp : Input}
    (h : Typed K s down) (hdown : ∀ k, down k = true → InPlay K codes k)
    (hkey : inp.event.isNoEvent = false → InPlay K codes inp.event.key)
    (hheld : ∀ k, held k → down k = true ∧ (inp.event.isNoEvent = false → k ≠ inp.event.key))
    (hplay : ∀ k, down k = true ∨ inp.event.isNoEvent = false ∧ k = inp.event.key → inPlay k) :
    Reports (Between K s.act.nkroActive held inPlay) s.act (actionExec K inp s).act := by
  cases hn : inp.event.isNoEvent with
  | true =>
    rw [h.exec_tick hK hkey hn]
    exact .of_eq rfl rfl
  | false =>
    have hstep := reports_step hK hlen (x := strokeOf inp s hn) (h.inv_boardAt inp) hdown (hkey hn)
    rw [h.exec_real hK hkey hn]
    have hboard : Reports (Between K s.act.nkroActive held inPlay) s.act (boardAt inp s down).act :=
      .of_eq rfl rfl
    refine hboard.trans (hstep.mono fun raw hraw => ?_)
    exact hraw.mono (fun k hk => ⟨(hheld k hk).2 hn, (hheld k hk).1⟩) fun k hk =>
      hplay k (hk.imp_right fun hkey => ⟨hn, hkey⟩)

/-- The calls of a turn, for keys `held` that no event is about. -/
theorem reports_run (hK : PlainKeys K) (hlen : codes.length ≤ 6) (inputs : List Input)
    (h : Typed K s down) (hdown : ∀ k, down k = true → InPlay K codes k)
    (hkeys : ∀ inp ∈ inputs, inp.event.isNoEvent = false → InPlay K codes inp.event.key)
    (hheld : ∀ k, held k → down k = true ∧
      ∀ inp ∈ inputs, inp.event.isNoEvent = false → k ≠ inp.event.key)
    (hplay : ∀ k, down k = true → inPlay k)
    (hplays : ∀ inp ∈ inputs, inp.event.isNoEvent = false → inPlay inp.event.key) :
    Reports (Between K s.act.nkroActive held inPlay) s.act (Tmk.run K inputs s).act := by
  induction inputs generalizing s down with
  | nil => exact .of_eq rfl rfl
  | cons inp inputs ih =>
    have hfirst := hkeys inp List.mem_cons_self
    have hplay' : ∀ k, down k = true ∨ inp.event.isNoEvent = false ∧ k = inp.event.key →
        inPlay k := by
      rintro k (hk | ⟨hreal, rfl⟩)
      · exact hplay k hk
      · exact hplays inp List.mem_cons_self hreal
    have hexec := reports_exec hK hlen h hdown hfirst
      (fun k hk => ⟨(hheld k hk).1, (hheld k hk).2 inp List.mem_cons_self⟩) hplay'
    have hrest := ih (h.exec hK hfirst hlen hdown) (inPlay_downAfter hdown hfirst)
      (fun inp' hinp' => hkeys inp' (List.mem_cons_of_mem _ hinp')) ?_ ?_
      fun inp' hinp' => hplays inp' (List.mem_cons_of_mem _ hinp')
    · rw [hexec.nkroActive] at hrest
      exact hexec.trans hrest
    · intro k hk
      obtain ⟨hkdown, hne⟩ := hheld k hk
      refine ⟨?_, fun inp' hinp' => hne inp' (List.mem_cons_of_mem _ hinp')⟩
      simp only [downAfter, List.foldl_cons, List.foldl_nil]
      rw [if_neg, hkdown]
      simp only [Bool.and_eq_true, Bool.not_eq_true', decide_eq_true_eq, not_and]
      exact hne inp List.mem_cons_self
    · intro k hk
      simp only [downAfter, List.foldl_cons, List.foldl_nil] at hk
      split at hk
      · next hreal =>
        simp only [Bool.and_eq_true, Bool.not_eq_true', decide_eq_true_eq] at hreal
        exact hplay' k (.inr hreal)
      · exact hplay k hk

/-- A key whose bit stays the same has no event in the turn. -/
theorem ne_of_mem_keyboardTask (inp : TaskInput) {prev : Rows} (hprev : InCols prev) {e : KeyEvent}
    (he : e ∈ (keyboardTask false prev inp).2) (hreal : e.isNoEvent = false) {k : KeyPos}
    (hsame : downIn prev k = downIn inp.matrix k) : k ≠ e.key := by
  rintro rfl
  obtain ⟨⟨r, c, hkey⟩, -⟩ := down_of_mem_keyboardTask inp hprev he hreal
  rw [hkey, downIn_keyAt, downIn_keyAt] at hsame
  have hnone : edges r c (keyboardTask false prev inp).2 = [] := by
    rw [edges_keyboardTask inp hprev, edgesOf_of_not_ghosted fun h => Bool.false_ne_true h.1, hsame]
    exact if_neg (not_not.mpr rfl)
  rw [edges, List.map_eq_nil_iff, List.filter_eq_nil_iff] at hnone
  exact hnone e he (decide_eq_true hkey)

/-- `mousekey_task` sends no keyboard report. -/
theorem reports_mousekeyTask (h : Typed K s down) (turn : Turn)
    {ok : Vector (BitVec 8) keyboardReportSize → Prop} :
    Reports ok s.act (Keyboard.mousekeyTask turn s).act := by
  have hdue : s.act.mouse.due turn.mouseTimer = false := by simp [MouseKey.due, h.still]
  have hact : (Keyboard.mousekeyTask turn s).act = { s.act with timer := turn.mouseTimer } := by
    simp [Keyboard.mousekeyTask, ActionState.mousekeyTask, hdue]
  rw [hact]
  exact .of_eq rfl rfl

/-- Every report of **one turn** lies between the keys down throughout it and
those down before or after. -/
theorem reports_task {debounce : BitVec 8} (hK : PlainKeys K) {kb : Keyboard} {turn : Turn}
    (h : Typed K kb.tapping (downIn kb.matrixPrev))
    (hsix : AtMostSix K kb.matrixPrev (kb.taskInput debounce turn).matrix) :
    Reports (Between K kb.tapping.act.nkroActive
      (fun k => downIn kb.matrixPrev k = true ∧ downIn (kb.taskInput debounce turn).matrix k = true)
      fun k => downIn kb.matrixPrev k = true ∨ downIn (kb.taskInput debounce turn).matrix k = true)
      kb.tapping.act (kb.task debounce K turn).tapping.act := by
  obtain ⟨codes, hlen, hcodes⟩ := hsix
  have hrun := h.run hK hlen (kb.calls debounce turn) (inPlay_matrixPrev hcodes)
    (inPlay_calls hcodes)
  refine Reports.trans (reports_run hK hlen (kb.calls debounce turn) h (inPlay_matrixPrev hcodes)
    (inPlay_calls hcodes) (fun k hk => ⟨hk.1, fun inp hinp hreal => ?_⟩) (fun k => .inl)
    fun inp hinp hreal => ?_) (reports_mousekeyTask hrun turn)
  · exact ne_of_mem_keyboardTask (kb.taskInput debounce turn) kb.prevInCols (mem_events hinp) hreal
      (hk.1.trans hk.2.symm)
  · exact (down_of_mem_keyboardTask (kb.taskInput debounce turn) kb.prevInCols (mem_events hinp)
      hreal).2

end Turns

/-! ## Runs -/

section Runs

variable {K : Keymap} {debounce protocol : BitVec 8} {nkro : Bool}

/-- After a history the state is that of the keys down in `matrix_prev`. -/
theorem typed_matrixPrev (protocol : BitVec 8) (nkro : Bool) (hK : PlainKeys K)
    {history : List Turn} (hsix : SixAlong debounce K history) :
    Typed K (Keyboard.turns debounce K protocol nkro history).tapping
      (downIn (Keyboard.turns debounce K protocol nkro history).matrixPrev) := by
  rw [matrixPrev_turns]
  exact typed_turns protocol nkro hK history hsix

/-- No history changes the protocol of power-up. -/
theorem nkroActive_turns (hK : PlainKeys K) {history : List Turn}
    (hsix : SixAlong debounce K history) :
    (Keyboard.turns debounce K protocol nkro history).tapping.act.nkroActive =
      (startState protocol nkro).nkroActive := by
  induction history using List.reverseRecOn with
  | nil => rfl
  | append_singleton history turn ih =>
    rw [turns_concat, (reports_task hK (typed_matrixPrev protocol nkro hK hsix.past)
      hsix.last).nkroActive]
    exact ih hsix.past

/-- **No flicker, no phantom.** Every keyboard report of a turn shows what
the keys contribute that the debounced matrix has down before and after
it, and only what keys contribute that it has down before or after. -/
theorem reports_between (hK : PlainKeys K) {history : List Turn} {turn : Turn}
    (hsix : SixAlong debounce K (history ++ [turn]))
    {raw : Vector (BitVec 8) keyboardReportSize}
    (hraw : .keyboard raw ∈
      (Keyboard.turns debounce K protocol nkro (history ++ [turn])).tapping.act.sent.drop
        (Keyboard.turns debounce K protocol nkro history).tapping.act.sent.length) :
    let before := (scans debounce (history.map (·.pins))).matrix
    let after := (scans debounce ((history ++ [turn]).map (·.pins))).matrix
    Between K (startState protocol nkro).nkroActive
      (fun k => downIn before k = true ∧ downIn after k = true)
      (fun k => downIn before k = true ∨ downIn after k = true) raw := by
  intro before after
  have hreports := reports_task hK (typed_matrixPrev protocol nkro hK hsix.past) hsix.last
  have hafter : ((Keyboard.turns debounce K protocol nkro history).taskInput debounce turn).matrix =
      after := by
    simp only [after, Keyboard.matrix_taskInput, scan_turns, List.map_append, List.map_singleton,
      scans_concat]
  rw [matrixPrev_turns, hafter, nkroActive_turns hK hsix.past] at hreports
  rw [turns_concat] at hraw
  exact hreports.new raw hraw

end Runs

/-- The second report when shift and a letter come down together. -/
theorem reports_between_shiftedLetter :
    let raw := ((Vector.replicate keyboardReportSize 0#8).set 0 2).set 2 4
    let before := (scans 5 ((List.replicate 4 shiftedLetter).map (·.pins))).matrix
    let after := (scans 5 ((List.replicate 4 shiftedLetter ++ [shiftedLetter]).map (·.pins))).matrix
    Between (codeKeymap sampleCodes) (startState 1 false).nkroActive
      (fun k => downIn before k = true ∧ downIn after k = true)
      (fun k => downIn before k = true ∨ downIn after k = true) raw :=
  reports_between plainKeys_sample (sixAlong_sample 5 _) (by decide +kernel)

end Ch583Kbd.Firmware
