/-
Ch583Kbd.Tmk.ReportSlots — the places that held keys share.

The modifiers, the key codes and the usages are merged into single bits and
slots. A `Slot` is one such place; each step of `ACT_LMODS`, `ACT_RMODS` and
`ACT_USAGE` fills some and empties some (`runSteps_holds`), as long as there
is room for the codes. Every keyboard report shows the slots that are taken
when it is sent (`shows_iff`).

The two modifier stores are told apart: a modifier key and a modified key
do not get in each other's way.
-/
import Ch583Kbd.Tmk.ClearKeyboard
import Ch583Kbd.Tmk.HeldKeys
import Ch583Kbd.Tmk.OneshotMods

namespace Ch583Kbd.Tmk

open Ch583Kbd.Lib HostReport

/-! ## Slots -/

inductive Slot where
  | mod (i : Nat)
  | weakMod (i : Nat)
  | code (code : BitVec 8)
  | system
  | consumer
  deriving DecidableEq

/-- The slot is taken. -/
def ActionState.Holds (s : ActionState) : Slot → Prop
  | .mod i => s.realMods.getLsbD i = true
  | .weakMod i => s.weakMods.getLsbD i = true
  | .code code => s.keyReport.ShowsCode s.nkroActive code
  | .system => s.lastSystemReport ≠ 0
  | .consumer => s.lastConsumerReport ≠ 0

def modSlots (mods : BitVec 8) : Slot → Prop
  | .mod i => mods.getLsbD i = true
  | _ => False

def weakModSlots (mods : BitVec 8) : Slot → Prop
  | .weakMod i => mods.getLsbD i = true
  | _ => False

namespace ActionStep

/-- What the step fills. -/
def Fills : ActionStep → Slot → Prop
  | addMods mods => modSlots mods
  | addWeakMods mods => weakModSlots mods
  | registerKey code | relockKey code => (· = .code code)
  | system usage => fun x => x = .system ∧ usage ≠ 0
  | consumer usage => fun x => x = .consumer ∧ usage ≠ 0
  | _ => fun _ => False

/-- What the step empties. -/
def Empties : ActionStep → Slot → Prop
  | delMods mods => modSlots mods
  | delWeakMods mods => weakModSlots mods
  | delKey code => (· = .code code)
  | system usage => fun x => x = .system ∧ usage = 0
  | consumer usage => fun x => x = .consumer ∧ usage = 0
  | _ => fun _ => False

/-- The steps of the actions looked at here. -/
def Basic : ActionStep → Prop
  | addMods _ | delMods _ | addWeakMods _ | delWeakMods _ => True
  | registerKey _ | relockKey _ | delKey _ | system _ | consumer _ => True
  | _ => False

/-- What is taken after the step. -/
def after (taken : Slot → Prop) (step : ActionStep) : Slot → Prop :=
  fun x => step.Fills x ∨ taken x ∧ ¬step.Empties x

end ActionStep

/-! ## One step -/

namespace ActionState

variable {s : ActionState}

/-- The state between two steps: the report is in order and the last one
that was sent. -/
structure Settled (s : ActionState) : Prop where
  ring : s.nkroActive = false → SixKro s
  oneshot : s.oneshotMods = 0
  report : lastReport keyboard? (Vector.replicate keyboardReportSize 0) s.sent = s.keyReport.raw
  mods : s.keyReport.byte 0 = s.realMods ||| s.weakMods

/-- At most six codes: those that are in the report and those to come. -/
def Room (codes : List (BitVec 8)) (s : ActionState) : Prop :=
  codes.length ≤ 6 ∧ ∀ c, s.Holds (.code c) → c ∈ codes

/-- In 6KRO mode the report shows the codes of the ring. -/
theorem showsCode_ring (hs : SixKro s) {xs : List (BitVec 8)} (h : KeyReport.Rep s.keyReport xs)
    (c : BitVec 8) : s.keyReport.ShowsCode s.nkroActive c ↔ c ≠ 0 ∧ c ∈ KeyReport.held xs := by
  rw [← on_code_iff h, KeyReport.ShowsCode, hs.nkro]
  simp only [Bool.false_eq_true, if_false]
  refine and_congr_right fun hc => ⟨?_, ?_⟩
  · rintro ⟨j, rfl⟩
    have hin : ¬(1 + j < 2 ∨ 8 ≤ 1 + j) := fun hj => hc (hs.outside (1 + j) (by omega) hj)
    exact ⟨j - 1, by omega, by rw [KeyReport.key, show 2 + (j - 1) = 1 + j by omega]; rfl⟩
  · rintro ⟨i, -, rfl⟩
    exact KeyReport.uses_key s.keyReport i

/-- A key is added without loss while there is room. -/
theorem holds_addKey (hs : Settled s) {codes : List (BitVec 8)} (hroom : Room codes s)
    {code : BitVec 8} (hin : code ∈ codes) (hc : isKey code = true) (c : BitVec 8) :
    (s.addKey code).Holds (.code c) ↔ c = code ∨ s.Holds (.code c) := by
  have hne := isKey_ne_zero hc
  cases hn : s.nkroActive with
  | true =>
    have hn' : (s.addKey code).nkroActive = true := hn
    have hadd : (s.addKey code).keyReport = s.keyReport.addKeyBit code := by
      simp [addKey, hn]
    simp only [Holds, KeyReport.ShowsCode, hn, hn', if_true]
    rw [hadd]
    exact KeyReport.hasBit_addKeyBit s.keyReport (KeyReport.bitsByte_lt hc) c
  | false =>
    have hsix := hs.ring hn
    obtain ⟨r', xs, xs', happly, hrep, hrep', hheld, hsix'⟩ := hsix.apply (.add ⟨code, hne⟩)
    have happly' : s.addKey code = { s with keyReport := r' } := happly
    have hshows := showsCode_ring hsix hrep
    have hshows' := showsCode_ring (s := s.addKey code) hsix' (by rw [happly']; exact hrep')
    have hfits : code ∈ KeyReport.held xs ∨ (KeyReport.held xs).length < 6 := by
      by_cases hold : code ∈ KeyReport.held xs
      · exact .inl hold
      · have hsub : code :: KeyReport.held xs ⊆ codes := by
          intro d hd
          rcases List.mem_cons.mp hd with rfl | hd
          · exact hin
          · have hd0 : d ≠ 0 := by simpa using List.of_mem_filter hd
            exact hroom.2 d ((hshows d).mpr ⟨hd0, hd⟩)
        have hlen := ((List.nodup_cons.mpr ⟨hold, hrep.nodup⟩).subperm hsub).length_le
        have hsix := hroom.1
        exact .inr (by simp only [List.length_cons] at hlen; omega)
    have hmem : c ∈ KeyReport.held xs' ↔ c = code ∨ c ∈ KeyReport.held xs := by
      rw [hheld]
      exact mem_recent_of_room hfits
    simp only [Holds]
    rw [hshows c, hshows' c, hmem]
    constructor
    · rintro ⟨h0, h | h⟩
      · exact .inl h
      · exact .inr ⟨h0, h⟩
    · rintro (rfl | ⟨h0, h⟩)
      · exact ⟨hne, .inl rfl⟩
      · exact ⟨h0, .inr h⟩

/-- `del_key` empties the slot of its code and no other. -/
theorem holds_delKey (hs : Settled s) {code : BitVec 8} (hc : isKey code = true) (c : BitVec 8) :
    (s.delKey code).Holds (.code c) ↔ s.Holds (.code c) ∧ c ≠ code := by
  have hne := isKey_ne_zero hc
  cases hn : s.nkroActive with
  | true =>
    have hn' : (s.delKey code).nkroActive = true := hn
    have hdel : (s.delKey code).keyReport = s.keyReport.delKeyBit code := by
      simp [delKey, hn]
    simp only [Holds, KeyReport.ShowsCode, hn, hn', if_true]
    rw [hdel, and_comm]
    exact KeyReport.hasBit_delKeyBit s.keyReport (KeyReport.bitsByte_lt hc) c
  | false =>
    have hsix := hs.ring hn
    obtain ⟨r', xs, xs', happly, hrep, hrep', hheld, hsix'⟩ := hsix.apply (.del ⟨code, hne⟩)
    have happly' : s.delKey code = { s with keyReport := r' } := happly
    have hshows := showsCode_ring hsix hrep
    have hshows' := showsCode_ring (s := s.delKey code) hsix' (by rw [happly']; exact hrep')
    have hmem : c ∈ KeyReport.held xs' ↔ c ≠ code ∧ c ∈ KeyReport.held xs := by
      rw [hheld]
      exact hrep.nodup.mem_erase_iff
    simp only [Holds]
    rw [hshows c, hshows' c, hmem]
    constructor
    · rintro ⟨h0, h, hin⟩
      exact ⟨⟨h0, hin⟩, h⟩
    · rintro ⟨⟨h0, hin⟩, h⟩
      exact ⟨h0, h, hin⟩

@[simp] theorem holds_sendKeyboardReport (x : Slot) : s.sendKeyboardReport.Holds x ↔ s.Holds x := by
  cases x with
  | code c => simp only [Holds, sendKeyboardReport_keyReport, sendKeyboardReport_nkroActive,
      KeyReport.showsCode_setMods]
  | _ => simp [Holds]

/-- What was just sent is the report that is there. -/
theorem Settled.sendKeyboardReport (hring : s.nkroActive = false → SixKro s)
    (hone : s.oneshotMods = 0) : Settled s.sendKeyboardReport where
  ring hn := removes_sendKeyboardReport.sixKro s (hring (by simpa using hn))
  oneshot := by rw [sendKeyboardReport_oneshotMods, hone, ite_self]
  report := by rw [sendKeyboardReport_sent, lastReport_keyboard, sendKeyboardReport_keyReport]
  mods := by
    rw [sendKeyboardReport_keyReport, KeyReport.byte_setMods_zero, reportMods, hone,
      sendKeyboardReport_realMods, sendKeyboardReport_weakMods]
    exact BitVec.or_zero

/-- At power-up the report that is there is the one the host has. -/
theorem settled_start (protocol : BitVec 8) (nkro : Bool) : Settled (startState protocol nkro) where
  ring hn := ⟨hn, ⟨_, KeyReport.rep_init⟩, fun j _ _ => raw_init j⟩
  oneshot := rfl
  report := rfl
  mods := (raw_init 0).trans (show (0 : BitVec 8) = 0 ||| 0 by decide)

end ActionState

namespace ActionStep

open ActionState

variable {s : ActionState} {codes : List (BitVec 8)}

/-- The ring after an update for which there is room. -/
theorem update_sixKro {step : ActionStep} (hb : step.Basic) (hk : step.Keyed) (hs : SixKro s) :
    SixKro (step.update s) := by
  cases step with
  | addMods m | delMods m | addWeakMods m | delWeakMods m => exact sixKro_of_report hs rfl rfl
  | registerKey c | relockKey c => exact (adds_addKey (isKey_ne_zero hk)).sixKro s hs
  | delKey c => exact (removes_delKey (isKey_ne_zero hk)).sixKro s hs
  | system u => exact (removes_hostSystemSend u).sixKro s hs
  | consumer u => exact (removes_hostConsumerSend u).sixKro s hs
  | _ => exact hb.elim

/-- A basic step leaves the host with the report that is there. -/
theorem settled_apply {step : ActionStep} (hb : step.Basic) (hk : step.Keyed) (hs : Settled s) :
    Settled (step.apply s) := by
  have hring : (step.update s).nkroActive = false → SixKro (step.update s) := by
    intro hn
    rw [update_nkroActive] at hn
    exact update_sixKro hb hk (hs.ring hn)
  have hkeyboard : step.setsOneshot = false → Settled (step.update s).sendKeyboardReport :=
    fun h => Settled.sendKeyboardReport hring ((update_oneshotMods s h).trans hs.oneshot)
  cases step with
  | addMods m | delMods m | addWeakMods m | delWeakMods m => exact hkeyboard rfl
  | registerKey c | relockKey c | delKey c => exact hkeyboard rfl
  | system u =>
    refine ⟨hring, ?_, ?_, ?_⟩
    all_goals simp only [apply, update, reports, hostSystemSend_eq, Bool.false_eq_true, if_false]
    · exact hs.oneshot
    · split
      · rw [List.append_nil]
        exact hs.report
      · rw [lastReport_other rfl]
        exact hs.report
    · exact hs.mods
  | consumer u =>
    refine ⟨hring, ?_, ?_, ?_⟩
    all_goals simp only [apply, update, reports, hostConsumerSend_eq, Bool.false_eq_true, if_false]
    · exact hs.oneshot
    · split
      · rw [List.append_nil]
        exact hs.report
      · rw [lastReport_other rfl]
        exact hs.report
    · exact hs.mods
  | _ => exact hb.elim

/-- A basic step fills and empties its slots, when the codes have room. -/
theorem holds_update {step : ActionStep} (hb : step.Basic) (hk : step.Keyed) (hs : Settled s)
    (hroom : Room codes s) (hin : ∀ c, step.Fills (.code c) → c ∈ codes) (x : Slot) :
    (step.update s).Holds x ↔ step.after s.Holds x := by
  cases step with
  | addMods m =>
    cases x <;> simp [update, Holds, ActionState.addMods, nkroActive, after, Fills, Empties,
      modSlots, or_comm]
  | addWeakMods m =>
    cases x <;> simp [update, Holds, ActionState.addWeakMods, nkroActive, after, Fills, Empties,
      weakModSlots, or_comm]
  | delMods m =>
    cases x <;> simp [update, Holds, ActionState.delMods, nkroActive, after, Fills, Empties,
      modSlots]
    exact fun h _ => BitVec.lt_of_getLsbD h
  | delWeakMods m =>
    cases x <;> simp [update, Holds, ActionState.delWeakMods, nkroActive, after, Fills, Empties,
      weakModSlots]
    exact fun h _ => BitVec.lt_of_getLsbD h
  | registerKey code | relockKey code =>
    have hcode := holds_addKey hs hroom (hin code rfl) hk
    cases x with
    | code c => simpa [update, after, Fills, Empties] using hcode c
    | _ => simp [update, Holds, addKey, after, Fills, Empties]
  | delKey code =>
    have hcode := holds_delKey hs hk
    cases x with
    | code c => simpa [update, after, Fills, Empties] using hcode c
    | _ => simp [update, Holds, ActionState.delKey, after, Fills, Empties]
  | system u =>
    rw [update, hostSystemSend_eq]
    cases x <;> by_cases hu : u = 0 <;> simp [Holds, nkroActive, after, Fills, Empties, hu]
  | consumer u =>
    rw [update, hostConsumerSend_eq]
    cases x <;> by_cases hu : u = 0 <;> simp [Holds, nkroActive, after, Fills, Empties, hu]
  | _ => exact hb.elim

end ActionStep

/-! ## The steps of one event -/

section Run

open ActionState

variable {s : ActionState} {codes : List (BitVec 8)} {steps : List ActionStep}

/-- The steps are of the kind looked at here, with codes among `codes`. -/
def Steps (codes : List (BitVec 8)) (steps : List ActionStep) : Prop :=
  ∀ step ∈ steps, step.Basic ∧ step.Keyed ∧ ∀ c, step.Fills (.code c) → c ∈ codes

/-- A basic step fills and empties its slots, its reports included. -/
theorem holds_apply {step : ActionStep} (hstep : Steps codes [step]) (hs : Settled s)
    (hroom : Room codes s) : (step.apply s).Holds = step.after s.Holds := by
  obtain ⟨hb, hk, hin⟩ := hstep step List.mem_cons_self
  funext x
  have hupdate := ActionStep.holds_update hb hk hs hroom hin x
  unfold ActionStep.apply
  split
  · exact propext ((holds_sendKeyboardReport x).trans hupdate)
  · exact propext hupdate

/-- The codes of a list of steps have room after each of them. -/
theorem room_apply {step : ActionStep} (hstep : Steps codes [step]) (hs : Settled s)
    (hroom : Room codes s) : Room codes (step.apply s) := by
  refine ⟨hroom.1, fun c hc => ?_⟩
  rw [holds_apply hstep hs hroom] at hc
  rcases hc with hc | ⟨hc, -⟩
  · exact (hstep step List.mem_cons_self).2.2 c hc
  · exact hroom.2 c hc

/-- **A run of basic steps fills and empties its slots in order**, and ends with
the host up to date. -/
theorem runSteps_holds (hsteps : Steps codes steps) (hs : Settled s) (hroom : Room codes s) :
    Settled (runSteps steps s) ∧ (runSteps steps s).Holds =
      steps.foldl ActionStep.after s.Holds := by
  induction steps generalizing s with
  | nil => exact ⟨hs, rfl⟩
  | cons step steps ih =>
    have hone : Steps codes [step] := fun step' h =>
      hsteps step' (List.mem_singleton.mp h ▸ List.mem_cons_self)
    obtain ⟨hb, hk, -⟩ := hsteps step List.mem_cons_self
    rw [runSteps_cons, List.foldl_cons, ← holds_apply hone hs hroom]
    exact ih (fun step' h => hsteps step' (List.mem_cons_of_mem _ h))
      (ActionStep.settled_apply hb hk hs) (room_apply hone hs hroom)

/-! ## What the keyboard report shows of the slots -/

/-- Where the keyboard report shows the slot. -/
def Slot.mark : Slot → Option Mark
  | .mod i | .weakMod i => some (.mod i)
  | .code c => some (.code c)
  | .system | .consumer => none

/-- The report that was last sent shows the slots that are filled. -/
theorem shows_iff (hs : Settled s) (m : Mark) :
    (HostReport.keyboard s.keyReport.raw).Shows s.nkroActive m ↔
      ∃ x, s.Holds x ∧ x.mark = some m := by
  cases m with
  | mod i =>
    have hbyte : (HostReport.keyboard s.keyReport.raw).Shows s.nkroActive (.mod i) ↔
        (s.realMods ||| s.weakMods).getLsbD i = true := by
      rw [← hs.mods]
      rfl
    rw [hbyte, BitVec.getLsbD_or, Bool.or_eq_true]
    constructor
    · rintro (h | h)
      · exact ⟨.mod i, h, rfl⟩
      · exact ⟨.weakMod i, h, rfl⟩
    · rintro ⟨x, hx, hm⟩
      cases x <;> simp only [Slot.mark, Option.some.injEq, Mark.mod.injEq, reduceCtorEq] at hm
      · exact .inl (hm ▸ hx)
      · exact .inr (hm ▸ hx)
  | code c =>
    constructor
    · exact fun h => ⟨.code c, h, rfl⟩
    · rintro ⟨x, hx, hm⟩
      cases x <;> simp only [Slot.mark, Option.some.injEq, Mark.code.injEq, reduceCtorEq] at hm
      subst hm
      exact hx
  | _ =>
    constructor
    · exact fun h => h.elim
    · rintro ⟨x, -, hm⟩
      cases x <;> simp [Slot.mark] at hm

/-- A keyboard report that a step sends is the one it leaves. -/
theorem keyboard_apply {step : ActionStep} (hb : step.Basic) {n : Nat}
    {raw : Vector (BitVec 8) keyboardReportSize}
    (h : .keyboard raw ∈ (step.apply s).sent.drop n) :
    .keyboard raw ∈ s.sent.drop n ∨ raw = (step.apply s).keyReport.raw := by
  have hsend : ∀ {s' : ActionState}, s'.sent = s.sent →
      .keyboard raw ∈ s'.sendKeyboardReport.sent.drop n →
      .keyboard raw ∈ s.sent.drop n ∨ raw = s'.sendKeyboardReport.keyReport.raw := by
    intro s' hs' h
    rw [sendKeyboardReport_sent, hs'] at h
    refine (mem_drop_append h).imp_right fun h => ?_
    rw [sendKeyboardReport_keyReport]
    simpa using h
  have hother : ∀ {new : List HostReport}, (∀ r ∈ new, r.keyboard? = none) →
      .keyboard raw ∈ (s.sent ++ new).drop n → .keyboard raw ∈ s.sent.drop n := by
    intro new hnew h
    refine (mem_drop_append h).resolve_right fun h => ?_
    exact absurd (hnew _ h) (by simp [keyboard?])
  cases step with
  | addMods m | delMods m | addWeakMods m | delWeakMods m => exact hsend rfl h
  | registerKey c | relockKey c | delKey c => exact hsend rfl h
  | system u =>
    simp only [ActionStep.apply, ActionStep.reports, ActionStep.update, hostSystemSend_eq,
      Bool.false_eq_true, if_false] at h
    refine .inl (hother ?_ h)
    split <;> simp [keyboard?]
  | consumer u =>
    simp only [ActionStep.apply, ActionStep.reports, ActionStep.update, hostConsumerSend_eq,
      Bool.false_eq_true, if_false] at h
    refine .inl (hother ?_ h)
    split <;> simp [keyboard?]
  | _ => exact hb.elim

/-- The slots `P` are shown in every report the steps send, if they are
taken before and no step empties them. -/
theorem reports_keep {P : Slot → Prop} (hsteps : Steps codes steps) (hs : Settled s)
    (hroom : Room codes s) (hP : ∀ x, P x → s.Holds x)
    (hkeep : ∀ step ∈ steps, ∀ x, P x → ¬step.Empties x)
    {raw : Vector (BitVec 8) keyboardReportSize}
    (hraw : .keyboard raw ∈ (runSteps steps s).sent.drop s.sent.length) {x : Slot} {m : Mark}
    (hx : P x) (hm : x.mark = some m) : (HostReport.keyboard raw).Shows s.nkroActive m := by
  let Q := fun s' : ActionState => Settled s' ∧ Room codes s' ∧ (∀ x, P x → s'.Holds x) ∧
    s'.nkroActive = s.nkroActive ∧ ∀ raw, .keyboard raw ∈ s'.sent.drop s.sent.length →
      (HostReport.keyboard raw).Shows s.nkroActive m
  have hrun : Q (runSteps steps s) := by
    refine foldl_invariant (P := Q) (R := fun step => Steps codes [step] ∧
      ∀ x, P x → ¬step.Empties x) (fun s' step hQ hstep => ?_) ?_ fun step h => ?_
    · obtain ⟨hs', hroom', hP', hn, hsent⟩ := hQ
      obtain ⟨hb, hk, -⟩ := hstep.1 step List.mem_cons_self
      have hnext := ActionStep.settled_apply hb hk hs'
      have hholds := holds_apply hstep.1 hs' hroom'
      have hPnext : ∀ x, P x → (step.apply s').Holds x := fun x hx => by
        rw [hholds]
        exact .inr ⟨hP' x hx, hstep.2 x hx⟩
      refine ⟨hnext, room_apply hstep.1 hs' hroom', hPnext,
        (step.apply_nkroActive s').trans hn, fun raw hraw => ?_⟩
      rcases keyboard_apply hb hraw with hold | rfl
      · exact hsent raw hold
      · rw [← hn, ← step.apply_nkroActive s', shows_iff hnext]
        exact ⟨x, hPnext x hx, hm⟩
    · exact ⟨hs, hroom, hP, rfl, fun raw h => by simp at h⟩
    · exact ⟨fun step' h' => hsteps step' (List.mem_singleton.mp h' ▸ h), hkeep step h⟩
  exact hrun.2.2.2.2 raw hraw

end Run

end Ch583Kbd.Tmk
