/-
Ch583Kbd.Tmk.Contributors — several held keys that contribute the same.

A key with an `ACT_LMODS`, `ACT_RMODS` or `ACT_USAGE` action contributes
some slots while it is down, and its release empties them; nobody counts
who else contributes them. As long as no event empties a slot that another
held key contributes, and no more than six codes are in use, the reports
show what the held keys contribute, no less and no more (`run_faithful`).

A lock key and a usage of zero empty a slot that they do not contribute.
-/
import Ch583Kbd.Tmk.ReportSlots

namespace Ch583Kbd.Tmk

open Ch583Kbd.Lib HostReport

/-! ## What a key contributes -/

/-- What `register_code` fills for as long as the key is down. -/
def codeSlots (code : BitVec 8) : Slot → Prop :=
  if code = kcNo then fun _ => False
  else
    match lockingKey code with
    | some _ => fun _ => False
    | none =>
      if isKey code then (· = .code code)
      else if isMod code then modSlots (modBit code)
      else if isSystem code then (· = .system)
      else if isConsumer code then (· = .consumer)
      else fun _ => False

/-- The lock key that is tapped, if its indicator calls for it. -/
def lockSlots (code leds : BitVec 8) (pressed : Bool) (x : Slot) : Prop :=
  ∃ c l, lockingKey code = some (c, l) ∧ (pressed = true ↔ leds &&& l = 0) ∧ x = .code c

namespace Action

/-- The actions looked at here. -/
def Simple (a : Action) : Prop := a.kindId = .lmods ∨ a.kindId = .rmods ∨ a.kindId = .usage

/-- The slot of a usage page. -/
def usageSlot (a : Action) (x : Slot) : Prop :=
  match a.usagePage.toNat with
  | 0 => x = .system
  | 1 => x = .consumer
  | _ => False

/-- What the key contributes while it is down. -/
def Contributes (a : Action) : Slot → Prop :=
  match a.kindId with
  | .lmods => fun x => weakModSlots (sideMods a.keyMods true) x ∨ codeSlots a.keyCode x
  | .rmods => fun x => weakModSlots (sideMods a.keyMods false) x ∨ codeSlots a.keyCode x
  | .usage => fun x => a.usageSlot x ∧ a.usageCode ≠ 0
  | _ => fun _ => False

/-- What an event of the key empties though the key does not contribute
it. -/
def Clobbers (a : Action) (leds : BitVec 8) (pressed : Bool) : Slot → Prop :=
  match a.kindId with
  | .lmods | .rmods => lockSlots a.keyCode leds pressed
  | .usage => fun x => a.usageSlot x ∧ a.usageCode = 0
  | _ => fun _ => False

/-- What an event of the key empties. -/
def Removes (a : Action) (leds : BitVec 8) (pressed : Bool) (x : Slot) : Prop :=
  a.Clobbers leds pressed x ∨ pressed = false ∧ a.Contributes x

end Action

/-! ## The steps of a key -/

section Steps

variable {P : Slot → Prop} {codes : List (BitVec 8)}

open ActionStep

theorem keycode2System_ne {code : BitVec 8} (h : isSystem code = true) :
    keycode2System code ≠ 0 := by
  revert code
  decide +kernel

theorem keycode2Consumer_ne {code : BitVec 8} (h : isConsumer code = true) :
    keycode2Consumer code ≠ 0 := by
  revert code
  decide +kernel

/-- Adding weak modifiers fills their slots. -/
theorem after_modsSteps_add (m : BitVec 8) :
    (modsSteps .addWeakMods m).foldl after P = fun x => weakModSlots m x ∨ P x := by
  unfold modsSteps
  funext x
  split
  · simp [after, Fills, Empties]
  · next hm =>
    have h0 : m = 0 := by simpa using hm
    cases x <;> simp [weakModSlots, h0]

/-- Removing weak modifiers empties their slots. -/
theorem after_modsSteps_del (m : BitVec 8) :
    (modsSteps .delWeakMods m).foldl after P = fun x => P x ∧ ¬weakModSlots m x := by
  unfold modsSteps
  funext x
  split
  · simp [after, Fills, Empties]
  · next hm =>
    have h0 : m = 0 := by simpa using hm
    cases x <;> simp [weakModSlots, h0]

/-- A locking key taps its code on a press with the LED off and on a release
with it on. -/
theorem lockSlots_iff {code c l : BitVec 8} (h : lockingKey code = some (c, l)) (leds : BitVec 8)
    (pressed : Bool) (x : Slot) :
    lockSlots code leds pressed x ↔ (pressed = true ↔ leds &&& l = 0) ∧ x = .code c := by
  simp only [lockSlots, h, Option.some.injEq, Prod.mk.injEq]
  constructor
  · rintro ⟨c', l', ⟨rfl, rfl⟩, hled, hx⟩
    exact ⟨hled, hx⟩
  · rintro ⟨hled, hx⟩
    exact ⟨c, l, ⟨rfl, rfl⟩, hled, hx⟩

theorem not_lockSlots (code : BitVec 8) (h : lockingKey code = none) (leds : BitVec 8)
    (pressed : Bool) (x : Slot) : ¬lockSlots code leds pressed x := by
  simp [lockSlots, h]

/-- A lock key is tapped: its code is gone afterwards. -/
theorem after_tap (step : ActionStep) {c : BitVec 8} (hfill : step.Fills = (· = .code c))
    (hempty : ∀ x, ¬step.Empties x) (x : Slot) :
    [step, .delKey c].foldl after P x ↔ P x ∧ x ≠ .code c := by
  have hdel : (ActionStep.delKey c).Empties x ↔ x = .code c := Iff.rfl
  have hnone : ¬(ActionStep.delKey c).Fills x := id
  simp only [List.foldl_cons, List.foldl_nil, after, hfill, hempty, hdel, hnone]
  grind

/-- What `register_code` fills, and the locking code that it taps and empties
again. -/
theorem after_registerSteps (code leds : BitVec 8) :
    (registerSteps code leds).foldl after P =
      fun x => codeSlots code x ∨ P x ∧ ¬lockSlots code leds true x := by
  funext x
  have hnone : lockingKey code = none → (P x ∧ ¬lockSlots code leds true x ↔ P x) := fun hlock => by
    simp [not_lockSlots code hlock]
  unfold registerSteps codeSlots
  by_cases hno : code = kcNo
  · rw [if_pos hno, if_pos hno, hnone (by rw [hno]; decide)]
    simp
  · rw [if_neg hno, if_neg hno]
    cases hlock : lockingKey code with
    | some cl =>
      have htap := after_tap (P := P) (.registerKey cl.1) rfl (fun _ => id) x
      have hiff := lockSlots_iff hlock leds true x
      dsimp only
      split
      · next h =>
        have hled : ¬leds &&& cl.2 = 0#8 := h
        simp [hiff, hled]
      · next h => simp [hiff, htap, not_not.mp h]
    | none =>
      rw [hnone hlock]
      dsimp only
      split_ifs with h1 h2 h3 h4
      · simp [after, Fills, Empties]
      · simp [after, Fills, Empties]
      · have hne : ¬keycode2System code = 0#16 := keycode2System_ne h3
        simp [after, Fills, Empties, hne]
      · have hne : ¬keycode2Consumer code = 0#16 := keycode2Consumer_ne h4
        simp [after, Fills, Empties, hne]
      · simp

/-- What `unregister_code` empties, for every kind of code. -/
theorem after_unregisterSteps (code leds : BitVec 8) :
    (unregisterSteps code leds).foldl after P =
      fun x => P x ∧ ¬codeSlots code x ∧ ¬lockSlots code leds false x := by
  funext x
  have hnone : lockingKey code = none → ¬lockSlots code leds false x :=
    fun hlock => not_lockSlots code hlock leds false x
  unfold unregisterSteps codeSlots
  by_cases hno : code = kcNo
  · rw [if_pos hno, if_pos hno]
    simp [hnone (by rw [hno]; decide)]
  · rw [if_neg hno, if_neg hno]
    cases hlock : lockingKey code with
    | some cl =>
      have htap := after_tap (P := P) (.relockKey cl.1) rfl (fun _ => id) x
      have hiff := lockSlots_iff hlock leds false x
      dsimp only
      split
      · next h => simp [hiff, h]
      · next h =>
        have hled : ¬leds &&& cl.2 = 0#8 := h
        simp [hiff, htap, hled]
    | none =>
      dsimp only
      split_ifs <;> simp [after, Fills, Empties, hnone hlock]

/-- The step fills and empties nothing but this. -/
structure Confined (step : ActionStep) (fills empties : Slot → Prop) : Prop where
  basic : step.Basic
  fills : ∀ x, step.Fills x → fills x
  empties : ∀ x, step.Empties x → empties x

/-! `codeSlots`, branch by branch. -/

section Branches

variable {code : BitVec 8} (hno : code ≠ kcNo) (hlock : lockingKey code = none)
include hno hlock

theorem codeSlots_key (h1 : isKey code) : codeSlots code = (· = .code code) := by
  simp [codeSlots, hno, hlock, h1]

theorem codeSlots_mod (h1 : ¬isKey code) (h2 : isMod code) :
    codeSlots code = modSlots (modBit code) := by
  simp [codeSlots, hno, hlock, h1, h2]

theorem codeSlots_system (h1 : ¬isKey code) (h2 : ¬isMod code) (h3 : isSystem code) :
    codeSlots code = (· = .system) := by
  simp [codeSlots, hno, hlock, h1, h2, h3]

theorem codeSlots_consumer (h1 : ¬isKey code) (h2 : ¬isMod code) (h3 : ¬isSystem code)
    (h4 : isConsumer code) : codeSlots code = (· = .consumer) := by
  simp [codeSlots, hno, hlock, h1, h2, h3, h4]

end Branches

/-- The steps of `register_code` fill and empty nothing but what belongs to the
code. -/
theorem confined_registerSteps (code leds : BitVec 8) : ∀ step ∈ registerSteps code leds,
    Confined step (fun x => codeSlots code x ∨ lockSlots code leds true x)
      (lockSlots code leds true) := by
  refine forall_registerSteps (fun c l hlock hled => ?_) (fun hno hlock h1 => ?_)
    (fun hno hlock h1 h2 => ?_) (fun hno hlock h1 h2 h3 => ?_) fun hno hlock h1 h2 h3 h4 => ?_
  · have hx : ∀ x, x = .code c → lockSlots code leds true x := fun x hx =>
      (lockSlots_iff hlock leds true x).mpr ⟨by simp [hled], hx⟩
    exact ⟨⟨trivial, fun x h => .inr (hx x h), fun _ h => h.elim⟩,
      trivial, fun _ h => h.elim, hx⟩
  · exact ⟨trivial, fun x hx => .inl (codeSlots_key hno hlock h1 ▸ hx), fun _ h => h.elim⟩
  · exact ⟨trivial, fun x hx => .inl (codeSlots_mod hno hlock h1 h2 ▸ hx), fun _ h => h.elim⟩
  · exact ⟨trivial, fun x hx => .inl (codeSlots_system hno hlock h1 h2 h3 ▸ hx.1),
      fun _ hx => absurd hx.2 (keycode2System_ne h3)⟩
  · exact ⟨trivial, fun x hx => .inl (codeSlots_consumer hno hlock h1 h2 h3 h4 ▸ hx.1),
      fun _ hx => absurd hx.2 (keycode2Consumer_ne h4)⟩

/-- The steps of `unregister_code` fill and empty nothing but what belongs to
the code. -/
theorem confined_unregisterSteps (code leds : BitVec 8) : ∀ step ∈ unregisterSteps code leds,
    Confined step (lockSlots code leds false)
      (fun x => codeSlots code x ∨ lockSlots code leds false x) := by
  refine forall_unregisterSteps (fun c l hlock hled => ?_) (fun hno hlock h1 => ?_)
    (fun hno hlock h1 h2 => ?_) (fun hno hlock h1 h2 h3 => ?_) fun hno hlock h1 h2 h3 h4 => ?_
  · have hx : ∀ x, x = .code c → lockSlots code leds false x := fun x hx =>
      (lockSlots_iff hlock leds false x).mpr ⟨by simpa using hled, hx⟩
    exact ⟨⟨trivial, hx, fun _ h => h.elim⟩, trivial, fun _ h => h.elim, fun x h => .inr (hx x h)⟩
  · exact ⟨trivial, fun _ h => h.elim, fun x hx => .inl (codeSlots_key hno hlock h1 ▸ hx)⟩
  · exact ⟨trivial, fun _ h => h.elim, fun x hx => .inl (codeSlots_mod hno hlock h1 h2 ▸ hx)⟩
  · exact ⟨trivial, fun _ h => absurd rfl h.2,
      fun x hx => .inl (codeSlots_system hno hlock h1 h2 h3 ▸ hx.1)⟩
  · exact ⟨trivial, fun _ h => absurd rfl h.2,
      fun x hx => .inl (codeSlots_consumer hno hlock h1 h2 h3 h4 ▸ hx.1)⟩

theorem confined_modsSteps_add (m : BitVec 8) : ∀ step ∈ modsSteps .addWeakMods m,
    Confined step (weakModSlots m) fun _ => False := by
  intro step h
  obtain rfl := mem_modsSteps h
  exact ⟨trivial, fun _ => id, fun _ => id⟩

theorem confined_modsSteps_del (m : BitVec 8) : ∀ step ∈ modsSteps .delWeakMods m,
    Confined step (fun _ => False) (weakModSlots m) := by
  intro step h
  obtain rfl := mem_modsSteps h
  exact ⟨trivial, fun _ => id, fun _ => id⟩

theorem Confined.mono {step : ActionStep} {fills fills' empties empties' : Slot → Prop}
    (h : Confined step fills empties) (hf : ∀ x, fills x → fills' x)
    (he : ∀ x, empties x → empties' x) : Confined step fills' empties' :=
  ⟨h.basic, fun x hx => hf x (h.fills x hx), fun x hx => he x (h.empties x hx)⟩

end Steps

namespace Action

variable {a : Action} (s : ActionState) (pressed : Bool) (tap : Tap)

theorem setWidth_eq_zero (u : BitVec 10) : u.setWidth 16 = 0 ↔ u = 0 := by
  constructor
  · intro h
    apply BitVec.eq_of_toNat_eq
    have hnat := congrArg BitVec.toNat h
    rw [BitVec.toNat_setWidth] at hnat
    have hlt := u.isLt
    have h0 : (0 : BitVec 16).toNat = 0 := rfl
    have h0' : (0 : BitVec 10).toNat = 0 := rfl
    omega
  · rintro rfl
    rfl

/-- The step of a usage: its value is zero on release, or if the usage
is. -/
theorem usageSteps_cases (a : Action) (pressed : Bool) :
    (ActionState.usageSteps a pressed = [] ∧ ∀ x, ¬a.usageSlot x) ∨
      ∃ step, ActionState.usageSteps a pressed = [step] ∧ step.Basic ∧
        (∀ x, step.Fills x ↔ a.usageSlot x ∧ pressed = true ∧ a.usageCode ≠ 0) ∧
        ∀ x, step.Empties x ↔ a.usageSlot x ∧ ¬(pressed = true ∧ a.usageCode ≠ 0) := by
  have hvalue : (if pressed then a.usageCode.setWidth 16 else 0) ≠ (0 : BitVec 16) ↔
      pressed = true ∧ a.usageCode ≠ 0 := by
    cases pressed with
    | true => simpa using not_congr (setWidth_eq_zero a.usageCode)
    | false => simp
  unfold ActionState.usageSteps usageSlot
  generalize (if pressed then a.usageCode.setWidth 16 else 0) = value at hvalue ⊢
  have hempty : value = 0 ↔ ¬(pressed = true ∧ a.usageCode ≠ 0) := by rw [← hvalue, not_not]
  generalize a.usagePage.toNat = page
  obtain _ | _ | page := page
  · exact .inr ⟨_, rfl, trivial, fun x => and_congr_right fun _ => hvalue,
      fun x => and_congr_right fun _ => hempty⟩
  · exact .inr ⟨_, rfl, trivial, fun x => and_congr_right fun _ => hvalue,
      fun x => and_congr_right fun _ => hempty⟩
  · exact .inl ⟨rfl, fun _ => id⟩

/-- The steps of an event fill what the key contributes or clobbers, and
empty what the event removes. -/
theorem confined_performSteps (ha : a.Simple) : ∀ step ∈ s.performSteps a pressed tap,
    Confined step (fun x => a.Contributes x ∨ a.Clobbers s.leds pressed x)
      (a.Removes s.leds pressed) := by
  have hmods : ∀ mods, (∀ x, weakModSlots mods x ∨ codeSlots a.keyCode x → a.Contributes x) →
      a.Clobbers s.leds pressed = lockSlots a.keyCode s.leds pressed →
      ∀ step ∈ s.modsKeySteps mods a.keyCode pressed,
        Confined step (fun x => a.Contributes x ∨ a.Clobbers s.leds pressed x)
          (a.Removes s.leds pressed) := by
    intro mods hcontr hclob step h
    unfold Removes
    rw [hclob]
    unfold ActionState.modsKeySteps at h
    cases pressed with
    | true =>
      rcases List.mem_append.mp h with h | h
      · exact (confined_modsSteps_add mods step h).mono (fun x hx => .inl (hcontr x (.inl hx)))
          fun _ => False.elim
      · exact (confined_registerSteps a.keyCode s.leds step h).mono
          (fun x hx => hx.imp_left fun hx => hcontr x (.inr hx)) fun _ => .inl
    | false =>
      rcases List.mem_append.mp h with h | h
      · exact (confined_unregisterSteps a.keyCode s.leds step h).mono (fun _ => .inr)
          fun x hx => hx.symm.imp_right fun hx => ⟨rfl, hcontr x (.inr hx)⟩
      · exact (confined_modsSteps_del mods step h).mono (fun _ => False.elim)
          fun x hx => .inr ⟨rfl, hcontr x (.inl hx)⟩
  unfold ActionState.performSteps
  rcases ha with hk | hk | hk
  · simp only [hk]
    exact hmods _ (fun x hx => by simpa only [Contributes, hk] using hx)
      (by simp only [Clobbers, hk])
  · simp only [hk]
    exact hmods _ (fun x hx => by simpa only [Contributes, hk] using hx)
      (by simp only [Clobbers, hk])
  · simp only [hk]
    intro step h
    have hcontr : ∀ x, a.Contributes x ↔ a.usageSlot x ∧ a.usageCode ≠ 0 := fun x => by
      simp only [Contributes, hk]
    have hclob : ∀ x, a.Clobbers s.leds pressed x ↔ a.usageSlot x ∧ a.usageCode = 0 := fun x => by
      simp only [Clobbers, hk]
    rcases usageSteps_cases a pressed with ⟨hnil, -⟩ | ⟨step', hone, hbasic, hfills, hempties⟩
    · rw [hnil] at h
      exact absurd h List.not_mem_nil
    · rw [hone, List.mem_singleton] at h
      subst h
      refine ⟨hbasic, fun x hx => .inl ?_, fun x hx => ?_⟩
      · obtain ⟨hslot, -, hne⟩ := (hfills x).mp hx
        exact (hcontr x).mpr ⟨hslot, hne⟩
      · obtain ⟨hslot, hzero⟩ := (hempties x).mp hx
        rw [Removes, hclob, hcontr]
        by_cases hne : a.usageCode = 0
        · exact .inl ⟨hslot, hne⟩
        · exact .inr ⟨Bool.eq_false_iff.mpr fun hp => hzero ⟨hp, hne⟩, hslot, hne⟩

/-- What is taken after the event: on a press what the key contributes, and
what was taken and is not removed. -/
theorem after_performSteps (ha : a.Simple) (P : Slot → Prop) :
    (s.performSteps a pressed tap).foldl ActionStep.after P =
      fun x => pressed = true ∧ a.Contributes x ∨ P x ∧ ¬a.Removes s.leds pressed x := by
  have hdisjoint : ∀ mods x, weakModSlots mods x → ¬lockSlots a.keyCode s.leds pressed x := by
    rintro mods x hx ⟨c, l, -, -, rfl⟩
    exact hx
  have hmods : ∀ mods, (∀ x, a.Contributes x ↔ weakModSlots mods x ∨ codeSlots a.keyCode x) →
      (∀ x, a.Clobbers s.leds pressed x ↔ lockSlots a.keyCode s.leds pressed x) →
      (s.modsKeySteps mods a.keyCode pressed).foldl ActionStep.after P =
        fun x => pressed = true ∧ a.Contributes x ∨ P x ∧ ¬a.Removes s.leds pressed x := by
    intro mods hcontr hclob
    funext x
    have hdis := hdisjoint mods x
    unfold ActionState.modsKeySteps Removes
    cases pressed with
    | true =>
      simp only [if_true, List.foldl_append, after_modsSteps_add, after_registerSteps,
        hcontr, hclob]
      grind
    | false =>
      simp only [Bool.false_eq_true, if_false, List.foldl_append, after_unregisterSteps,
        after_modsSteps_del, hcontr, hclob]
      grind
  unfold ActionState.performSteps
  rcases ha with hk | hk | hk
  · simp only [hk]
    exact hmods _ (fun x => by simp only [Contributes, hk]) fun x => by simp only [Clobbers, hk]
  · simp only [hk]
    exact hmods _ (fun x => by simp only [Contributes, hk]) fun x => by simp only [Clobbers, hk]
  · simp only [hk]
    funext x
    simp only [Removes, Contributes, Clobbers, hk]
    rcases usageSteps_cases a pressed with ⟨hnil, hslot⟩ | ⟨step, hone, -, hfills, hempties⟩
    · simp [hnil, hslot]
    · simp only [hone, List.foldl_cons, List.foldl_nil, ActionStep.after, hfills, hempties]
      cases pressed <;> grind

end Action

/-! ## Runs -/

/-- A press or a release of a key, with the LEDs of that moment. -/
structure Stroke where
  record : KeyRecord
  leds : BitVec 8 := 0
  real : record.event.isNoEvent = false

namespace Stroke

def key (x : Stroke) : KeyPos := x.record.event.key

def pressed (x : Stroke) : Bool := x.record.event.pressed

def apply (K : Keymap) (x : Stroke) (s : ActionState) : ActionState :=
  (processAction K x.record { s with leds := x.leds }).2

end Stroke

/-- The action layer, and which keys are down. -/
structure Board where
  act : ActionState
  down : KeyPos → Bool

namespace Board

def start (protocol : BitVec 8) (nkro : Bool) : Board := ⟨startState protocol nkro, fun _ => false⟩

def step (K : Keymap) (b : Board) (x : Stroke) : Board where
  act := x.apply K b.act
  down k := if k = x.key then x.pressed else b.down k

/-- A held key contributes the slot. No layer is ever on, so the action of
a key is the one on layer 0. -/
def Contributed (K : Keymap) (b : Board) (x : Slot) : Prop :=
  ∃ k, b.down k = true ∧ (K 0 k).Contributes x

/-- The host sees what the held keys contribute. -/
structure Faithful (K : Keymap) (b : Board) : Prop where
  keyboard : ∀ m, (HostReport.keyboard (lastReport keyboard?
    (Vector.replicate keyboardReportSize 0) b.act.sent)).Shows b.act.nkroActive m ↔
      ∃ x, b.Contributed K x ∧ x.mark = some m
  system : lastReport system? 0 b.act.sent = 0 ↔ ¬b.Contributed K .system
  consumer : lastReport consumer? 0 b.act.sent = 0 ↔ ¬b.Contributed K .consumer

end Board

/-- Every keyboard report that the event sends shows what the other held
keys contribute. -/
def Kept (K : Keymap) (p : Board × Stroke) : Prop :=
  ∀ raw, .keyboard raw ∈ (p.1.step K p.2).act.sent.drop p.1.act.sent.length →
    ∀ k, k ≠ p.2.key → p.1.down k = true → ∀ x m, (K 0 k).Contributes x → x.mark = some m →
      (HostReport.keyboard raw).Shows p.1.act.nkroActive m

/-- The event empties no slot that another held key contributes, and there
is room for all codes. -/
structure Undisturbed (K : Keymap) (p : Board × Stroke) : Prop where
  others : ∀ k, k ≠ p.2.key → p.1.down k = true → ∀ x, (K 0 k).Contributes x →
    ¬(K 0 p.2.key).Removes p.2.leds p.2.pressed x
  six : ∃ codes : List (BitVec 8), codes.length ≤ 6 ∧ ∀ c, p.1.Contributed K (.code c) ∨
    (K 0 p.2.key).Contributes (.code c) ∨
    (K 0 p.2.key).Clobbers p.2.leds p.2.pressed (.code c) → c ∈ codes

/-! ## The invariant -/

section Layers

open ActionState

/-- No layer is on, and none was when a key was pressed. -/
structure NoLayer (s : ActionState) : Prop where
  layerState : s.layerState = 0
  defaultLayerState : s.defaultLayerState = 0
  layerPressed : ∀ k, s.layerPressed k = 0

variable {K : Keymap} {s : ActionState}

/-- With no layer on, the search ends at layer 0. -/
theorem topLayer_zero (K : Keymap) (key : KeyPos) (n : Nat) : topLayer K 0 key n = 0 := by
  induction n with
  | zero => rfl
  | succ n ih => exact (if_neg (by simp)).trans ih

theorem NoLayer.currentLayerForKey (h : NoLayer s) (key : KeyPos) :
    s.currentLayerForKey K key = 0 := by
  rw [ActionState.currentLayerForKey, h.layerState, h.defaultLayerState]
  exact topLayer_zero K key 32

/-- With no layer on, an event performs the action of layer 0. -/
theorem NoLayer.actionOf (h : NoLayer s) {e : KeyEvent} (he : e.isNoEvent = false) :
    s.actionOf K e = K 0 e.key := by
  unfold ActionState.actionOf layerFor
  rw [he, h.currentLayerForKey, h.layerPressed, ite_self]
  rfl

/-- Recording the layer of a press turns no layer on. -/
theorem NoLayer.track (h : NoLayer s) (e : KeyEvent) : NoLayer (s.track K e) := by
  unfold ActionState.track
  split
  · refine ⟨h.layerState, h.defaultLayerState, fun k => ?_⟩
    simp only [setLayerPressed, h.currentLayerForKey, h.layerPressed, ite_self]
  · exact h

/-- A basic step turns no layer on. -/
theorem NoLayer.apply (h : NoLayer s) {step : ActionStep} (hb : step.Basic) :
    NoLayer (step.apply s) := by
  have hsame : (step.apply s).layerState = s.layerState ∧
      (step.apply s).defaultLayerState = s.defaultLayerState ∧
      (step.apply s).layerPressed = s.layerPressed := by
    cases step with
    | system u =>
      simp [ActionStep.apply, ActionStep.reports, ActionStep.update, hostSystemSend_eq]
    | consumer u =>
      simp [ActionStep.apply, ActionStep.reports, ActionStep.update, hostConsumerSend_eq]
    | addMods m | delMods m | addWeakMods m | delWeakMods m =>
      simp only [ActionStep.apply, ActionStep.reports, if_true, sendKeyboardReport_eq]
      exact ⟨rfl, rfl, rfl⟩
    | registerKey c | relockKey c | delKey c =>
      simp only [ActionStep.apply, ActionStep.reports, if_true, sendKeyboardReport_eq]
      exact ⟨rfl, rfl, rfl⟩
    | _ => exact hb.elim
  obtain ⟨h1, h2, h3⟩ := hsame
  exact ⟨h1.trans h.layerState, h2.trans h.defaultLayerState, fun k => by rw [h3, h.layerPressed]⟩

end Layers

namespace Board

open ActionState

/-- What every event keeps. -/
structure Inv (K : Keymap) (b : Board) : Prop where
  settled : Settled b.act
  synced : Synced b.act
  noLayer : NoLayer b.act
  holds : ∀ x, b.act.Holds x ↔ b.Contributed K x

variable {K : Keymap} {b : Board}

/-- In a board that keeps the invariant the slots filled are those of the keys
that are down. -/
theorem Inv.faithful (h : Inv K b) : b.Faithful K where
  keyboard m := by
    rw [h.settled.report, shows_iff h.settled]
    simp only [h.holds]
  system := by
    rw [h.synced.system, ← h.holds]
    exact not_not.symm
  consumer := by
    rw [h.synced.consumer, ← h.holds]
    exact not_not.symm

/-- At power-up no key is down and no slot is filled. -/
theorem inv_start (K : Keymap) (protocol : BitVec 8) (nkro : Bool) :
    Inv K (start protocol nkro) where
  settled := settled_start protocol nkro
  synced := synced_start protocol nkro
  noLayer := ⟨rfl, rfl, fun _ => rfl⟩
  holds x := by
    have hnone : ¬(start protocol nkro).Contributed K x := by
      rintro ⟨k, hk, -⟩
      exact absurd hk (by simp [start])
    refine iff_of_false ?_ hnone
    cases x with
    | code c =>
      have hclear : ({} : KeyReport).clearKeys = {} := by decide +kernel
      have hempty := KeyReport.not_showsCode_clearKeys {} (startState protocol nkro).nkroActive c
      rw [hclear] at hempty
      exact hempty
    | _ => simp [Holds, start, startState]

/-- The state in which the steps of the event begin. -/
def before (K : Keymap) (b : Board) (x : Stroke) : ActionState :=
  ({ b.act with leds := x.leds } : ActionState).track K x.record.event

/-- Only what no slot and no report depends on is new in it. -/
theorem before_eq (K : Keymap) (b : Board) (x : Stroke) : ∃ f,
    b.before K x = { b.act with leds := x.leds, layerPressed := f } := by
  unfold before track
  split
  · exact ⟨_, rfl⟩
  · exact ⟨b.act.layerPressed, rfl⟩

/-- One event makes the steps of the action of layer 0. -/
theorem step_act (hlayer : NoLayer b.act) (x : Stroke) : (b.step K x).act =
    runSteps ((b.before K x).performSteps (K 0 x.key) x.pressed x.record.tap) (b.before K x) := by
  have hleds : NoLayer { b.act with leds := x.leds } :=
    ⟨hlayer.layerState, hlayer.defaultLayerState, hlayer.layerPressed⟩
  have haction := hleds.actionOf (K := K) x.real
  have hreal := x.real
  simp only [step, Stroke.apply, processAction, hreal, haction, Bool.false_eq_true, if_false]
  exact perform_eq _ _ _ _

variable {x : Stroke}

/-- Recording the layer of a press fills and empties no slot. -/
theorem Inv.before (h : Inv K b) (x : Stroke) : Settled (b.before K x) ∧ Synced (b.before K x) ∧
    NoLayer (b.before K x) ∧ (b.before K x).Holds = b.act.Holds := by
  have hleds : NoLayer { b.act with leds := x.leds } :=
    ⟨h.noLayer.layerState, h.noLayer.defaultLayerState, h.noLayer.layerPressed⟩
  have hlayer : NoLayer (b.before K x) := hleds.track _
  obtain ⟨f, hf⟩ := before_eq K b x
  rw [hf] at hlayer ⊢
  refine ⟨⟨fun hn => ?_, h.settled.oneshot, h.settled.report, h.settled.mods⟩,
    ⟨h.synced.mouse, h.synced.system, h.synced.consumer⟩, hlayer, ?_⟩
  · exact sixKro_of_report (h.settled.ring hn) rfl rfl
  · funext y
    cases y <;> rfl

/-- The steps of an undisturbed event are of the kind looked at, with room for
their codes. -/
theorem Undisturbed.steps (h : Inv K b) (hsimple : (K 0 x.key).Simple)
    (hx : Undisturbed K (b, x)) : ∃ codes, Room codes (b.before K x) ∧
      Steps codes ((b.before K x).performSteps (K 0 x.key) x.pressed x.record.tap) := by
  obtain ⟨codes, hlen, hcodes⟩ := hx.six
  obtain ⟨-, -, -, hholds⟩ := h.before x
  have hleds : (b.before K x).leds = x.leds := by
    obtain ⟨f, hf⟩ := before_eq K b x
    rw [hf]
  refine ⟨codes, ⟨hlen, fun c hc => ?_⟩, fun step hstep => ?_⟩
  · rw [hholds] at hc
    exact hcodes c (.inl ((h.holds _).mp hc))
  · have hconf := Action.confined_performSteps (b.before K x) x.pressed x.record.tap
      hsimple step hstep
    rw [hleds] at hconf
    exact ⟨hconf.basic, keyed_performSteps _ _ _ step hstep,
      fun c hc => hcodes c (.inr (hconf.fills _ hc))⟩

/-- **One undisturbed event keeps the board faithful.** -/
theorem Inv.step (h : Inv K b) (hsimple : (K 0 x.key).Simple) (hx : Undisturbed K (b, x)) :
    Inv K (b.step K x) := by
  obtain ⟨hsettled, hsynced, hlayer, hholds⟩ := h.before x
  obtain ⟨codes, hroom, hsteps⟩ := Undisturbed.steps h hsimple hx
  obtain ⟨hsettled', hholds'⟩ := runSteps_holds hsteps hsettled hroom
  have hleds : (b.before K x).leds = x.leds := by
    obtain ⟨f, hf⟩ := before_eq K b x
    rw [hf]
  have hact := step_act (K := K) h.noLayer x
  refine ⟨?_, ?_, ?_, fun y => ?_⟩
  · rw [hact]
    exact hsettled'
  · rw [hact]
    exact hsynced.runSteps _
  · rw [hact]
    exact foldl_invariant (P := NoLayer) (R := ActionStep.Basic) (fun _ _ h hb => h.apply hb) hlayer
      fun step hstep => (hsteps step hstep).1
  · rw [hact, hholds', Action.after_performSteps _ _ _ hsimple, hholds, hleds]
    constructor
    · rintro (⟨hp, hc⟩ | ⟨hheld, hnot⟩)
      · exact ⟨x.key, by simp [Board.step, hp], hc⟩
      · obtain ⟨k, hk, hc⟩ := (h.holds y).mp hheld
        by_cases hkey : k = x.key
        · subst hkey
          refine ⟨x.key, ?_, hc⟩
          cases hp : x.pressed with
          | true => simp [Board.step, hp]
          | false => exact absurd (.inr ⟨hp, hc⟩) hnot
        · exact ⟨k, by simp [Board.step, hkey, hk], hc⟩
    · rintro ⟨k, hk, hc⟩
      by_cases hkey : k = x.key
      · subst hkey
        exact .inl ⟨by simpa [Board.step] using hk, hc⟩
      · have hdown : b.down k = true := by simpa [Board.step, hkey] using hk
        exact .inr ⟨(h.holds y).mpr ⟨k, hdown, hc⟩, hx.others k hkey hdown y hc⟩

/-- What the other held keys contribute is in all reports of the event. -/
theorem Inv.kept (h : Inv K b) (hsimple : (K 0 x.key).Simple) (hx : Undisturbed K (b, x)) :
    Kept K (b, x) := by
  obtain ⟨hsettled, -, -, hholds⟩ := h.before x
  obtain ⟨codes, hroom, hsteps⟩ := Undisturbed.steps h hsimple hx
  obtain ⟨f, hf⟩ := before_eq K b x
  intro raw hraw k hkey hdown y m hc hm
  have hact := step_act (K := K) h.noLayer x
  have hsent : (b.before K x).sent = b.act.sent := by rw [hf]
  have hn : (b.before K x).nkroActive = b.act.nkroActive := by
    rw [hf]
    rfl
  have hleds : (b.before K x).leds = x.leds := by rw [hf]
  dsimp only at hraw
  rw [hact, ← hsent] at hraw
  rw [← hn]
  refine reports_keep (P := (K 0 k).Contributes) hsteps hsettled hroom (fun y hc => ?_)
    (fun step hstep y hc hempty => ?_) hraw hc hm
  · rw [hholds]
    exact (h.holds y).mpr ⟨k, hdown, hc⟩
  · have hconf := Action.confined_performSteps (b.before K x) x.pressed x.record.tap
      hsimple step hstep
    rw [hleds] at hconf
    exact hx.others k hkey hdown y hc (hconf.empties y hempty)

end Board

open Board

/-- **Overlapping contributors.** In every sequence of presses and releases
in which no event empties a slot that another held key contributes, the
host sees after each event what the held keys contribute, and during it
what the other held keys do. -/
theorem run_faithful (K : Keymap) (protocol : BitVec 8) (nkro : Bool) (strokes : List Stroke)
    (hsimple : ∀ x ∈ strokes, (K 0 x.key).Simple)
    (hruns : ∀ p ∈ trace (Board.step K) strokes (Board.start protocol nkro), Undisturbed K p) :
    (strokes.foldl (Board.step K) (Board.start protocol nkro)).Faithful K ∧
      ∀ p ∈ trace (Board.step K) strokes (Board.start protocol nkro),
        p.1.Faithful K ∧ Kept K p := by
  have hrules : ∀ p ∈ trace (Board.step K) strokes (Board.start protocol nkro),
      (K 0 p.2.key).Simple ∧ Undisturbed K p :=
    fun p hp => ⟨hsimple p.2 (mem_of_mem_trace hp), hruns p hp⟩
  have hstep : ∀ (b : Board) (x : Stroke), Inv K b → (K 0 x.key).Simple ∧ Undisturbed K (b, x) →
      Inv K (b.step K x) := fun b x h hx => h.step hx.1 hx.2
  have hstart := inv_start K protocol nkro
  refine ⟨(trace_invariant hstep hstart hrules).faithful, fun p hp => ?_⟩
  have hinv := trace_forall hstep hstart hrules p hp
  exact ⟨hinv.faithful, hinv.kept (hrules p hp).1 (hrules p hp).2⟩

/-- A shift key and a shifted letter: the shift stays while the letter is
held. -/
theorem run_faithful_shift :
    let K : Keymap := fun _ key => if key.col = 0 then ⟨0x00E1⟩ else ⟨0x0205⟩
    let strokes : List Stroke :=
      [⟨recordAt 0 true 0, 0, rfl⟩, ⟨recordAt 1 true 0, 0, rfl⟩, ⟨recordAt 0 false 0, 0, rfl⟩]
    (strokes.foldl (Board.step K) (Board.start 1 false)).Faithful K ∧
      ∀ p ∈ trace (Board.step K) strokes (Board.start 1 false), p.1.Faithful K ∧ Kept K p := by
  intro K strokes
  have hbit : ∀ i, (2#8).getLsbD i = true → i = 1 := by
    intro i hi
    have hcases : ∀ i < 8, (2#8).getLsbD i = true → i = 1 := by decide
    exact hcases i (BitVec.lt_of_getLsbD hi) hi
  have haction : ∀ k : KeyPos, k.col = 0 ∧ K 0 k = ⟨0x00E1⟩ ∨ k.col ≠ 0 ∧ K 0 k = ⟨0x0205⟩ := by
    intro k
    by_cases hk : k.col = 0
    · exact .inl ⟨hk, if_pos hk⟩
    · exact .inr ⟨hk, if_neg hk⟩
  have hshift : ∀ x, (⟨0x00E1⟩ : Action).Contributes x → x = .mod 1 := by
    intro x hx
    rcases hx with hx | hx
    · cases x <;> simp [weakModSlots, sideMods, Action.keyMods] at hx
    · have hmod : modSlots 2#8 x := hx
      cases x <;> first | exact hmod.elim | exact congrArg Slot.mod (hbit _ hmod)
  have hletter : ∀ x, (⟨0x0205⟩ : Action).Contributes x → x = .weakMod 1 ∨ x = .code 5 := by
    intro x hx
    rcases hx with hx | hx
    · have hmod : weakModSlots 2#8 x := hx
      left
      cases x <;> first | exact hmod.elim | exact congrArg Slot.weakMod (hbit _ hmod)
    · exact .inr hx
  have hclob : ∀ k leds pressed x, ¬(K 0 k).Clobbers leds pressed x := by
    intro k leds pressed x hx
    rcases haction k with ⟨-, hk⟩ | ⟨-, hk⟩
    · rw [hk] at hx
      exact not_lockSlots 0xE1 (by decide) leds pressed x hx
    · rw [hk] at hx
      exact not_lockSlots 0x05 (by decide) leds pressed x hx
  have hcode : ∀ k c, (K 0 k).Contributes (.code c) → c = 5 := by
    intro k c hx
    rcases haction k with ⟨-, hk⟩ | ⟨-, hk⟩
    · have h := hshift _ (hk ▸ hx)
      simp at h
    · have h := hletter _ (hk ▸ hx)
      simpa using h
  refine run_faithful K 1 false strokes (fun x _ => ?_) fun p hp => ⟨?_, [5], by decide, ?_⟩
  · rcases haction x.key with ⟨-, hk⟩ | ⟨-, hk⟩ <;> exact .inl (by rw [hk]; decide)
  · intro k hkey hdown x hx hremoves
    have hrel := hremoves.resolve_left (hclob _ _ _ x)
    simp only [strokes, trace_cons, trace_nil, List.mem_cons, List.not_mem_nil, or_false] at hp
    rcases hp with rfl | rfl | rfl
    · exact absurd hrel.1 (by decide)
    · exact absurd hrel.1 (by decide)
    · -- the shift is released; what it fills is not what the letter fills
      have hmod := hshift x hrel.2
      rcases haction k with ⟨hcol, -⟩ | ⟨-, hk⟩
      · have h1 : k ≠ ⟨0, 1⟩ := by
          rintro rfl
          exact absurd hcol (by decide)
        have h0 : k ≠ ⟨0, 0⟩ := hkey
        have hdown' : (if k = ⟨0, 1⟩ then true else if k = ⟨0, 0⟩ then true else false) = true :=
          hdown
        rw [if_neg h1, if_neg h0] at hdown'
        exact absurd hdown' (by decide)
      · rcases hletter x (hk ▸ hx) with h | h <;> simp [hmod] at h
  · rintro c (⟨k, -, hx⟩ | hx | hx)
    · simp [hcode k c hx]
    · simp [hcode _ c hx]
    · exact absurd hx (hclob _ _ _ _)

/-- Two shifted letters: the release of the first takes the shift from the
second. -/
theorem shift_lost :
    let K : Keymap := fun _ key => if key.col = 0 then ⟨0x0204⟩ else ⟨0x0205⟩
    let strokes : List Stroke :=
      [⟨recordAt 0 true 0, 0, rfl⟩, ⟨recordAt 1 true 0, 0, rfl⟩, ⟨recordAt 0 false 0, 0, rfl⟩]
    ¬(strokes.foldl (Board.step K) (Board.start 1 false)).Faithful K := by
  intro K strokes h
  have hkind : (⟨0x0205⟩ : Action).kindId = .lmods := by decide
  have hcontr : (K 0 ⟨0, 1⟩).Contributes (.weakMod 1) := by
    have haction : K 0 ⟨0, 1⟩ = ⟨0x0205⟩ := by decide
    rw [haction]
    simp only [Action.Contributes, hkind]
    left
    show (sideMods (⟨0x0205⟩ : Action).keyMods true).getLsbD 1 = true
    decide
  have hshows := (h.keyboard (.mod 1)).mpr ⟨.weakMod 1, ⟨⟨0, 1⟩, by decide, hcontr⟩, rfl⟩
  let raw := lastReport keyboard? (Vector.replicate keyboardReportSize 0)
    (strokes.foldl (Board.step K) (Board.start 1 false)).act.sent
  have hbit : (({ raw := raw } : KeyReport).byte 0).getLsbD 1 = true := hshows
  exact absurd hbit (by decide +kernel)

end Ch583Kbd.Tmk
