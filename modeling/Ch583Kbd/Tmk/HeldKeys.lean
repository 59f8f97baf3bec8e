/-
Ch583Kbd.Tmk.HeldKeys — what a key turns on while it is down, and off when
it is released.

An `Item` is one bit of the modifiers, one key code of the report or one
bit of the layer state. `Adds T f` says that `f` turns on nothing but `T`,
`Removes T f` that it turns on nothing and leaves nothing of `T` on. For
an ordinary action, a press adds what `turned` says and the release
removes it (`perform_adds`, `perform_removes`), if both see the same count
above or not above 0.
-/
import Ch583Kbd.Tmk.ActionTheorems
import Ch583Kbd.Tmk.SixKeys

namespace Ch583Kbd.Tmk

open Ch583Kbd.Lib KeyReport

/-! ## Items -/

inductive Item where
  | mod (i : Nat)
  | weakMod (i : Nat)
  | code (c : BitVec 8)
  | layer (i : Nat)
  deriving DecidableEq

/-- The item is on. -/
def ActionState.On (s : ActionState) : Item → Prop
  | .mod i => s.realMods.getLsbD i = true
  | .weakMod i => s.weakMods.getLsbD i = true
  | .code c => c ≠ 0 ∧ ∃ j < 6, s.keyReport.key j = c
  | .layer i => s.layerState.getLsbD i = true

/-- The report is in 6KRO mode: only `mods` and the ring are used. -/
structure SixKro (s : ActionState) : Prop where
  nkro : s.nkroActive = false
  ring : ∃ xs, Rep s.keyReport xs
  outside : ∀ j, j ≠ 0 → j < 2 ∨ 8 ≤ j → s.keyReport.raw[j]?.getD 0 = 0

/-- `f` turns on nothing but `T`. -/
structure Adds (T : Item → Prop) (f : ActionState → ActionState) : Prop where
  sixKro : ∀ s, SixKro s → SixKro (f s)
  on : ∀ s, SixKro s → ∀ x, (f s).On x → s.On x ∨ T x
  layerPressed : ∀ s, (f s).layerPressed = s.layerPressed

/-- `f` turns on nothing, and leaves nothing of `T` on. -/
structure Removes (T : Item → Prop) (f : ActionState → ActionState) : Prop where
  sixKro : ∀ s, SixKro s → SixKro (f s)
  on : ∀ s, SixKro s → ∀ x, (f s).On x → s.On x ∧ ¬T x
  layerPressed : ∀ s, (f s).layerPressed = s.layerPressed

def nothing : Item → Prop := fun _ => False

section Rules

variable {T T' : Item → Prop} {f g : ActionState → ActionState}

/-- Two functions in a row turn on what either does. -/
theorem Adds.comp (hg : Adds T' g) (hf : Adds T f) :
    Adds (fun x => T x ∨ T' x) fun s => g (f s) where
  sixKro s hs := hg.sixKro _ (hf.sixKro s hs)
  on s hs x hx := by
    rcases hg.on _ (hf.sixKro s hs) x hx with hx | hx
    · exact (hf.on s hs x hx).imp_right .inl
    · exact .inr (.inr hx)
  layerPressed s := (hg.layerPressed _).trans (hf.layerPressed s)

theorem Adds.mono (h : Adds T f) (hT : ∀ x, T x → T' x) : Adds T' f where
  sixKro := h.sixKro
  on s hs x hx := (h.on s hs x hx).imp_right (hT x)
  layerPressed := h.layerPressed

/-- Two functions in a row turn off what either does. -/
theorem Removes.comp (hg : Removes T' g) (hf : Removes T f) :
    Removes (fun x => T x ∨ T' x) fun s => g (f s) where
  sixKro s hs := hg.sixKro _ (hf.sixKro s hs)
  on s hs x hx := by
    obtain ⟨hx', hn'⟩ := hg.on _ (hf.sixKro s hs) x hx
    obtain ⟨hx'', hn⟩ := hf.on s hs x hx'
    exact ⟨hx'', fun h => h.elim hn hn'⟩
  layerPressed s := (hg.layerPressed _).trans (hf.layerPressed s)

theorem Removes.mono (h : Removes T f) (hT : ∀ x, T' x → T x) : Removes T' f where
  sixKro := h.sixKro
  on s hs x hx := ⟨(h.on s hs x hx).1, fun ht => (h.on s hs x hx).2 (hT x ht)⟩
  layerPressed := h.layerPressed

/-- A function that turns on nothing adds nothing but `T`, for any `T`. -/
theorem Removes.adds (h : Removes T f) (T' : Item → Prop) : Adds T' f where
  sixKro := h.sixKro
  on s hs x hx := .inl (h.on s hs x hx).1
  layerPressed := h.layerPressed

/-- What was only just turned on is turned off again. -/
theorem Removes.after_adds (hg : Removes T g) (hf : Adds T f) : Removes T fun s => g (f s) where
  sixKro s hs := hg.sixKro _ (hf.sixKro s hs)
  on s hs x hx := by
    obtain ⟨hx', hn⟩ := hg.on _ (hf.sixKro s hs) x hx
    exact ⟨(hf.on s hs x hx').resolve_right hn, hn⟩
  layerPressed s := (hg.layerPressed _).trans (hf.layerPressed s)

theorem Adds.ite {p : ActionState → Prop} [∀ s, Decidable (p s)] (hf : Adds T f) (hg : Adds T g) :
    Adds T fun s => if p s then f s else g s where
  sixKro s hs := by
    split
    · exact hf.sixKro s hs
    · exact hg.sixKro s hs
  on s hs x hx := by
    split at hx
    · exact hf.on s hs x hx
    · exact hg.on s hs x hx
  layerPressed s := by
    split
    · exact hf.layerPressed s
    · exact hg.layerPressed s

theorem Removes.ite {p : ActionState → Prop} [∀ s, Decidable (p s)] (hf : Removes T f)
    (hg : Removes T g) : Removes T fun s => if p s then f s else g s where
  sixKro s hs := by
    split
    · exact hf.sixKro s hs
    · exact hg.sixKro s hs
  on s hs x hx := by
    split at hx
    · exact hf.on s hs x hx
    · exact hg.on s hs x hx
  layerPressed s := by
    split
    · exact hf.layerPressed s
    · exact hg.layerPressed s

theorem removes_nothing_id : Removes nothing fun s => s where
  sixKro _ hs := hs
  on _ _ _ hx := ⟨hx, id⟩
  layerPressed _ := rfl

/-- A function that only changes what no item reads. -/
theorem removes_nothing (hmods : ∀ s, (f s).realMods = s.realMods)
    (hweak : ∀ s, (f s).weakMods = s.weakMods) (hlayer : ∀ s, (f s).layerState = s.layerState)
    (hpressed : ∀ s, (f s).layerPressed = s.layerPressed)
    (hreport : ∀ s, (f s).keyReport = s.keyReport) (hnkro : ∀ s, (f s).nkroActive = s.nkroActive) :
    Removes nothing f where
  sixKro s hs := by
    refine ⟨(hnkro s).trans hs.nkro, ?_, ?_⟩
    · rw [hreport]
      exact hs.ring
    · rw [hreport]
      exact hs.outside
  on s _ x hx := by
    refine ⟨?_, id⟩
    cases x <;> simpa only [ActionState.On, hmods, hweak, hlayer, hreport] using hx
  layerPressed := hpressed

end Rules

/-! ## Modifiers and layers -/

def modBits (m : BitVec 8) : Item → Prop
  | .mod i => m.getLsbD i = true
  | _ => False

def weakBits (m : BitVec 8) : Item → Prop
  | .weakMod i => m.getLsbD i = true
  | _ => False

def layerBits (b : BitVec 32) : Item → Prop
  | .layer i => b.getLsbD i = true
  | _ => False

/-- A function that only changes the modifiers or the layers. -/
theorem sixKro_of_report {s s' : ActionState} (hs : SixKro s) (hr : s'.keyReport = s.keyReport)
    (hn : s'.nkroActive = s.nkroActive) : SixKro s' :=
  ⟨hn.trans hs.nkro, by rw [hr]; exact hs.ring, by rw [hr]; exact hs.outside⟩

theorem raw_init (j : Nat) : ({} : KeyReport).raw[j]?.getD 0 = 0 := by
  rw [Vector.getElem?_replicate]
  split <;> rfl

theorem sixKro_init : SixKro {} := ⟨rfl, ⟨_, rep_init⟩, fun j _ _ => raw_init j⟩

/-- Recording the layer of a press does not touch the report. -/
theorem sixKro_track {K : Keymap} {s : ActionState} (hs : SixKro s) (e : KeyEvent) :
    SixKro (s.track K e) := by
  unfold ActionState.track
  split
  · exact sixKro_of_report hs rfl rfl
  · exact hs

/-- Adding modifiers turns on those and nothing else. -/
theorem adds_addMods (m : BitVec 8) : Adds (modBits m) (·.addMods m) where
  sixKro s hs := sixKro_of_report hs rfl rfl
  on s _ x hx := by
    cases x with
    | mod i => simpa [ActionState.On, ActionState.addMods, modBits] using hx
    | weakMod i => exact .inl hx
    | code c => exact .inl hx
    | layer i => exact .inl hx
  layerPressed _ := rfl

/-- Removing modifiers turns those off. -/
theorem removes_delMods (m : BitVec 8) : Removes (modBits m) (·.delMods m) where
  sixKro s hs := sixKro_of_report hs rfl rfl
  on s _ x hx := by
    cases x with
    | mod i =>
      simp only [ActionState.On, ActionState.delMods, BitVec.getLsbD_and, Bool.and_eq_true,
        BitVec.getLsbD_not, Bool.not_eq_true', decide_eq_true_eq] at hx
      exact ⟨hx.1, fun h => by rw [modBits, hx.2.2] at h; simp at h⟩
    | weakMod i => exact ⟨hx, id⟩
    | code c => exact ⟨hx, id⟩
    | layer i => exact ⟨hx, id⟩
  layerPressed _ := rfl

theorem adds_addWeakMods (m : BitVec 8) : Adds (weakBits m) (·.addWeakMods m) where
  sixKro s hs := sixKro_of_report hs rfl rfl
  on s _ x hx := by
    cases x with
    | weakMod i => simpa [ActionState.On, ActionState.addWeakMods, weakBits] using hx
    | mod i => exact .inl hx
    | code c => exact .inl hx
    | layer i => exact .inl hx
  layerPressed _ := rfl

theorem removes_delWeakMods (m : BitVec 8) : Removes (weakBits m) (·.delWeakMods m) where
  sixKro s hs := sixKro_of_report hs rfl rfl
  on s _ x hx := by
    cases x with
    | weakMod i =>
      simp only [ActionState.On, ActionState.delWeakMods, BitVec.getLsbD_and, Bool.and_eq_true,
        BitVec.getLsbD_not, Bool.not_eq_true', decide_eq_true_eq] at hx
      exact ⟨hx.1, fun h => by rw [weakBits, hx.2.2] at h; simp at h⟩
    | mod i => exact ⟨hx, id⟩
    | code c => exact ⟨hx, id⟩
    | layer i => exact ⟨hx, id⟩
  layerPressed _ := rfl

/-- Turning a layer on turns on that layer. -/
theorem adds_layerOn (l : Nat) : Adds (layerBits (1#32 <<< l)) (·.layerOn l) where
  sixKro s hs := sixKro_of_report hs rfl rfl
  on s _ x hx := by
    cases x with
    | layer i =>
      simp only [ActionState.On, ActionState.layerOn, BitVec.getLsbD_or, Bool.or_eq_true] at hx
      exact hx
    | mod i => exact .inl hx
    | weakMod i => exact .inl hx
    | code c => exact .inl hx
  layerPressed _ := rfl

/-- Turning a layer off turns off that layer. -/
theorem removes_layerOff (l : Nat) : Removes (layerBits (1#32 <<< l)) (·.layerOff l) where
  sixKro s hs := sixKro_of_report hs rfl rfl
  on s _ x hx := by
    cases x with
    | layer i =>
      simp only [ActionState.On, ActionState.layerOff, BitVec.getLsbD_and, Bool.and_eq_true] at hx
      refine ⟨hx.1, fun h => ?_⟩
      rw [layerBits] at h
      simp [h] at hx
    | mod i => exact ⟨hx, id⟩
    | weakMod i => exact ⟨hx, id⟩
    | code c => exact ⟨hx, id⟩
  layerPressed _ := rfl

/-! ## The report -/

theorem KeyReport.key_setMods (r : KeyReport) (m : BitVec 8) : (r.setMods m).key = r.key := by
  funext i
  simp only [key, setMods, Vector.getElem?_setIfInBounds]
  rw [if_neg (by omega)]

theorem KeyReport.Rep.setMods {r : KeyReport} {xs : List (BitVec 8)} (h : Rep r xs) (m : BitVec 8) :
    Rep (r.setMods m) xs :=
  ⟨h.head, h.fits, h.tail, by rw [key_setMods]; exact h.slots, h.count, h.last, h.home, h.nodup⟩

/-- Writing the modifiers of the report turns nothing on. -/
theorem removes_setMods (m : ActionState → BitVec 8) :
    Removes nothing fun s => { s with keyReport := s.keyReport.setMods (m s) } where
  sixKro s hs := by
    obtain ⟨xs, hrep⟩ := hs.ring
    have hout := hs.outside
    refine ⟨hs.nkro, ⟨xs, hrep.setMods _⟩, fun j h0 hj => ?_⟩
    simp only [setMods, Vector.getElem?_setIfInBounds]
    rw [if_neg (Ne.symm h0)]
    exact hout j h0 hj
  on s _ x hx := by
    refine ⟨?_, id⟩
    cases x with
    | code c => simpa only [ActionState.On, key_setMods] using hx
    | mod i => exact hx
    | weakMod i => exact hx
    | layer i => exact hx
  layerPressed _ := rfl

theorem removes_hostKeyboardSend : Removes nothing ActionState.hostKeyboardSend :=
  removes_nothing (fun _ => rfl) (fun _ => rfl) (fun _ => rfl) (fun _ => rfl) (fun _ => rfl)
    fun _ => rfl

theorem removes_clearOneshotMods : Removes nothing ActionState.clearOneshotMods :=
  removes_nothing (fun _ => rfl) (fun _ => rfl) (fun _ => rfl) (fun _ => rfl) (fun _ => rfl)
    fun _ => rfl

/-- Two functions that turn nothing on, in a row, are one. -/
theorem Removes.then_nothing {f g : ActionState → ActionState} (hg : Removes nothing g)
    (hf : Removes nothing f) : Removes nothing fun s => g (f s) :=
  (hg.comp hf).mono fun _ h => h.elim

/-- Sending the keyboard report turns nothing on. -/
theorem removes_sendKeyboardReport : Removes nothing ActionState.sendKeyboardReport := by
  refine removes_hostKeyboardSend.then_nothing (f := fun s => if s.oneshotMods ≠ 0 then _ else _)
    (Removes.ite (p := fun s : ActionState => s.oneshotMods ≠ 0) ?_ (removes_setMods _))
  exact (Removes.ite (p := fun s : ActionState => s.keyReport.hasAnykey ≠ 0)
    removes_clearOneshotMods removes_nothing_id).then_nothing (removes_setMods fun s =>
      s.realMods ||| s.weakMods ||| s.oneshotMods)

/-- One operation on the ring is one on its list of codes. -/
theorem SixKro.apply {s : ActionState} (hs : SixKro s) (op : KeyOp) :
    ∃ r' xs xs', op.apply s = { s with keyReport := r' } ∧ Rep s.keyReport xs ∧ Rep r' xs' ∧
      held xs' = op.onList (held xs) ∧ SixKro (op.apply s) := by
  obtain ⟨xs, hrep⟩ := hs.ring
  obtain ⟨r', xs', hring, hrep', hheld, hsame⟩ := op.ring_spec hrep
  have happly := op.apply_spec hs.nkro hring
  refine ⟨r', xs, xs', happly, hrep, hrep', hheld, ?_⟩
  rw [happly]
  refine ⟨hs.nkro, ⟨xs', hrep'⟩, fun j h0 hj => ?_⟩
  have hout := hs.outside j h0 hj
  rw [hsame j hj]
  exact hout

/-- A code is on when it is in the ring. -/
theorem on_code_iff {s : ActionState} {xs : List (BitVec 8)} (h : Rep s.keyReport xs)
    (c : BitVec 8) : s.On (.code c) ↔ c ≠ 0 ∧ c ∈ held xs := by
  constructor
  · rintro ⟨hc, hj⟩
    exact ⟨hc, (h.mem_slots hc).mp hj⟩
  · rintro ⟨hc, hin⟩
    exact ⟨hc, (h.mem_slots hc).mpr hin⟩

/-- `add_key` turns on its code. -/
theorem adds_addKey {c : BitVec 8} (hc : c ≠ 0) : Adds (· = .code c) (·.addKey c) where
  sixKro s hs := (hs.apply (.add ⟨c, hc⟩)).choose_spec.choose_spec.choose_spec.2.2.2.2
  on s hs x hx := by
    obtain ⟨r', xs, xs', happly, hrep, hrep', hheld, -⟩ := hs.apply (.add ⟨c, hc⟩)
    have happly' : s.addKey c = { s with keyReport := r' } := happly
    rw [happly'] at hx
    cases x with
    | code d =>
      obtain ⟨hd, hin⟩ := (on_code_iff (s := { s with keyReport := r' }) hrep' d).mp hx
      rw [hheld] at hin
      rcases mem_of_mem_recent hin with hin | rfl
      · exact .inl ((on_code_iff hrep d).mpr ⟨hd, hin⟩)
      · exact .inr rfl
    | mod i => exact .inl hx
    | weakMod i => exact .inl hx
    | layer i => exact .inl hx
  layerPressed _ := rfl

/-- `del_key` turns off its code. -/
theorem removes_delKey {c : BitVec 8} (hc : c ≠ 0) : Removes (· = .code c) (·.delKey c) where
  sixKro s hs := (hs.apply (.del ⟨c, hc⟩)).choose_spec.choose_spec.choose_spec.2.2.2.2
  on s hs x hx := by
    obtain ⟨r', xs, xs', happly, hrep, hrep', hheld, -⟩ := hs.apply (.del ⟨c, hc⟩)
    have happly' : s.delKey c = { s with keyReport := r' } := happly
    rw [happly'] at hx
    cases x with
    | code d =>
      obtain ⟨hd, hin⟩ := (on_code_iff (s := { s with keyReport := r' }) hrep' d).mp hx
      rw [hheld] at hin
      refine ⟨(on_code_iff hrep d).mpr ⟨hd, List.mem_of_mem_erase hin⟩, fun he => ?_⟩
      obtain rfl : d = c := by simpa using he
      exact hrep.nodup.not_mem_erase hin
    | mod i => exact ⟨hx, by simp⟩
    | weakMod i => exact ⟨hx, by simp⟩
    | layer i => exact ⟨hx, by simp⟩
  layerPressed _ := rfl

/-! ## Codes -/

/-- What `register_code` turns on for longer than the call. -/
def turnedByCode (code : BitVec 8) : Item → Prop
  | .code c => c = code ∧ lockingKey code = none ∧ isKey code = true
  | .mod i => isMod code = true ∧ (modBit code).getLsbD i = true
  | _ => False

theorem isKey_ne_zero {code : BitVec 8} (h : isKey code = true) : code ≠ 0 := by
  rintro rfl
  simp [isKey] at h

theorem isMod_spec {code : BitVec 8} (h : isMod code = true) :
    code ≠ kcNo ∧ lockingKey code = none ∧ isKey code = false := by
  simp only [isMod, Bool.and_eq_true, decide_eq_true_eq, BitVec.le_def, BitVec.toNat_ofNat] at h
  have hne : ∀ c : BitVec 8, c.toNat < 0xE0 → code ≠ c := by
    rintro c hc rfl
    omega
  refine ⟨hne _ (by decide), ?_, ?_⟩
  · rw [lockingKey, if_neg (hne _ (by decide)), if_neg (hne _ (by decide)),
      if_neg (hne _ (by decide))]
  · simp only [isKey, Bool.and_eq_false_iff, decide_eq_false_iff_not, BitVec.le_def,
      BitVec.toNat_ofNat]
    omega

theorem lockingKey_ne_zero {code c l : BitVec 8} (h : lockingKey code = some (c, l)) : c ≠ 0 := by
  unfold lockingKey at h
  split_ifs at h <;> (obtain ⟨rfl, -⟩ := Prod.mk.inj (Option.some.inj h); decide)

/-- Tapping a locking key turns nothing on. -/
theorem removes_tapLock {c : BitVec 8} (hc : c ≠ 0) : Removes nothing (·.tapLock c) := by
  have h := removes_sendKeyboardReport.comp <|
    (removes_delKey hc).after_adds <|
      ((removes_sendKeyboardReport.adds (· = .code c)).comp (adds_addKey hc)).mono
        fun x hx => hx.elim id id
  exact h.mono fun x hx => hx.elim

theorem removes_hostSystemSend (c : BitVec 16) : Removes nothing (·.hostSystemSend c) := by
  refine removes_nothing ?_ ?_ ?_ ?_ ?_ ?_ <;> intro s <;> unfold ActionState.hostSystemSend <;>
    split <;> rfl

theorem removes_hostConsumerSend (c : BitVec 16) : Removes nothing (·.hostConsumerSend c) := by
  refine removes_nothing ?_ ?_ ?_ ?_ ?_ ?_ <;> intro s <;> unfold ActionState.hostConsumerSend <;>
    split <;> rfl

/-- `register_code` turns on what the code stands for, for each kind of code. -/
theorem adds_registerCode (code : BitVec 8) : Adds (turnedByCode code) (·.registerCode code) := by
  have hid := removes_nothing_id.adds (turnedByCode code)
  unfold ActionState.registerCode
  refine Adds.ite (p := fun _ => code = kcNo) hid ?_
  cases hlock : lockingKey code with
  | some cl =>
    exact Adds.ite (p := fun s : ActionState => s.leds &&& cl.2 ≠ 0) hid
      ((removes_tapLock (lockingKey_ne_zero hlock)).adds _)
  | none =>
    by_cases hkey : isKey code = true
    · simp only [hkey, if_true]
      refine ((removes_sendKeyboardReport.adds nothing).comp
        (adds_addKey (isKey_ne_zero hkey))).mono fun x hx => ?_
      rcases hx with rfl | hx
      · exact ⟨rfl, hlock, hkey⟩
      · exact hx.elim
    · by_cases hmod : isMod code = true
      · simp only [hkey, hmod, if_true, Bool.false_eq_true, if_false]
        refine ((removes_sendKeyboardReport.adds nothing).comp
          (adds_addMods (modBit code))).mono fun x hx => ?_
        rcases hx with hx | hx
        · cases x with
          | mod i => exact ⟨hmod, hx⟩
          | _ => exact hx.elim
        · exact hx.elim
      · simp only [hkey, hmod, Bool.false_eq_true, if_false]
        exact Adds.ite (p := fun _ => isSystem code = true)
          ((removes_hostSystemSend _).adds _)
          (Adds.ite (p := fun _ => isConsumer code = true)
            ((removes_hostConsumerSend _).adds _) hid)

/-- `unregister_code` turns off what the code stands for, for each kind of code. -/
theorem removes_unregisterCode (code : BitVec 8) :
    Removes (turnedByCode code) (·.unregisterCode code) := by
  unfold ActionState.unregisterCode
  by_cases hno : code = kcNo
  · simp only [hno, if_true]
    refine removes_nothing_id.mono fun x hx => ?_
    cases x with
    | code c => exact isKey_ne_zero hx.2.2 rfl
    | mod i => exact (isMod_spec hx.1).1 rfl
    | _ => exact hx
  simp only [hno, if_false]
  cases hlock : lockingKey code with
  | some cl =>
    -- a locking key sends a tap of its own, and nothing of it is held
    have hnone : ∀ x, turnedByCode code x → nothing x := fun x hx => by
      cases x with
      | code c =>
        rw [turnedByCode, hlock] at hx
        simp at hx
      | mod i =>
        have hl := (isMod_spec hx.1).2.1
        rw [hlock] at hl
        simp at hl
      | _ => exact hx
    exact Removes.ite (p := fun s : ActionState => s.leds &&& cl.2 = 0)
      (removes_nothing_id.mono hnone) ((removes_tapLock (lockingKey_ne_zero hlock)).mono hnone)
  | none =>
    by_cases hkey : isKey code = true
    · simp only [hkey, if_true]
      refine (removes_sendKeyboardReport.comp (removes_delKey (isKey_ne_zero hkey))).mono
        fun x hx => .inl ?_
      cases x with
      | code c => rw [hx.1]
      | mod i =>
        have hk := (isMod_spec hx.1).2.2
        rw [hkey] at hk
        simp at hk
      | _ => exact hx.elim
    · by_cases hmod : isMod code = true
      · simp only [hkey, hmod, if_true, Bool.false_eq_true, if_false]
        refine (removes_sendKeyboardReport.comp (removes_delMods (modBit code))).mono
          fun x hx => .inl ?_
        cases x with
        | code c => exact absurd hx.2.2 hkey
        | mod i => exact hx.2
        | _ => exact hx.elim
      · simp only [hkey, hmod, Bool.false_eq_true, if_false]
        have hnone : ∀ x, turnedByCode code x → nothing x := fun x hx => by
          cases x with
          | code c => exact hkey hx.2.2
          | mod i => exact hmod hx.1
          | _ => exact hx
        exact Removes.ite (p := fun _ => isSystem code = true)
          ((removes_hostSystemSend _).mono hnone)
          (Removes.ite (p := fun _ => isConsumer code = true)
            ((removes_hostConsumerSend _).mono hnone) (removes_nothing_id.mono hnone))

theorem adds_registerMods (m : BitVec 8) : Adds (modBits m) (·.registerMods m) := by
  unfold ActionState.registerMods
  refine Adds.ite (p := fun _ => m ≠ 0) ?_ (removes_nothing_id.adds _)
  exact ((removes_sendKeyboardReport.adds nothing).comp (adds_addMods m)).mono
    fun x hx => hx.elim id False.elim

theorem removes_unregisterMods (m : BitVec 8) : Removes (modBits m) (·.unregisterMods m) := by
  unfold ActionState.unregisterMods
  by_cases hm : m = 0
  · simp only [hm, ne_eq, not_true_eq_false, if_false]
    refine removes_nothing_id.mono fun x hx => ?_
    cases x with
    | mod i => simp [modBits] at hx
    | _ => exact hx
  · simp only [ne_eq, hm, not_false_eq_true, if_true]
    exact (removes_sendKeyboardReport.comp (removes_delMods m)).mono fun x hx => .inl hx

/-! ## Ordinary actions -/

/-- Keys and modifiers, modifier tap keys and layer tap keys with a tap
code, and momentary layers. -/
def Action.ordinary (a : Action) : Bool :=
  match a.kindId with
  | .lmods | .rmods => true
  | .lmodsTap | .rmodsTap => a.keyCode != modsOneshot && a.keyCode != modsTapToggle
  | .layerTap | .layerTapExt =>
    !isLayerMods a.layerTapCode && a.layerTapCode != opTapToggle && a.layerTapCode != opOffOn &&
      a.layerTapCode != opSetClear
  | _ => false

/-- What a key with an ordinary action turns on while it is down; `tapped`
if it was executed as a tap. -/
def Action.turned (a : Action) (tapped : Bool) : Item → Prop :=
  match a.kindId with
  | .lmods => fun x => weakBits (sideMods a.keyMods true) x ∨ turnedByCode a.keyCode x
  | .rmods => fun x => weakBits (sideMods a.keyMods false) x ∨ turnedByCode a.keyCode x
  | .lmodsTap => if tapped then turnedByCode a.keyCode else modBits (sideMods a.keyMods true)
  | .rmodsTap => if tapped then turnedByCode a.keyCode else modBits (sideMods a.keyMods false)
  | .layerTap | .layerTapExt =>
    if a.layerTapCode = opOnOff then layerBits (1#32 <<< a.layerTapVal.toNat)
    else if tapped then turnedByCode a.layerTapCode
    else layerBits (1#32 <<< a.layerTapVal.toNat)
  | _ => nothing

/-- The press of a modified key turns on its modifiers and its code. -/
theorem adds_doMods (m code : BitVec 8) :
    Adds (fun x => weakBits m x ∨ turnedByCode code x) (·.doMods m code true) := by
  have hweak : Adds (weakBits m) fun s =>
    if m ≠ 0 then (s.addWeakMods m).sendKeyboardReport else s :=
    Adds.ite (p := fun _ => m ≠ 0)
      (((removes_sendKeyboardReport.adds nothing).comp (adds_addWeakMods m)).mono
        fun x hx => hx.elim id False.elim)
      (removes_nothing_id.adds _)
  exact (adds_registerCode code).comp hweak

/-- The release of a modified key turns both off. -/
theorem removes_doMods (m code : BitVec 8) :
    Removes (fun x => weakBits m x ∨ turnedByCode code x) (·.doMods m code false) := by
  have hweak : Removes (weakBits m)
      fun s => if m ≠ 0 then (s.delWeakMods m).sendKeyboardReport else s := by
    by_cases hm : m = 0
    · simp only [hm, ne_eq, not_true_eq_false, if_false]
      refine removes_nothing_id.mono fun x hx => ?_
      cases x with
      | weakMod i => simp [weakBits] at hx
      | _ => exact hx
    · simp only [ne_eq, hm, not_false_eq_true, if_true]
      exact (removes_sendKeyboardReport.comp (removes_delWeakMods m)).mono fun x hx => .inl hx
  exact (hweak.comp (removes_unregisterCode code)).mono fun x hx => hx.symm

/-- The press of a modifier tap key; an interrupted tap is a hold. -/
theorem adds_doModsTap (m code : BitVec 8) (tap : Tap) (tapped : Bool)
    (h : tapped = true ↔ tap.count > 0 ∧ tap.interrupted = false) :
    Adds (if tapped then turnedByCode code else modBits m) (·.doModsTap m code true tap) := by
  unfold ActionState.doModsTap
  simp only [if_true]
  by_cases hc : tap.count > 0
  · cases hi : tap.interrupted with
    | true =>
      obtain rfl : tapped = false := by simpa [hc, hi] using h
      simp only [hc, if_true, Bool.false_eq_true, if_false]
      exact adds_registerMods m
    | false =>
      obtain rfl : tapped = true := h.mpr ⟨hc, hi⟩
      simp only [hc, if_true, Bool.false_eq_true, if_false]
      exact adds_registerCode code
  · obtain rfl : tapped = false := by simpa [hc] using h
    simp only [hc, Bool.false_eq_true, if_false]
    exact adds_registerMods m

/-- The release of a modifier with a tap code turns off the one that its count
says. -/
theorem removes_doModsTap (m code : BitVec 8) (tap : Tap) :
    Removes (if (tap.count != 0) then turnedByCode code else modBits m)
      (·.doModsTap m code false tap) := by
  unfold ActionState.doModsTap
  simp only [Bool.false_eq_true, if_false]
  by_cases hc : tap.count > 0
  · have hne : (tap.count != 0) = true := by simp; omega
    simp only [hc, hne, if_true]
    exact removes_unregisterCode code
  · have hne : (tap.count != 0) = false := by simp; omega
    simp only [hc, hne, Bool.false_eq_true, if_false]
    exact removes_unregisterMods m

/-- The layer tap keys that are ordinary: a momentary layer or a tap
code. -/
theorem adds_doLayerTap (val : Nat) (code : BitVec 8) (n : Nat) (tapped : Bool)
    (h : tapped = true ↔ n > 0)
    (hord : (!isLayerMods code && code != opTapToggle && code != opOffOn &&
      code != opSetClear) = true) :
    Adds (if code = opOnOff then layerBits (1#32 <<< val)
      else if tapped then turnedByCode code else layerBits (1#32 <<< val))
      (·.doLayerTap val code true n) := by
  simp only [Bool.and_eq_true, Bool.not_eq_true', bne_iff_ne, ne_eq] at hord
  unfold ActionState.doLayerTap
  simp only [hord.1.1.1, hord.1.1.2, hord.1.2, hord.2, if_true, Bool.false_eq_true, if_false]
  by_cases hon : code = opOnOff
  · simp only [hon, if_true]
    exact adds_layerOn val
  · simp only [hon, if_false]
    by_cases hn : n > 0
    · simp only [hn, h.mpr hn, if_true]
      exact adds_registerCode code
    · obtain rfl : tapped = false := by simpa [hn] using h
      simp only [hn, Bool.false_eq_true, if_false]
      exact adds_layerOn val

/-- The release of an ordinary layer-tap key turns off its layer or its code, as
the count says. -/
theorem removes_doLayerTap (val : Nat) (code : BitVec 8) (n : Nat)
    (hord : (!isLayerMods code && code != opTapToggle && code != opOffOn &&
      code != opSetClear) = true) :
    Removes (if code = opOnOff then layerBits (1#32 <<< val)
      else if (n != 0) then turnedByCode code else layerBits (1#32 <<< val))
      (·.doLayerTap val code false n) := by
  simp only [Bool.and_eq_true, Bool.not_eq_true', bne_iff_ne, ne_eq] at hord
  unfold ActionState.doLayerTap
  simp only [hord.1.1.1, hord.1.1.2, hord.1.2, hord.2, Bool.false_eq_true, if_false]
  by_cases hon : code = opOnOff
  · simp only [hon, if_true]
    exact removes_layerOff val
  · simp only [hon, if_false]
    by_cases hn : n > 0
    · have hne : (n != 0) = true := by simp; omega
      simp only [hn, hne, if_true]
      exact removes_unregisterCode code
    · have hne : (n != 0) = false := by simp; omega
      simp only [hn, hne, Bool.false_eq_true, if_false]
      exact removes_layerOff val

namespace Action

variable {a : Action}

/-- The tap code of a modifier tap key is an ordinary one. -/
theorem ordinary_mods (hord : a.ordinary = true)
    (hk : a.kindId = .lmodsTap ∨ a.kindId = .rmodsTap) :
    a.keyCode ≠ modsOneshot ∧ a.keyCode ≠ modsTapToggle ∧ a.isModsTapKey = true := by
  have hord' : (a.keyCode != modsOneshot && a.keyCode != modsTapToggle) = true := by
    rcases hk with hk | hk <;> simpa only [ordinary, hk] using hord
  have hkey : a.isModsTapKey = true := by
    rw [isModsTapKey, Bool.and_assoc, hord', Bool.and_true]
    rcases hk with hk | hk <;> simp [hk]
  simp only [Bool.and_eq_true, bne_iff_ne, ne_eq] at hord'
  exact ⟨hord'.1, hord'.2, hkey⟩

theorem isModsTapKey_of_layer (hk : a.kindId = .layerTap ∨ a.kindId = .layerTapExt) :
    a.isModsTapKey = false := by
  rcases hk with hk | hk <;> simp [isModsTapKey, hk]

/-- **A press turns on what its action turns on.** An interrupted tap of
a modifier tap key is a hold. -/
theorem perform_adds (hord : a.ordinary = true) (tap : Tap) (tapped : Bool)
    (h : tapped = true ↔ tap.count > 0 ∧ ¬(a.isModsTapKey = true ∧ tap.interrupted = true)) :
    Adds (a.turned tapped) (·.perform a true tap) := by
  have hmods : ∀ m, a.kindId = .lmodsTap ∨ a.kindId = .rmodsTap →
      Adds (if tapped then turnedByCode a.keyCode else modBits m)
        fun s => ActionState.perform.tapMods s a true tap m := by
    intro m hk
    obtain ⟨hone, htoggle, hkey⟩ := ordinary_mods hord hk
    simp only [hkey, true_and, Bool.not_eq_true] at h
    unfold ActionState.perform.tapMods
    simp only [hone, htoggle, if_false]
    exact adds_doModsTap m _ tap tapped h
  have hlayer : ∀ l, a.kindId = .layerTap ∨ a.kindId = .layerTapExt →
      Adds (if a.layerTapCode = opOnOff then layerBits (1#32 <<< l)
        else if tapped then turnedByCode a.layerTapCode else layerBits (1#32 <<< l))
        (·.doLayerTap l a.layerTapCode true tap.count) := by
    intro l hk
    have hcount : tapped = true ↔ tap.count > 0 := by
      simpa [isModsTapKey_of_layer hk] using h
    refine adds_doLayerTap l _ _ tapped hcount ?_
    rcases hk with hk | hk <;> simpa only [ordinary, hk] using hord
  cases hk : a.kindId <;> simp only [ActionState.perform, turned, hk]
  case lmods | rmods => exact adds_doMods _ _
  case lmodsTap | rmodsTap => exact hmods _ (by simp [hk])
  case layerTap | layerTapExt => exact hlayer _ (by simp [hk])
  all_goals
    rw [ordinary, hk] at hord
    simp at hord

/-- **A release turns off what its action turned on.** -/
theorem perform_removes (hord : a.ordinary = true) (tap : Tap) :
    Removes (a.turned (tap.count != 0)) (·.perform a false tap) := by
  have hmods : ∀ m, a.kindId = .lmodsTap ∨ a.kindId = .rmodsTap →
      Removes (if (tap.count != 0) then turnedByCode a.keyCode else modBits m)
        fun s => ActionState.perform.tapMods s a false tap m := by
    intro m hk
    obtain ⟨hone, htoggle, -⟩ := ordinary_mods hord hk
    unfold ActionState.perform.tapMods
    simp only [hone, htoggle, if_false]
    exact removes_doModsTap m _ tap
  have hlayer : ∀ l, a.kindId = .layerTap ∨ a.kindId = .layerTapExt →
      Removes (if a.layerTapCode = opOnOff then layerBits (1#32 <<< l)
        else if (tap.count != 0) then turnedByCode a.layerTapCode else layerBits (1#32 <<< l))
        (·.doLayerTap l a.layerTapCode false tap.count) := by
    intro l hk
    refine removes_doLayerTap l _ _ ?_
    rcases hk with hk | hk <;> simpa only [ordinary, hk] using hord
  cases hk : a.kindId <;> simp only [ActionState.perform, turned, hk]
  case lmods | rmods => exact removes_doMods _ _
  case lmodsTap | rmodsTap => exact hmods _ (by simp [hk])
  case layerTap | layerTapExt => exact hlayer _ (by simp [hk])
  all_goals
    rw [ordinary, hk] at hord
    simp at hord

end Action

end Ch583Kbd.Tmk
