/-
Ch583Kbd.Tmk.LayerLookup — `layer_switch_get_action` over runs.

`LookupEntry` says in words what the descending search is for: the entry of
the greatest active layer where the key is not transparent, or else the
entry of layer 0. A release is looked up in `layer_pressed`, which only the
presses of the same key write, so what happens to the layers and to the
other keys in between does not matter to it.
-/
import Ch583Kbd.Tmk.LayerPressed

namespace Ch583Kbd.Tmk

/-! ## The search -/

/-- The layer is set in `layer_state` or in `default_layer_state`. -/
def ActionState.active (s : ActionState) (i : Nat) : Prop :=
  s.layerState.getLsbD i = true ∨ s.defaultLayerState.getLsbD i = true

instance (s : ActionState) (i : Nat) : Decidable (s.active i) := inferInstanceAs (Decidable (_ ∨ _))

/-- The entry that the layers give a key. -/
inductive LookupEntry (K : Keymap) (s : ActionState) (key : KeyPos) : Action → Prop where
  | active (i : Nat) (hi : i < 32) (hactive : s.active i)
      (hentry : K (BitVec.ofNat 8 i) key ≠ Action.transparent)
      (htop : ∀ j < 32, i < j → s.active j → K (BitVec.ofNat 8 j) key = Action.transparent) :
      LookupEntry K s key (K (BitVec.ofNat 8 i) key)
  | fallback (hall : ∀ i < 32, s.active i → K (BitVec.ofNat 8 i) key = Action.transparent) :
      LookupEntry K s key (K 0 key)

section Search

variable (K : Keymap) (layers : BitVec 32) (key : KeyPos)

/-- The search from `n - 1` down stops at the first layer with an entry. -/
theorem topLayer_spec (n : Nat) :
    (∃ i < n, layers.getLsbD i = true ∧ K (BitVec.ofNat 8 i) key ≠ Action.transparent ∧
      (∀ j < n, i < j → layers.getLsbD j = true → K (BitVec.ofNat 8 j) key = Action.transparent) ∧
      topLayer K layers key n = BitVec.ofNat 8 i) ∨
    ((∀ i < n, layers.getLsbD i = true → K (BitVec.ofNat 8 i) key = Action.transparent) ∧
      topLayer K layers key n = 0) := by
  induction n with
  | zero => exact Or.inr ⟨by simp, rfl⟩
  | succ n ih =>
    by_cases hn : layers.getLsbD n = true ∧ K (BitVec.ofNat 8 n) key ≠ Action.transparent
    · refine Or.inl ⟨n, by omega, hn.1, hn.2, fun j hj hgt => by omega, ?_⟩
      rw [topLayer, if_pos hn]
    · have hlast : layers.getLsbD n = true → K (BitVec.ofNat 8 n) key = Action.transparent := by
        simpa using hn
      rw [topLayer, if_neg hn]
      rcases ih with ⟨i, hi, hset, hentry, htop, heq⟩ | ⟨hall, heq⟩
      · refine Or.inl ⟨i, by omega, hset, hentry, fun j hj hgt hj' => ?_, heq⟩
        by_cases hjn : j = n
        · exact hjn ▸ hlast (hjn ▸ hj')
        · exact htop j (by omega) hgt hj'
      · refine Or.inr ⟨fun i hi hset => ?_, heq⟩
        by_cases hin : i = n
        · exact hin ▸ hlast (hin ▸ hset)
        · exact hall i (by omega) hset

end Search

/-- The lookup answers the highest layer that is on and not transparent there,
or layer 0. -/
theorem currentLayerForKey_lookupEntry (K : Keymap) (s : ActionState) (key : KeyPos) :
    LookupEntry K s key (K (s.currentLayerForKey K key) key) := by
  have hactive : ∀ i, (s.layerState ||| s.defaultLayerState).getLsbD i = true ↔ s.active i := by
    simp [ActionState.active]
  have hspec := topLayer_spec K (s.layerState ||| s.defaultLayerState) key 32
  simp only [hactive] at hspec
  rcases hspec with ⟨i, hi, hset, hentry, htop, heq⟩ | ⟨hall, heq⟩
  · rw [ActionState.currentLayerForKey, heq]
    exact .active i hi hset hentry htop
  · rw [ActionState.currentLayerForKey, heq]
    exact .fallback hall

/-! ## Runs -/

/-- What a run is made of. -/
inductive LookupCall where
  | getAction (event : KeyEvent)
  | setLayers (layerState defaultLayerState : BitVec 32)
  deriving DecidableEq

def LookupCall.apply (K : Keymap) (s : ActionState) : LookupCall → ActionState
  | .getAction event => (ActionState.layerSwitchGetAction K event s).2
  | .setLayers layerState defaultLayerState =>
    { s with layerState := layerState, defaultLayerState := defaultLayerState }

def runLookups (K : Keymap) (calls : List LookupCall) (s : ActionState) : ActionState :=
  calls.foldl (LookupCall.apply K) s

/-- No call is a press of the key. -/
def NoPress (key : KeyPos) (calls : List LookupCall) : Prop :=
  ∀ event, .getAction event ∈ calls → event.isPressed = true → event.key ≠ key

/-- The latest press of the key in a run from `s` recorded this layer. -/
inductive Recorded (K : Keymap) (s : ActionState) (key : KeyPos) (calls : List LookupCall) :
    BitVec 8 → Prop where
  | press (pre post : List LookupCall) (event : KeyEvent)
      (hcalls : calls = pre ++ .getAction event :: post) (hpressed : event.isPressed = true)
      (hkey : event.key = key) (hpost : NoPress key post) :
      Recorded K s key calls ((runLookups K pre s).currentLayerForKey K key)
  /-- The key was not pressed in the run. -/
  | start (hcalls : NoPress key calls) : Recorded K s key calls (s.layerPressed key)

section Runs

variable {K : Keymap} {key : KeyPos}

/-- What is not a press of the key leaves its layer. -/
theorem layerPressed_apply (s : ActionState) {call : LookupCall}
    (h : ∀ event, call = .getAction event → event.isPressed = true → event.key ≠ key) :
    (call.apply K s).layerPressed key = s.layerPressed key := by
  cases call with
  | setLayers => rfl
  | getAction event =>
    show (s.track K event).layerPressed key = _
    by_cases hp : event.isPressed = true
    · exact layerPressed_track_of_ne s (h event rfl hp)
    · rw [ActionState.track, if_neg hp]

/-- Without a press of the key its recorded layer stays. -/
theorem layerPressed_runLookups {calls : List LookupCall} :
    ∀ s : ActionState, NoPress key calls →
      (runLookups K calls s).layerPressed key = s.layerPressed key := by
  induction calls with
  | nil => exact fun _ _ => rfl
  | cons call calls ih =>
    intro s h
    have hrest : NoPress key calls := fun event hmem => h event (List.mem_cons_of_mem _ hmem)
    calc
      (runLookups K calls (call.apply K s)).layerPressed key
        = (call.apply K s).layerPressed key := ih _ hrest
      _ = s.layerPressed key :=
        layerPressed_apply s fun event he => h event (by simp [he])

/-- `layer_pressed` holds what the latest press recorded. -/
theorem Recorded.layerPressed {s : ActionState} {calls : List LookupCall} {layer : BitVec 8}
    (h : Recorded K s key calls layer) : (runLookups K calls s).layerPressed key = layer := by
  cases h with
  | start hcalls => exact layerPressed_runLookups s hcalls
  | press pre post event hcalls hpressed hkey hpost =>
    subst hkey
    have hrun : runLookups K calls s =
        runLookups K post ((runLookups K pre s).track K event) := by
      rw [hcalls, runLookups, List.foldl_append]
      rfl
    rw [hrun, layerPressed_runLookups _ hpost, layerPressed_track _ hpressed]

/-- Every run has a layer that the key's last press recorded, or the one before
the run. -/
theorem exists_recorded (K : Keymap) (key : KeyPos) (calls : List LookupCall) :
    ∀ s : ActionState, ∃ layer, Recorded K s key calls layer := by
  induction calls with
  | nil => exact fun s => ⟨_, .start (by simp [NoPress])⟩
  | cons call calls ih =>
    intro s
    obtain ⟨layer, hrec⟩ := ih (call.apply K s)
    cases hrec with
    | press pre post event hcalls hpressed hkey hpost =>
      exact ⟨_, .press (call :: pre) post event (by rw [hcalls]; rfl) hpressed hkey hpost⟩
    | start hrest =>
      by_cases hcall : ∃ event, call = .getAction event ∧ event.isPressed = true ∧ event.key = key
      · obtain ⟨event, rfl, hpressed, hkey⟩ := hcall
        exact ⟨_, .press [] calls event rfl hpressed hkey hrest⟩
      · refine ⟨_, .start fun event hmem hpressed hkey => ?_⟩
        rcases List.mem_cons.mp hmem with heq | hmem
        · exact hcall ⟨event, heq.symm, hpressed, hkey⟩
        · exact hrest event hmem hpressed hkey

end Runs

/-- **Layer resolution.** In any run, from any state, a press returns the
entry that the layers of the moment give the key, and a release the entry
at the layer that the key's latest press recorded. -/
theorem layerSwitchGetAction_run (K : Keymap) (s₀ : ActionState) (calls : List LookupCall)
    (event : KeyEvent) :
    let s := runLookups K calls s₀
    let action := (ActionState.layerSwitchGetAction K event s).1
    (event.isPressed = true → LookupEntry K s event.key action) ∧
      (event.isReleased = true → ∃ layer, Recorded K s₀ event.key calls layer ∧
        action = K layer event.key) := by
  intro s action
  constructor
  · intro hp
    have haction : action = K (s.currentLayerForKey K event.key) event.key := actionOf_press s hp
    rw [haction]
    exact currentLayerForKey_lookupEntry K s event.key
  · intro hr
    obtain ⟨layer, hrec⟩ := exists_recorded K event.key calls s₀
    have haction : action = K (s.layerPressed event.key) event.key := actionOf_release s hr
    exact ⟨layer, hrec, by rw [haction, hrec.layerPressed]⟩

end Ch583Kbd.Tmk
