/-
Ch583Kbd.Tmk.OverflowRecovery — after an overflow the firmware is as good
as new, if no key and no one-shot modifier was held.

`Alike pre s t` relates two machines that will send the same reports from
now on: they agree up to the reports `pre` that only the first has sent,
the stale slots of the waiting buffer and a timer that is not running.
Every function keeps the relation, whatever it does; so do runs, further
overflows and calls of `mousekey_task` included (`runLater_alike`).

The overflow branch resets everything the relation looks at, except the
indices of the six-key ring and the one-shot modifiers.
-/
import Ch583Kbd.Tmk.Calls
import Ch583Kbd.Tmk.SentReports

namespace Ch583Kbd.Tmk

open Ch583Kbd.Lib

variable {K : Keymap} {pre : List HostReport}

/-! ## The action layer -/

/-- The reports that `a` and `b` send from now on are the same; `a` has
sent `pre` before. -/
def SameFuture (pre : List HostReport) (a b : ActionState) : Prop :=
  ∃ lt, a = b.after pre lt ∧
    (MouseKey.still b.mouse.report = false → lt = b.mouse.lastTimer)

namespace SameFuture

open ActionState

variable {a b : ActionState}

/-- The reports of the two states differ by those sent before only. -/
theorem sent (h : SameFuture pre a b) : a.sent = pre ++ b.sent := by
  obtain ⟨lt, rfl, -⟩ := h
  rfl

/-- A plain function keeps two states alike. -/
theorem plain {f : ActionState → ActionState} (hf : Plain f) (h : SameFuture pre a b) :
    SameFuture pre (f a) (f b) := by
  obtain ⟨lt, rfl, hlt⟩ := h
  refine ⟨lt, hf.after pre lt b, fun hs => ?_⟩
  rw [hf.mouse] at hs ⊢
  exact hlt hs

/-- `mousekey_send` sets the timer of the mouse, so that it no longer differs. -/
theorem mousekeySend_after (lt : BitVec 16) (b : ActionState) :
    SameFuture pre (b.after pre lt).mousekeySend b.mousekeySend := by
  refine ⟨b.timer, ?_, fun _ => rfl⟩
  have hsend : (b.after pre lt).hostMouseSend = b.hostMouseSend.after pre lt :=
    (plain_send _).after pre lt b
  unfold ActionState.mousekeySend
  rw [hsend]
  rfl

/-- A change of the mouse that does not look at the timer, and its
report. -/
theorem mouse {f : MouseKey → MouseKey}
    (hf : ∀ m lt, f { m with lastTimer := lt } = { f m with lastTimer := lt })
    (h : SameFuture pre a b) :
    SameFuture pre { a with mouse := f a.mouse }.mousekeySend
      { b with mouse := f b.mouse }.mousekeySend := by
  obtain ⟨lt, rfl, -⟩ := h
  have hsame : ({ b.after pre lt with mouse := f (b.after pre lt).mouse } : ActionState) =
      ({ b with mouse := f b.mouse } : ActionState).after pre lt :=
    congrArg (fun m => { b.after pre lt with mouse := m }) (hf b.mouse lt)
  rw [hsame]
  exact mousekeySend_after lt _

theorem on_lastTimer (m : MouseKey) (lt : BitVec 16) (code : BitVec 8) :
    ({ m with lastTimer := lt } : MouseKey).on code = { m.on code with lastTimer := lt } := by
  unfold MouseKey.on
  split <;> rfl

theorem off_lastTimer (m : MouseKey) (lt : BitVec 16) (code : BitVec 8) :
    ({ m with lastTimer := lt } : MouseKey).off code = { m.off code with lastTimer := lt } := by
  have hrel : ({ m with lastTimer := lt } : MouseKey).release code =
      { m.release code with lastTimer := lt } := by
    unfold MouseKey.release
    dsimp only
    split <;> first | rfl | (split <;> rfl)
  simp only [MouseKey.off, hrel]
  split <;> rfl

/-- A mouse key does the same in both states. -/
theorem doMousekey (h : SameFuture pre a b) (code : BitVec 8) (pressed : Bool) :
    SameFuture pre (a.doMousekey code pressed) (b.doMousekey code pressed) := by
  cases pressed with
  | true => exact h.mouse (f := (·.on code)) fun m lt => on_lastTimer m lt code
  | false => exact h.mouse (f := (·.off code)) fun m lt => off_lastTimer m lt code

theorem plain_clear : Plain fun s : ActionState => s.clearWeakMods.clearKeys.sendKeyboardReport :=
  plain_sendKeyboardReport.comp ⟨fun _ => rfl, fun _ => rfl, fun _ _ _ => rfl⟩

/-- `clear_keyboard_but_mods` does the same in both states. -/
theorem clearKeyboardButMods (h : SameFuture pre a b) :
    SameFuture pre a.clearKeyboardButMods b.clearKeyboardButMods := by
  have hmouse := (h.plain plain_clear).mouse (f := MouseKey.clear) fun _ _ => rfl
  have hsystem := hmouse.plain (plain_hostSystemSend 0)
  have hconsumer := hsystem.plain (plain_hostConsumerSend 0)
  exact hconsumer

/-- `clear_keyboard` does the same in both states. -/
theorem clearKeyboard (h : SameFuture pre a b) :
    SameFuture pre a.clearKeyboard b.clearKeyboard :=
  clearKeyboardButMods (h.plain (f := clearMods) ⟨fun _ => rfl, fun _ => rfl, fun _ _ _ => rfl⟩)

/-- **Every action does the same in both states.** -/
theorem perform (h : SameFuture pre a b) (action : Action) (pressed : Bool) (tap : Tap) :
    SameFuture pre (a.perform action pressed tap) (b.perform action pressed tap) := by
  by_cases hm : action.kindId = .mousekey
  · unfold ActionState.perform
    simp only [hm]
    exact h.doMousekey action.keyCode pressed
  · by_cases hc : action.kindId = .command
    · unfold ActionState.perform
      simp only [hc]
      split
      · exact h.clearKeyboard
      · exact h
    · exact h.plain (plain_perform action pressed tap hm hc)

/-- Both states look up the same action. -/
theorem actionOf (h : SameFuture pre a b) (e : KeyEvent) : a.actionOf K e = b.actionOf K e := by
  obtain ⟨lt, rfl, -⟩ := h
  rfl

theorem track (h : SameFuture pre a b) (e : KeyEvent) :
    SameFuture pre (a.track K e) (b.track K e) := h.plain (plain_track K e)

/-- `process_action` executes the same action in both states and does the same. -/
theorem processAction (h : SameFuture pre a b) (r : KeyRecord) :
    (Tmk.processAction K r a).1 = (Tmk.processAction K r b).1 ∧
      SameFuture pre (Tmk.processAction K r a).2 (Tmk.processAction K r b).2 := by
  unfold Tmk.processAction
  split
  · exact ⟨rfl, h⟩
  · dsimp only
    rw [h.actionOf]
    exact ⟨rfl, (h.track r.event).perform _ _ _⟩

/-- `mousekey_task` looks at the timer only while the mouse moves. -/
theorem mousekeyTask (h : SameFuture pre a b) : SameFuture pre a.mousekeyTask b.mousekeyTask := by
  have hdue : a.mouse.due a.timer = b.mouse.due b.timer := by
    obtain ⟨lt, rfl, hlt⟩ := h
    cases hs : MouseKey.still b.mouse.report with
    | true => simp [MouseKey.due, after, hs]
    | false => simp only [MouseKey.due, after, hlt hs]
  unfold ActionState.mousekeyTask
  rw [hdue]
  split
  · exact h.mouse (f := MouseKey.advance) fun m lt => by
      unfold MouseKey.advance
      dsimp only
      split <;> rfl
  · exact h

theorem setClock (h : SameFuture pre a b) (timer : BitVec 16) (leds : BitVec 8) :
    SameFuture pre { a with timer := timer, leds := leds }
      { b with timer := timer, leds := leds } :=
  h.plain (f := fun s => { s with timer := timer, leds := leds })
    ⟨fun _ => rfl, fun _ => rfl, fun _ _ _ => rfl⟩

end SameFuture

/-! ## The tapping machine -/

/-- The machines `s` and `t` behave in the same way from now on. -/
structure Alike (pre : List HostReport) (s t : Tapping) : Prop where
  tappingKey : s.tappingKey = t.tappingKey
  buffer : s.waitingBuffer.Same t.waitingBuffer
  submitted : s.submitted = t.submitted
  act : SameFuture pre s.act t.act

/-- The same for the results of `process_tapping`. -/
structure AlikeResult (pre : List HostReport) (p q : Bool × KeyRecord × Tapping) : Prop where
  consumed : p.1 = q.1
  record : p.2.1 = q.2.1
  state : Alike pre p.2.2 q.2.2

theorem AlikeResult.ite {c : Prop} [Decidable c] {p p' q q' : Bool × KeyRecord × Tapping}
    (h : c → AlikeResult pre p q) (h' : ¬c → AlikeResult pre p' q') :
    AlikeResult pre (if c then p else p') (if c then q else q') := by
  split
  · next hc => exact h hc
  · next hc => exact h' hc

namespace Alike

open TappingState

variable {s t : Tapping}

theorem setTapping (h : Alike pre s t) (r : KeyRecord) :
    Alike pre { s with tappingKey := r } { t with tappingKey := r } :=
  ⟨rfl, h.buffer, h.submitted, h.act⟩

/-- Handing the same record over gives the same record and keeps two machines
alike. -/
theorem hand (h : Alike pre s t) (r : KeyRecord) :
    (s.hand K r).1 = (t.hand K r).1 ∧ Alike pre (s.hand K r).2 (t.hand K r).2 := by
  obtain ⟨hr, hact⟩ := h.act.processAction (K := K) r
  exact ⟨hr, h.tappingKey, h.buffer, h.submitted, hact⟩

theorem handTappingKey (h : Alike pre s t) :
    Alike pre (s.handTappingKey K) (t.handTappingKey K) := by
  obtain ⟨hr, hstate⟩ := h.hand (K := K) s.tappingKey
  rw [h.tappingKey] at hr hstate
  unfold TappingState.handTappingKey
  rw [h.tappingKey]
  dsimp only
  rw [hr]
  exact hstate.setTapping _

theorem pass (h : Alike pre s t) (r : KeyRecord) :
    AlikeResult pre (s.pass K r) (t.pass K r) := by
  obtain ⟨hr, hstate⟩ := h.hand (K := K) r
  exact ⟨rfl, hr, hstate⟩

theorem isTapKey (h : Alike pre s t) (e : KeyEvent) :
    (s.isTapKey K e).1 = (t.isTapKey K e).1 ∧
      Alike pre (s.isTapKey K e).2 (t.isTapKey K e).2 := by
  rw [isTapKey_fst, isTapKey_fst, isTapKey_snd, isTapKey_snd, h.act.actionOf]
  exact ⟨rfl, h.tappingKey, h.buffer, h.submitted, h.act.track e⟩

/-- Both machines keep the same records from being passed on. -/
theorem retains (h : Alike pre s t) (r : KeyRecord) : s.retains K r = t.retains K r := by
  unfold TappingState.retains
  rw [h.act.actionOf]

/-- Both buffers answer the same about a typed key. -/
theorem waitingBufferTyped (h : Alike pre s t) (e : KeyEvent) :
    s.waitingBufferTyped e = t.waitingBufferTyped e := by
  rw [← typed_view, ← typed_view]
  unfold typed view
  rw [h.buffer.toList]

/-- The scan of the buffer finds the same tap in both. -/
theorem scanTap (h : Alike pre s t) :
    Alike pre (s.waitingBufferScanTap K) (t.waitingBufferScanTap K) := by
  have hfind := h.buffer.find fun x => t.settledBy x
  have hpred : (fun i => t.settledBy (s.waitingBuffer.slot i)) = fun i =>
      s.isTappingKey (s.waitingBuffer.slot i).event.key &&
        !(s.waitingBuffer.slot i).event.pressed &&
        s.withinTappingTerm (s.waitingBuffer.slot i).event := by
    simp only [settledBy, isTappingKey, isTapping, withinTappingTerm, h.tappingKey]
  rw [hpred] at hfind
  simp only [settledBy] at hfind
  unfold waitingBufferScanTap
  dsimp only
  rw [hfind, h.tappingKey]
  split
  · exact h
  · split
    · exact h
    · generalize hf : List.find? _ t.waitingBuffer.indices = found
      cases found with
      | none => exact h
      | some i =>
        have hslot := h.buffer.slot i (List.mem_of_find?_eq_some hf)
        dsimp only
        rw [hslot]
        exact handTappingKey (s := { s with
            tappingKey := t.tappingKey.withCount 1
            waitingBuffer := s.waitingBuffer.setSlot i ((t.waitingBuffer.slot i).withCount 1) })
          ⟨rfl, h.buffer.setSlot i _, h.submitted, h.act⟩

theorem startWhileTapped (h : Alike pre s t) (r : KeyRecord) :
    Alike pre (s.startWhileTapped K r) (t.startWhileTapped K r) := by
  unfold TappingState.startWhileTapped lastTapRelease
  dsimp only
  rw [h.tappingKey]
  refine scanTap (setTapping ?_ r)
  split
  · exact (h.hand _).2
  · exact h

theorem interrupt (h : Alike pre s t) :
    Alike pre { s with tappingKey := s.tappingKey.interrupt }
      { t with tappingKey := t.tappingKey.interrupt } := by
  rw [h.tappingKey]
  exact h.setTapping _

/-- "process" or "start" while the last tap key is still down. -/
theorem whileTapped (h : Alike pre s t) (r : KeyRecord) (e : KeyEvent) (c : Prop) [Decidable c] :
    AlikeResult pre
      (if (s.isTapKey K e).1 = true ∧ c then (true, r, (s.isTapKey K e).2.startWhileTapped K r)
        else (s.isTapKey K e).2.pass K r)
      (if (t.isTapKey K e).1 = true ∧ c then (true, r, (t.isTapKey K e).2.startWhileTapped K r)
        else (t.isTapKey K e).2.pass K r) := by
  obtain ⟨htap, hstate⟩ := h.isTapKey (K := K) e
  rw [htap]
  exact .ite (fun _ => ⟨rfl, rfl, hstate.startWhileTapped r⟩) fun _ => hstate.pass r

/-- A record that is handed over and becomes the tapping key, or clears
it. -/
theorem handSet (h : Alike pre s t) (r : KeyRecord) (f : KeyRecord → KeyRecord) :
    AlikeResult pre
      (true, (s.hand K r).1, { (s.hand K r).2 with tappingKey := f (s.hand K r).1 })
      (true, (t.hand K r).1, { (t.hand K r).2 with tappingKey := f (t.hand K r).1 }) := by
  obtain ⟨hr, hstate⟩ := h.hand (K := K) r
  rw [hr]
  exact ⟨rfl, rfl, hstate.setTapping _⟩

/-- **`process_tapping` does the same in both machines**, branch by branch. -/
theorem processTapping (h : Alike pre s t) (r : KeyRecord) :
    AlikeResult pre (TappingState.processTapping K r s) (TappingState.processTapping K r t) := by
  have htap : s.isTapping = t.isTapping := by rw [isTapping, isTapping, h.tappingKey]
  have hpr : s.isTappingPressed = t.isTappingPressed := by
    rw [isTappingPressed, isTappingPressed, htap, h.tappingKey]
  have hrel : s.isTappingReleased = t.isTappingReleased := by
    rw [isTappingReleased, isTappingReleased, htap, h.tappingKey]
  have hkey : s.isTappingKey r.event.key = t.isTappingKey r.event.key := by
    rw [isTappingKey, isTappingKey, htap, h.tappingKey]
  have hterm : s.withinTappingTerm r.event = t.withinTappingTerm r.event := by
    rw [withinTappingTerm, withinTappingTerm, h.tappingKey]
  have htyped := h.waitingBufferTyped r.event
  have hret := h.retains (K := K) r
  obtain ⟨htapKey, hlook⟩ := h.isTapKey (K := K) r.event
  unfold TappingState.processTapping
  simp only [hpr, hrel, hkey, hterm, htyped, hret, h.tappingKey]
  refine .ite (fun _ => ?_) fun _ => .ite (fun _ => ?_) fun _ => ?_
  · -- pressed
    refine .ite (fun _ => ?_) fun _ => ?_
    · refine .ite (fun _ => ?_) fun _ => ?_
      · refine .ite (fun _ => ?_) fun _ => ?_
        · -- first tap
          have hs := (h.setTapping (t.tappingKey.withCount 1)).handTappingKey (K := K)
          rw [hs.tappingKey]
          exact ⟨rfl, rfl, hs⟩
        · refine .ite (fun _ => ?_) fun _ => ?_
          · exact .ite (fun _ => ⟨rfl, rfl, h⟩) fun _ => h.pass r
          · refine ⟨rfl, rfl, ?_⟩
            dsimp only
            split
            · have hi := h.interrupt
              rw [h.tappingKey] at hi
              exact hi
            · exact h
      · refine .ite (fun _ => ?_) fun _ => h.whileTapped r _ _
        exact h.handSet (r.withTap t.tappingKey.tap) id
    · refine .ite (fun _ => ?_) fun _ => ?_
      · exact ⟨rfl, rfl, h.handTappingKey.setTapping {}⟩
      · refine .ite (fun _ => ?_) fun _ => h.whileTapped r _ _
        exact h.handSet (r.withTap t.tappingKey.tap) fun _ => {}
  · -- released
    refine .ite (fun _ => ?_) fun _ => ⟨rfl, rfl, h.setTapping {}⟩
    refine .ite (fun _ => ?_) fun _ => h.pass r
    refine .ite (fun _ => ?_) fun _ => ?_
    · refine .ite (fun _ => ?_) fun _ => ⟨rfl, rfl, h.setTapping r⟩
      exact h.handSet (r.withTap _) id
    · rw [htapKey]
      refine .ite (fun _ => ⟨rfl, rfl, (hlook.setTapping r).scanTap⟩) fun _ => ?_
      exact hlook.interrupt.pass r
  · -- idle
    refine .ite (fun _ => ?_) fun _ => h.pass r
    rw [htapKey]
    exact .ite (fun _ => ⟨rfl, rfl, (hlook.setTapping r).scanTap⟩) fun _ => hlook.pass r

theorem clearBuffer (h : Alike pre s t) :
    Alike pre s.waitingBufferClear t.waitingBufferClear where
  tappingKey := h.tappingKey
  buffer := ⟨rfl, rfl, fun _ hi => absurd hi List.not_mem_nil⟩
  submitted := h.submitted
  act := h.act

/-- Clearing the keyboard does the same in both machines. -/
theorem clearKeyboard (h : Alike pre s t) :
    Alike pre { s with act := s.act.clearKeyboard } { t with act := t.act.clearKeyboard } :=
  ⟨h.tappingKey, h.buffer, h.submitted, h.act.clearKeyboard⟩

/-- An overflow clears both in the same way. -/
theorem overflow (h : Alike pre s t) : Alike pre s.overflow t.overflow :=
  h.clearKeyboard.clearBuffer.setTapping {}

/-- A record finds room in both buffers or in neither. -/
theorem waitingBufferEnq (h : Alike pre s t) (r : KeyRecord) :
    Option.Rel (Alike pre) (s.waitingBufferEnq r) (t.waitingBufferEnq r) := by
  unfold TappingState.waitingBufferEnq
  rw [h.buffer.isFull]
  split
  · exact .some h
  · split
    · exact .none
    · next hroom =>
      have hroom' : t.waitingBuffer.isFull = false := (Bool.not_eq_true _).mp hroom
      exact .some ⟨h.tappingKey, h.buffer.push r hroom', h.submitted, h.act⟩

/-- A new record is consumed by both machines or put into both buffers. -/
theorem offer (h : Alike pre s t) (r : KeyRecord) : Alike pre (s.offer K r) (t.offer K r) := by
  obtain ⟨hc, hr, hstate⟩ := h.processTapping (K := K) r
  have henq := hstate.waitingBufferEnq (TappingState.processTapping K r t).2.1
  unfold TappingState.offer
  dsimp only
  rw [hc, hr]
  split
  · exact hstate
  · generalize (TappingState.processTapping K r s).2.2.waitingBufferEnq
      (TappingState.processTapping K r t).2.1 = p at henq ⊢
    generalize (TappingState.processTapping K r t).2.2.waitingBufferEnq
      (TappingState.processTapping K r t).2.1 = q at henq ⊢
    cases henq with
    | none => exact hstate.overflow
    | some hnext => exact hnext

/-- One round of the replay is the same in both. -/
theorem round (h : Alike pre s t) (hne : t.waitingBuffer.isEmpty = false) :
    (s.round K).1 = (t.round K).1 ∧ Alike pre (s.round K).2 (t.round K).2 := by
  have hslot : s.waitingBuffer.slot s.waitingBuffer.tail =
      t.waitingBuffer.slot t.waitingBuffer.tail := by
    rw [h.buffer.tail]
    exact h.buffer.slot _ (by rw [RingQueue.indices_pop _ hne]; exact List.mem_cons_self)
  obtain ⟨hc, hr, hstate⟩ := h.processTapping (K := K)
    (t.waitingBuffer.slot t.waitingBuffer.tail)
  have hne' := (RingQueue.isEmpty_of_ends (processTapping_ends (K := K)
    (t.waitingBuffer.slot t.waitingBuffer.tail) t)).trans hne
  unfold TappingState.round
  dsimp only
  rw [hslot, hc, hr, h.buffer.tail]
  refine ⟨rfl, hstate.tappingKey, ?_, hstate.submitted, hstate.act⟩
  dsimp only
  split
  · exact (hstate.buffer.setSlot _ _).pop hne'
  · exact hstate.buffer.setSlot _ _

/-- The replay is the same in both, by induction over its rounds. -/
theorem replay : ∀ (fuel : Nat) {s t : Tapping}, Alike pre s t →
    Alike pre (s.replay K fuel) (t.replay K fuel)
  | 0, _, _, h => h
  | fuel + 1, s, t, h => by
    unfold TappingState.replay
    rw [h.buffer.isEmpty]
    split
    · exact h
    · next hne =>
      obtain ⟨hc, hstate⟩ := h.round (K := K) ((Bool.not_eq_true _).mp hne)
      dsimp only
      rw [hc]
      split
      · exact replay fuel hstate
      · exact hstate

/-- **One call of `action_exec` is the same in both machines.** -/
theorem actionExec (h : Alike pre s t) (inp : Input) :
    Alike pre (Tmk.actionExec K inp s) (Tmk.actionExec K inp t) := by
  have hrec : s.record inp = t.record inp := by rw [record, record, h.submitted]
  have hsub : Alike pre (s.submit inp) (t.submit inp) :=
    ⟨h.tappingKey, h.buffer, congrArg (· ++ [inp.event]) h.submitted,
      h.act.setClock inp.timer inp.leds⟩
  unfold Tmk.actionExec actionTappingProcess
  rw [hrec]
  exact replay _ (hsub.offer _)

end Alike

/-! ## What happens later -/

/-- A call of `action_exec` or of `mousekey_task`, as `keyboard_task` makes
them. -/
inductive Later where
  | exec (inp : Input)
  | mouse (timer : BitVec 16)

def Later.apply (K : Keymap) (s : Tapping) : Later → Tapping
  | .exec inp => actionExec K inp s
  | .mouse timer => { s with act := { s.act with timer := timer }.mousekeyTask }

def runLater (K : Keymap) (later : List Later) (s : Tapping) : Tapping :=
  later.foldl (Later.apply K) s

/-- One later call is the same in both machines. -/
theorem Alike.apply {s t : Tapping} (h : Alike pre s t) (l : Later) :
    Alike pre (l.apply K s) (l.apply K t) := by
  cases l with
  | exec inp => exact h.actionExec inp
  | mouse timer =>
    have hclock := h.act.plain (f := fun a => { a with timer := timer })
      ⟨fun _ => rfl, fun _ => rfl, fun _ _ _ => rfl⟩
    exact ⟨h.tappingKey, h.buffer, h.submitted, hclock.mousekeyTask⟩

/-- Everything later is the same in both machines, by induction over the calls. -/
theorem runLater_alike (later : List Later) : ∀ {s t : Tapping}, Alike pre s t →
    Alike pre (runLater K later s) (runLater K later t) := by
  induction later with
  | nil => exact fun h => h
  | cons l later ih => exact fun h => ih (h.apply l)

/-! ## The configuration does not change -/

section Config

open ActionState TappingState

theorem on_params (m : MouseKey) (code : BitVec 8) : (m.on code).params = m.params := by
  unfold MouseKey.on
  split <;> rfl

theorem off_params (m : MouseKey) (code : BitVec 8) : (m.off code).params = m.params := by
  have hrel : (m.release code).params = m.params := by
    unfold MouseKey.release
    split <;> first | rfl | (split <;> rfl)
  unfold MouseKey.off
  dsimp only
  split <;> exact hrel

theorem clearKeyboard_config (a : ActionState) : a.clearKeyboard.config = a.config := by
  have hmouse : ∀ b : ActionState,
      ({ b with mouse := b.mouse.clear } : ActionState).mousekeySend.config = b.config :=
    fun _ => rfl
  rw [ActionState.clearKeyboard, clearKeyboardButMods]
  rw [(plain_hostConsumerSend 0).config, (plain_hostSystemSend 0).config, hmouse]
  exact SameFuture.plain_clear.config _

theorem perform_config (a : ActionState) (action : Action) (pressed : Bool) (tap : Tap) :
    (a.perform action pressed tap).config = a.config := by
  by_cases hm : action.kindId = .mousekey
  · unfold perform
    simp only [hm]
    cases pressed with
    | true => exact congrArg (fun p => (a.keyboardProtocol, a.keyboardNkro, p)) (on_params _ _)
    | false => exact congrArg (fun p => (a.keyboardProtocol, a.keyboardNkro, p)) (off_params _ _)
  · by_cases hc : action.kindId = .command
    · unfold perform
      simp only [hc]
      split
      · exact clearKeyboard_config a
      · rfl
    · exact (plain_perform action pressed tap hm hc).config a

@[simp] theorem processAction_config (r : KeyRecord) (a : ActionState) :
    (processAction K r a).2.config = a.config := by
  unfold processAction
  split
  · rfl
  · exact (perform_config _ _ _ _).trans ((plain_track K r.event).config a)

theorem processTapping_config (r : KeyRecord) (s : Tapping) :
    (processTapping K r s).2.2.act.config = s.act.config := by
  have hconfig : Unmoved K fun s : Tapping => s.act.config := by
    refine ⟨fun _ _ => rfl, fun _ _ _ => rfl, fun r s => processAction_config r s.act,
      fun e s => ?_⟩
    rw [isTapKey_snd]
    exact (plain_track K e).config s.act
  exact hconfig.processTapping r s

theorem waitingBufferEnq_act {r : KeyRecord} {s s' : Tapping}
    (h : s.waitingBufferEnq r = some s') : s'.act = s.act := by
  unfold waitingBufferEnq at h
  split at h
  · cases h
    rfl
  · split at h
    · cases h
    · cases h
      rfl

theorem offer_config (r : KeyRecord) (s : Tapping) :
    (s.offer K r).act.config = s.act.config := by
  have hstep := processTapping_config (K := K) r s
  unfold offer
  generalize processTapping K r s = p at hstep ⊢
  dsimp only
  split
  · exact hstep
  · split
    · next henq => exact (congrArg ActionState.config (waitingBufferEnq_act henq)).trans hstep
    · exact (clearKeyboard_config p.2.2.act).trans hstep

theorem replay_config : ∀ (fuel : Nat) (s : Tapping),
    (s.replay K fuel).act.config = s.act.config
  | 0, _ => rfl
  | fuel + 1, s => by
    have hstep : (s.round K).2.act.config = s.act.config :=
      processTapping_config (s.waitingBuffer.slot s.waitingBuffer.tail) s
    unfold replay
    dsimp only
    split
    · rfl
    · split
      · exact (replay_config fuel _).trans hstep
      · exact hstep

/-- No run changes the configuration of the keyboard. -/
theorem run_config : ∀ (inputs : List Input) (s : Tapping),
    (run K inputs s).act.config = s.act.config
  | [], _ => rfl
  | inp :: rest, s => by
    rw [run_cons, run_config rest, actionExec, actionTappingProcess, replay_config, offer_config]
    rfl

end Config

/-! ## The overflow -/

/-- The initial state with the layers and the clock of `a`. -/
def ActionState.reset (a : ActionState) : ActionState where
  layerState := a.layerState
  defaultLayerState := a.defaultLayerState
  layerPressed := a.layerPressed
  timer := a.timer
  leds := a.leds

/-- A freshly initialised module with the layers and the clock of `s`; the
numbering of the submissions goes on. -/
def fresh (s : Tapping) : Tapping :=
  { Tapping.init with act := s.act.reset, submitted := s.submitted }

/-- Whatever happens later, `s` sends what a fresh module would. -/
def Recovered (K : Keymap) (s : Tapping) : Prop :=
  ∀ later : List Later,
    (runLater K later s).act.sent = s.act.sent ++ (runLater K later (fresh s)).act.sent

/-- No key of the six-key ring and no one-shot modifier is left. -/
structure NothingHeld (a : ActionState) : Prop where
  head : a.keyReport.cbHead = 0
  tail : a.keyReport.cbTail = 0
  count : a.keyReport.cbCount = 0
  oneshot : a.oneshotMods = 0

instance (a : ActionState) : Decidable (NothingHeld a) :=
  decidable_of_iff (a.keyReport.cbHead = 0 ∧ a.keyReport.cbTail = 0 ∧ a.keyReport.cbCount = 0 ∧
      a.oneshotMods = 0)
    ⟨fun h => ⟨h.1, h.2.1, h.2.2.1, h.2.2.2⟩, fun h => ⟨h.head, h.tail, h.count, h.oneshot⟩⟩

/-- The state in which `action_tapping_process` looks for room for the
record. -/
def beforeEnq (K : Keymap) (inp : Input) (s : Tapping) : Tapping :=
  (TappingState.processTapping K (s.record inp) (s.submit inp)).2.2

namespace ActionState

/-- An empty ring is reset by `clear_keys`, as are the modifiers in the
report. -/
theorem clear_report {r : KeyReport} (hh : r.cbHead = 0) (ht : r.cbTail = 0)
    (hc : r.cbCount = 0) : r.clearKeys.setMods 0 = {} := by
  have hraw := r.raw_clearKeys_setMods_zero
  obtain ⟨raw, head, tail, count⟩ := r
  simp only at hh ht hc
  subst hh ht hc
  exact congrArg (fun v => ({ raw := v } : KeyReport)) hraw

/-- What `clear_keyboard` leaves of a state that holds nothing else. -/
theorem clear_sendKeyboardReport {a : ActionState} (h : NothingHeld a) :
    a.clearMods.clearWeakMods.clearKeys.sendKeyboardReport =
      { a with
        realMods := 0, weakMods := 0, keyReport := {}
        sent := a.sent ++ [.keyboard ({} : KeyReport).raw] } := by
  have hreport := clear_report h.head h.tail h.count
  have ho : a.clearMods.clearWeakMods.clearKeys.oneshotMods = 0 := h.oneshot
  unfold sendKeyboardReport
  dsimp only
  rw [if_neg (not_not_intro ho)]
  unfold hostKeyboardSend send
  dsimp only
  have hmods : a.clearMods.clearWeakMods.clearKeys.realMods |||
      a.clearMods.clearWeakMods.clearKeys.weakMods = 0 :=
    show (0 ||| 0 : BitVec 8) = 0 by decide
  have hkeys : a.clearMods.clearWeakMods.clearKeys.keyReport = a.keyReport.clearKeys := rfl
  rw [hmods, hkeys, hreport]
  rfl

/-- `clear_keyboard` resets everything but the layers, if nothing is held. -/
theorem clearKeyboard_eq (a : ActionState) (hcfg : a.config = ({} : ActionState).config)
    (h : NothingHeld a) :
    a.clearKeyboard = a.reset.after a.clearKeyboard.sent a.timer := by
  have hone := h.oneshot
  obtain ⟨hproto, hrest⟩ := Prod.mk.inj hcfg
  obtain ⟨hnkro, hparams⟩ := Prod.mk.inj hrest
  generalize hsent : a.clearKeyboard.sent = sent
  unfold clearKeyboard clearKeyboardButMods at hsent ⊢
  dsimp only at hsent ⊢
  rw [clear_sendKeyboardReport h] at hsent ⊢
  rw [hostConsumerSend_eq, hostSystemSend_eq] at hsent ⊢
  obtain ⟨layers, defaults, pressed, real, weak, oneshot, report, proto, nkro, lastSys, lastCons,
    mouse, timer, leds, old⟩ := a
  obtain ⟨mreport, rep, accel, params, lastTimer⟩ := mouse
  simp only at hone hproto hnkro hparams
  subst hone hproto hnkro hparams hsent
  simp [mousekeySend, hostMouseSend, send, after, reset, MouseKey.clear]

end ActionState

/-- A call that overflows clears the state it had before its record was put into
the buffer. -/
theorem actionExec_overflow (inp : Input) (s : Tapping) (hover : overflows K inp s = true) :
    actionExec K inp s = (beforeEnq K inp s).overflow := by
  have hoffer : (s.submit inp).offer K (s.record inp) = (beforeEnq K inp s).overflow := by
    unfold overflows at hover
    unfold TappingState.offer beforeEnq
    generalize TappingState.processTapping K (s.record inp) (s.submit inp) = p at hover ⊢
    obtain ⟨consumed, r', s'⟩ := p
    simp only [Bool.and_eq_true, Bool.not_eq_true'] at hover
    obtain ⟨⟨rfl, hreal⟩, hfull⟩ := hover
    simp [TappingState.waitingBufferEnq, hreal, hfull]
  rw [actionExec, TappingState.actionTappingProcess, hoffer]
  exact replay_empty _ _ rfl

/-- After an overflow while nothing is held the machine is like a fresh
one. -/
theorem overflow_alike {s : Tapping} (hcfg : s.act.config = ({} : ActionState).config)
    (hheld : NothingHeld s.act) :
    Alike s.overflow.act.sent s.overflow (fresh s.overflow) where
  tappingKey := rfl
  buffer := ⟨rfl, rfl, fun _ hi => absurd hi List.not_mem_nil⟩
  submitted := rfl
  act := by
    have heq := s.act.clearKeyboard_eq hcfg hheld
    have hsame := congrArg ActionState.reset heq
    have hreset : s.act.clearKeyboard.reset = s.act.reset := hsame
    refine ⟨s.act.timer, ?_, fun hs => Bool.noConfusion (show true = false from hs)⟩
    change s.act.clearKeyboard = s.act.clearKeyboard.reset.after s.act.clearKeyboard.sent _
    rw [hreset]
    exact heq

/-- **An overflow while nothing is held recovers to a clean start.** Every
later sequence of events makes the firmware send what a fresh module with
the same layers sends. -/
theorem overflow_recovers (K : Keymap) (inputs : List Input) (inp : Input)
    (hover : overflows K inp (run K inputs Tapping.init) = true)
    (hheld : NothingHeld (beforeEnq K inp (run K inputs Tapping.init)).act) :
    Recovered K (run K (inputs ++ [inp]) Tapping.init) := by
  have hrun : run K (inputs ++ [inp]) Tapping.init =
      (beforeEnq K inp (run K inputs Tapping.init)).overflow := by
    rw [← actionExec_overflow inp _ hover, run_append]
    rfl
  have hcfg : (beforeEnq K inp (run K inputs Tapping.init)).act.config =
      ({} : ActionState).config :=
    (processTapping_config _ _).trans (run_config inputs Tapping.init)
  intro later
  rw [hrun]
  exact (runLater_alike later (overflow_alike hcfg hheld)).act.sent

/-- A modifier tap key is down, and eight more events come while it is
undecided. -/
theorem overflow_recovers_undecided :
    let inputs := [down 0 0, down 1 2, down 2 4, down 3 6, down 4 8, down 5 10, down 6 12,
      down 7 14]
    Recovered sampleKeymap (run sampleKeymap (inputs ++ [up 7 16]) Tapping.init) :=
  overflow_recovers sampleKeymap [down 0 0, down 1 2, down 2 4, down 3 6, down 4 8, down 5 10,
    down 6 12, down 7 14] (up 7 16) (by decide +kernel) (by decide +kernel)

/-- With a letter held before, the ring starts at its second slot after the
overflow. -/
theorem overflow_with_letter_held :
    let inputs := [down 5 0, down 0 2, down 1 4, down 2 6, down 3 8, down 4 10, down 6 12,
      down 7 14, up 7 16]
    overflows sampleKeymap (up 6 18) (run sampleKeymap inputs Tapping.init) = true ∧
      ¬Recovered sampleKeymap (run sampleKeymap (inputs ++ [up 6 18]) Tapping.init) := by
  refine ⟨by decide +kernel, fun h => ?_⟩
  exact absurd (h [.exec (down 6 20)]) (by decide +kernel)

end Ch583Kbd.Tmk
