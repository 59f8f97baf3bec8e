/-
Ch583Kbd.Tmk.Calls — a run of `action_exec` as a sequence of calls of
`process_tapping`.

Each call takes a record in hand: a new one, or the oldest of the waiting
buffer. Taking the oldest one off the buffer before the call makes no
difference to the step (`TapStep.uncons`), so both kinds of call are a
`TapStep` on the records that wait besides it; a record that is refused
goes back to the end or to the front (`putBack`).

`CallRule` is a condition on the calls of a run, a predicate of the state
and the record before the call. `run_calls` turns a run without overflow
whose calls all meet the rule into a chain of `Call`s; what one call
preserves, the run preserves.
-/
import Mathlib.Logic.Relation
import Ch583Kbd.Tmk.TapStep

namespace Ch583Kbd.Tmk

open Ch583Kbd.Lib TappingState

/-- Where the record in hand comes from. -/
inductive Source where
  | new | replay
  deriving DecidableEq, Repr

namespace TappingState

/-- What happens to the record after the call: a refused event waits. -/
def putBack (src : Source) (consumed : Bool) (r : KeyRecord) (w : View) : View :=
  if consumed ∨ r.event.isNoEvent then w
  else
    match src with
    | .new => w.withBuffer (w.waitingBuffer ++ [r])
    | .replay => w.withBuffer (r :: w.waitingBuffer)

/-- Putting a record back changes the waiting buffer only. -/
theorem putBack_eq (src : Source) (consumed : Bool) (r : KeyRecord) (w : View) :
    ∃ q, w.putBack src consumed r = w.withBuffer q := by
  unfold putBack
  split
  · exact ⟨w.waitingBuffer, rfl⟩
  · cases src <;> exact ⟨_, rfl⟩

@[simp] theorem putBack_handed (src : Source) (consumed : Bool) (r : KeyRecord) (w : View) :
    (w.putBack src consumed r).handed = w.handed := by
  obtain ⟨q, h⟩ := putBack_eq src consumed r w
  rw [h]
  rfl

@[simp] theorem putBack_tappingKey (src : Source) (consumed : Bool) (r : KeyRecord) (w : View) :
    (w.putBack src consumed r).tappingKey = w.tappingKey := by
  obtain ⟨q, h⟩ := putBack_eq src consumed r w
  rw [h]
  rfl

@[simp] theorem putBack_undecided (src : Source) (consumed : Bool) (r : KeyRecord) (w : View) :
    (w.putBack src consumed r).undecided = w.undecided := by
  obtain ⟨q, h⟩ := putBack_eq src consumed r w
  rw [h]
  rfl

/-- What waits after the call waited before or is the refused record. -/
theorem forall_putBack {P : KeyRecord → Prop} {src : Source} {consumed : Bool} {r : KeyRecord}
    {w : View} (h : ∀ x ∈ w.waitingBuffer, P x)
    (hr : consumed = false → r.event.isNoEvent = false → P r) :
    ∀ x ∈ (w.putBack src consumed r).waitingBuffer, P x := by
  unfold putBack
  split
  · exact h
  · next hn =>
    simp only [not_or, Bool.not_eq_true] at hn
    intro x hx
    cases src with
    | new =>
      rcases List.mem_append.mp hx with hx | hx
      · exact h x hx
      · rw [List.mem_singleton.mp hx]
        exact hr hn.1 hn.2
    | replay =>
      rcases List.mem_cons.mp hx with rfl | hx
      · exact hr hn.1 hn.2
      · exact h x hx

@[simp] theorem putBack_submitted (src : Source) (consumed : Bool) (r : KeyRecord) (w : View) :
    (w.putBack src consumed r).submitted = w.submitted := by
  obtain ⟨q, h⟩ := putBack_eq src consumed r w
  rw [h]
  rfl

end TappingState

/-- A condition on calls: where the record comes from, the record, and the
state without it. -/
abbrev CallRule := Source → KeyRecord → View → Prop

/-- One call of `process_tapping` in a run. -/
inductive Call (K : Keymap) (C : CallRule) (v : View) : View → Prop
  | new (inp : Input) {consumed : Bool} {r' : KeyRecord} {w : View}
      (hc : C .new (v.record inp) (v.submit inp))
      (h : TapStep K (v.submit inp) (v.record inp) consumed r' w) :
      Call K C v (w.putBack .new consumed r')
  | replay {x : KeyRecord} {xs : List KeyRecord} {consumed : Bool} {r' : KeyRecord} {w : View}
      (hq : v.waitingBuffer = x :: xs) (hc : C .replay x (v.withBuffer xs))
      (h : TapStep K (v.withBuffer xs) x consumed r' w) :
      Call K C v (w.putBack .replay consumed r')

/-! ## The record in hand does not look at itself -/

variable {K : Keymap}

theorem typed_cons_self (r : KeyRecord) (xs : List KeyRecord) (v : View) :
    typed r.event (v.withBuffer (r :: xs)) = typed r.event (v.withBuffer xs) := by
  simp [typed, withBuffer]

theorem started_withBuffer (r : KeyRecord) (q : List KeyRecord) (v : View) :
    (v.withBuffer q).started K r = (v.started K r).withBuffer q := by
  by_cases h : v.settled = true ∧ v.tappingKey.tap.count > 1
  · have h' : (v.withBuffer q).settled = true ∧ (v.withBuffer q).tappingKey.tap.count > 1 := h
    simp only [started, if_pos h, if_pos h']
    rfl
  · have h' : ¬((v.withBuffer q).settled = true ∧ (v.withBuffer q).tappingKey.tap.count > 1) := h
    simp only [started, if_neg h, if_neg h']
    rfl

@[simp] theorem started_waitingBuffer (r : KeyRecord) (v : View) :
    (v.started K r).waitingBuffer = v.waitingBuffer := by
  unfold started; split <;> rfl

/-- A step does not see the record in hand at the front of the buffer. -/
theorem TapStep.uncons {v w : View} {r r' : KeyRecord} {xs : List KeyRecord} {consumed : Bool}
    (hq : v.waitingBuffer = r :: xs) (h : TapStep K v r consumed r' w) :
    ∃ w', TapStep K (v.withBuffer xs) r consumed r' w' ∧
      w = w'.withBuffer (r :: w'.waitingBuffer) := by
  have hv : v = v.withBuffer (r :: xs) := by rw [← hq]; rfl
  have htyped : typed r.event v = typed r.event (v.withBuffer xs) := by
    rw [hv]; exact typed_cons_self r xs v
  -- besides `typed` only the scan of `start` reads the buffer
  cases h with
  | firstTap hu hs =>
    refine ⟨_, .firstTap (v := v.withBuffer xs) hu hs, ?_⟩
    rw [hv]; rfl
  | early hu hw hr hk ht hn =>
    rw [htyped] at ht
    refine ⟨_, .early (v := v.withBuffer xs) hu hw hr hk ht hn, ?_⟩
    rw [hv]; rfl
  | wait hu hw hs hr =>
    rw [htyped] at hr
    refine ⟨_, .wait (v := v.withBuffer xs) hu hw hs hr, ?_⟩
    rw [hv]
    split <;> rfl
  | timeout hu hw =>
    refine ⟨_, .timeout (v := v.withBuffer xs) hu hw, ?_⟩
    rw [hv]; rfl
  | tapRelease hd hk hp =>
    refine ⟨_, .tapRelease (v := v.withBuffer xs) hd hk hp, ?_⟩
    rw [hv]; rfl
  | start w hu hp ht hrel hscan =>
    have hstart : v.started K r = ((v.withBuffer xs).started K r).withBuffer (r :: xs) := by
      have hsame := started_withBuffer (K := K) r (r :: xs) v
      rw [← hv] at hsame
      rw [started_withBuffer]
      exact hsame
    have hr : (v.started K r).settledBy r = false := by
      simp [settledBy, ((r.event.isPressed_iff).mp hp).2]
    have hbuf : (v.started K r).waitingBuffer = r :: xs := by rw [started_waitingBuffer, hq]
    have hbuf' : ((v.withBuffer xs).started K r).waitingBuffer = xs := by
      rw [started_waitingBuffer]; rfl
    cases hscan with
    | miss hm =>
      rw [hbuf, hstart] at hm
      refine ⟨_, .start (v := v.withBuffer xs) _ hu hp ht hrel (.miss fun hu' x hx => ?_), ?_⟩
      · rw [hbuf'] at hx
        exact hm hu' x (List.mem_cons_of_mem _ hx)
      · rw [hstart, hbuf']
    | hit pre x post hu' hq' hpre hx =>
      rw [hbuf] at hq'
      cases pre with
      | nil =>
        have hrx : r = x := (List.cons.inj hq').1
        rw [← hrx, hr] at hx
        simp at hx
      | cons y pre =>
        obtain ⟨rfl, hxs⟩ := List.cons.inj hq'
        rw [hstart] at hu' hpre hx
        refine ⟨_, .start (v := v.withBuffer xs) _ hu hp ht hrel
          (.hit pre x post hu' (hbuf'.trans hxs)
            (fun z hz => hpre z (List.mem_cons_of_mem _ hz)) hx), ?_⟩
        rw [hstart]
        rfl
  | sequential hr hw hp hk hi hc =>
    refine ⟨_, .sequential (v := v.withBuffer xs) hr hw hp hk hi hc, ?_⟩
    rw [hv]; rfl
  | again hr hw hp hk hi =>
    refine ⟨_, .again (v := v.withBuffer xs) hr hw hp hk hi, ?_⟩
    rw [hv]; rfl
  | pass hu he hrel hset ht =>
    refine ⟨_, .pass (v := v.withBuffer xs) hu he hrel hset ht, ?_⟩
    rw [hv]; rfl
  | releasedTimeout hr hw =>
    refine ⟨_, .releasedTimeout (v := v.withBuffer xs) hr hw, ?_⟩
    rw [hv]; rfl
  | tick hu he hrel =>
    refine ⟨_, .tick (v := v.withBuffer xs) hu he hrel, ?_⟩
    rw [hv]; rfl

/-! ## What a step leaves alone -/

@[simp] theorem started_tappingKey (r : KeyRecord) (v : View) :
    (v.started K r).tappingKey = r := by
  unfold started; split <;> rfl

@[simp] theorem started_submitted (r : KeyRecord) (v : View) :
    (v.started K r).submitted = v.submitted := by
  unfold started; split <;> rfl

/-- The scan of the buffer changes no origin and no event. -/
theorem TappingState.Scan.tags {v w : View} (h : Scan K v w) :
    w.waitingBuffer.map KeyRecord.tag = v.waitingBuffer.map KeyRecord.tag := by
  cases h with
  | miss h => rfl
  | hit pre x post hu hq hpre hx =>
    rw [hq]
    simp [tapped, withBuffer]

theorem TappingState.Scan.submitted {v w : View} (h : Scan K v w) :
    w.submitted = v.submitted := by
  cases h with
  | miss h => rfl
  | hit pre x post hu hq hpre hx => rfl

/-- No step adds, removes or reorders the records that wait. -/
theorem TapStep.tags {v w : View} {r r' : KeyRecord} {consumed : Bool}
    (h : TapStep K v r consumed r' w) :
    w.waitingBuffer.map KeyRecord.tag = v.waitingBuffer.map KeyRecord.tag := by
  cases h with
  | start w hu hp ht hrel hscan => rw [hscan.tags, started_waitingBuffer]
  | wait hu hw hs hr => split <;> rfl
  | _ => rfl

/-- No branch of `process_tapping` submits an event. -/
theorem TapStep.submitted {v w : View} {r r' : KeyRecord} {consumed : Bool}
    (h : TapStep K v r consumed r' w) : w.submitted = v.submitted := by
  cases h with
  | start w hu hp ht hrel hscan => rw [hscan.submitted, started_submitted]
  | wait hu hw hs hr => split <;> rfl
  | _ => rfl

/-- The record in hand stays the record of the same event. -/
theorem TapStep.record_tag {v w : View} {r r' : KeyRecord} {consumed : Bool}
    (h : TapStep K v r consumed r' w) : r'.tag = r.tag := by
  cases h with
  | pass hu he hrel hset ht => simp
  | _ => rfl

/-- A step that refuses its record leaves the buffer as it is. -/
theorem TapStep.refused_waitingBuffer {v w : View} {r r' : KeyRecord}
    (h : TapStep K v r false r' w) : w.waitingBuffer = v.waitingBuffer := by
  cases h with
  | wait hu hw hs hr => split <;> rfl
  | _ => rfl

/-! ## Runs -/

/-- The new record finds the waiting buffer full. -/
def overflows (K : Keymap) (inp : Input) (s : Tapping) : Bool :=
  let (consumed, record', s') := processTapping K (s.record inp) (s.submit inp)
  !consumed && !record'.event.isNoEvent && s'.waitingBuffer.isFull

/-- No step of the run overflows. -/
def NoOverflow (K : Keymap) : List Input → Tapping → Prop
  | [], _ => True
  | inp :: rest, s => overflows K inp s = false ∧ NoOverflow K rest (actionExec K inp s)

/-- The calls of the loop over the waiting buffer meet the rule. -/
def ReplayObeys (K : Keymap) (C : CallRule) : Nat → Tapping → Prop
  | 0, _ => True
  | fuel + 1, s =>
    s.waitingBuffer.isEmpty = true ∨
      (C .replay (s.waitingBuffer.slot s.waitingBuffer.tail)
          (s.view.withBuffer s.view.waitingBuffer.tail) ∧
        ((s.round K).1 = true → ReplayObeys K C fuel (s.round K).2))

/-- The calls of the run meet the rule. -/
def Obeys (K : Keymap) (C : CallRule) : List Input → Tapping → Prop
  | [], _ => True
  | inp :: rest, s =>
    (C .new (s.record inp) (s.submit inp).view ∧
      ReplayObeys K C waitingBufferSize ((s.submit inp).offer K (s.record inp))) ∧
      Obeys K C rest (actionExec K inp s)

instance (K : Keymap) : ∀ inputs s, Decidable (NoOverflow K inputs s)
  | [], _ => isTrue trivial
  | inp :: rest, s =>
    have := instDecidableNoOverflow K rest (actionExec K inp s)
    inferInstanceAs (Decidable (_ ∧ _))

instance (K : Keymap) (C : CallRule) [∀ src r v, Decidable (C src r v)] :
    ∀ fuel s, Decidable (ReplayObeys K C fuel s)
  | 0, _ => isTrue trivial
  | fuel + 1, s =>
    have := instDecidableReplayObeys K C fuel (s.round K).2
    inferInstanceAs (Decidable (_ ∨ (_ ∧ (_ → _))))

instance (K : Keymap) (C : CallRule) [∀ src r v, Decidable (C src r v)] :
    ∀ inputs s, Decidable (Obeys K C inputs s)
  | [], _ => isTrue trivial
  | inp :: rest, s =>
    have := instDecidableObeys K C rest (actionExec K inp s)
    inferInstanceAs (Decidable ((_ ∧ _) ∧ _))

/-! ## A run is a chain of calls -/

/-- Only real events wait. -/
def RealBuffer (v : View) : Prop := ∀ x ∈ v.waitingBuffer, x.event.isNoEvent = false

/-- Whether only real events wait depends on the events in the buffer. -/
theorem realBuffer_of_tags {v w : View} (hr : RealBuffer v)
    (h : w.waitingBuffer.map KeyRecord.tag = v.waitingBuffer.map KeyRecord.tag) :
    RealBuffer w := by
  intro x hx
  have hmem : x.tag ∈ v.waitingBuffer.map KeyRecord.tag := by
    rw [← h]; exact List.mem_map_of_mem hx
  obtain ⟨y, hy, hxy⟩ := List.mem_map.mp hmem
  have he : y.event = x.event := congrArg Prod.snd hxy
  rw [← he]
  exact hr y hy

/-- A call puts real events into the buffer only. -/
theorem Call.realBuffer {C : CallRule} {v w : View} (h : Call K C v w) (hr : RealBuffer v) :
    RealBuffer w := by
  cases h with
  | @new inp consumed r' w hc h =>
    have hw : RealBuffer w := realBuffer_of_tags (v := v.submit inp) hr h.tags
    exact forall_putBack hw fun _ hn => hn
  | @replay x xs consumed r' w hq hc h =>
    have hw : RealBuffer w := realBuffer_of_tags (v := v.withBuffer xs)
      (fun y hy => hr y (hq ▸ List.mem_cons_of_mem _ hy)) h.tags
    exact forall_putBack hw fun _ hn => hn

section Runs

variable {C : CallRule}

/-- What the first part of `action_tapping_process` does. -/
theorem offer_spec (inp : Input) (s : Tapping) (hno : overflows K inp s = false) :
    ∃ consumed r' w, TapStep K (s.view.submit inp) (s.view.record inp) consumed r' w ∧
      ((s.submit inp).offer K (s.record inp)).view = w.putBack .new consumed r' := by
  refine ⟨_, _, _, processTapping_step (s.record inp) (s.submit inp) inp.wf, ?_⟩
  unfold overflows at hno
  unfold offer putBack
  generalize processTapping K (s.record inp) (s.submit inp) = p at hno ⊢
  obtain ⟨consumed, r', s'⟩ := p
  cases consumed with
  | true => simp
  | false =>
    by_cases hn : r'.event.isNoEvent = true
    · simp [waitingBufferEnq, hn]
    · have hn' : r'.event.isNoEvent = false := by simpa using hn
      have hfull : s'.waitingBuffer.isFull = false := by simpa [hn'] using hno
      simp only [waitingBufferEnq, hn', hfull, Bool.false_eq_true, if_false, or_self]
      simp only [view, withBuffer, RingQueue.toList_push _ _ hfull]

/-- What a round of the loop over the waiting buffer does. -/
theorem round_spec (s : Tapping) (hne : s.waitingBuffer.isEmpty = false)
    (hr : RealBuffer s.view) :
    ∃ xs r' w, s.view.waitingBuffer = s.waitingBuffer.slot s.waitingBuffer.tail :: xs ∧
      TapStep K (s.view.withBuffer xs) (s.waitingBuffer.slot s.waitingBuffer.tail)
        (s.round K).1 r' w ∧
      (s.round K).2.view = w.putBack .replay (s.round K).1 r' := by
  have hq : s.view.waitingBuffer =
      s.waitingBuffer.slot s.waitingBuffer.tail :: s.waitingBuffer.pop.toList :=
    RingQueue.toList_pop _ hne
  have hreal : (s.waitingBuffer.slot s.waitingBuffer.tail).event.isNoEvent = false :=
    hr _ (hq ▸ List.mem_cons_self)
  have hstep := processTapping_step (K := K) (s.waitingBuffer.slot s.waitingBuffer.tail) s
    (fun h => by rw [hreal] at h; simp at h)
  have htail := processTapping_tail (K := K) (s.waitingBuffer.slot s.waitingBuffer.tail) s
  -- the round leaves the record in the buffer while it runs; the step does not see it
  obtain ⟨w, hw, hs'⟩ := hstep.uncons hq
  have hreal' := congrArg Prod.snd hw.record_tag
  refine ⟨_, _, w, hq, hw, ?_⟩
  change (s.round K).2.view = w.putBack .replay
    (processTapping K (s.waitingBuffer.slot s.waitingBuffer.tail) s).1
    (processTapping K (s.waitingBuffer.slot s.waitingBuffer.tail) s).2.1
  unfold TappingState.round putBack
  dsimp only
  generalize processTapping K (s.waitingBuffer.slot s.waitingBuffer.tail) s = p
    at htail hs' hreal' ⊢
  obtain ⟨consumed, r', s'⟩ := p
  simp only [KeyRecord.tag] at htail hs' hreal'
  have hlist : s'.waitingBuffer.toList =
      s.waitingBuffer.slot s.waitingBuffer.tail :: w.waitingBuffer :=
    congrArg TappingState.waitingBuffer hs'
  have hne' : s'.waitingBuffer.isEmpty = false := by
    by_contra he
    rw [Bool.not_eq_false, RingQueue.isEmpty_iff] at he
    rw [he] at hlist
    simp at hlist
  have hpop : s'.waitingBuffer.pop.toList = w.waitingBuffer := by
    have := RingQueue.toList_pop _ hne'
    rw [hlist] at this
    exact (List.cons.inj this).2.symm
  obtain ⟨hset, hsetpop⟩ := RingQueue.toList_setSlot_tail s'.waitingBuffer r' hne'
  rw [htail] at hset hsetpop
  have hview : ∀ b : RingQueue KeyRecord waitingBufferSize,
      ({ s' with waitingBuffer := b } : Tapping).view = w.withBuffer b.toList := by
    intro b
    have hsame : ({ s' with waitingBuffer := b } : Tapping).view =
      s'.view.withBuffer b.toList := rfl
    rw [hsame, hs']
    rfl
  cases consumed with
  | true =>
    simp only [if_true, true_or]
    rw [hview, hsetpop, hpop]
    rfl
  | false =>
    simp only [hreal', hreal, Bool.false_eq_true, or_self, if_false]
    rw [hview, hset, hpop]

/-- The first part of `action_tapping_process` is a call. -/
theorem offer_call (inp : Input) (s : Tapping) (hno : overflows K inp s = false)
    (hc : C .new (s.record inp) (s.submit inp).view) :
    Call K C s.view ((s.submit inp).offer K (s.record inp)).view := by
  obtain ⟨consumed, r', w, hstep, hout⟩ := offer_spec inp s hno
  rw [hout]
  exact .new inp hc hstep

/-- A round of the loop over the waiting buffer is a call. -/
theorem round_call (s : Tapping) (hne : s.waitingBuffer.isEmpty = false)
    (hr : RealBuffer s.view)
    (hc : C .replay (s.waitingBuffer.slot s.waitingBuffer.tail)
      (s.view.withBuffer s.view.waitingBuffer.tail)) :
    Call K C s.view (s.round K).2.view := by
  obtain ⟨xs, r', w, hq, hstep, hout⟩ := round_spec (K := K) s hne hr
  rw [hq, List.tail_cons] at hc
  rw [hout]
  exact .replay hq hc hstep

/-- **The replay of the buffer is a sequence of calls**, each under the rule, by
induction over its rounds. -/
theorem replay_calls : ∀ (fuel : Nat) (s : Tapping), RealBuffer s.view →
    ReplayObeys K C fuel s →
    Relation.ReflTransGen (Call K C) s.view (s.replay K fuel).view
  | 0, _, _, _ => .refl
  | fuel + 1, s, hr, hob => by
    unfold replay
    by_cases he : s.waitingBuffer.isEmpty = true
    · rw [if_pos he]
    · rw [if_neg he]
      obtain ⟨hc, hrest⟩ := hob.resolve_left he
      have hcall := round_call (K := K) s ((Bool.not_eq_true _).mp he) hr hc
      dsimp only
      split
      · next hgo =>
        exact .head hcall (replay_calls fuel _ (hcall.realBuffer hr) (hrest hgo))
      · exact .single hcall

/-- **`action_exec` is a sequence of calls**: its own event, and then the
replay. -/
theorem actionExec_calls (inp : Input) (s : Tapping) (hr : RealBuffer s.view)
    (hno : overflows K inp s = false) (hc : C .new (s.record inp) (s.submit inp).view)
    (hob : ReplayObeys K C waitingBufferSize ((s.submit inp).offer K (s.record inp))) :
    Relation.ReflTransGen (Call K C) s.view (actionExec K inp s).view := by
  have hcall := offer_call inp s hno hc
  exact .head hcall (replay_calls _ _ (hcall.realBuffer hr) hob)

/-- What one call preserves, a chain of calls preserves. -/
theorem calls_invariant (I : View → Prop) (hcall : ∀ v w, Call K C v w → I v → I w)
    {v w : View} (h : Relation.ReflTransGen (Call K C) v w) (hI : I v) : I w := by
  induction h with
  | refl => exact hI
  | tail _ h ih => exact hcall _ _ h ih

/-- **A run without overflow is a chain of calls** that meet its rule. -/
theorem run_calls : ∀ (inputs : List Input) (s : Tapping), RealBuffer s.view →
    NoOverflow K inputs s → Obeys K C inputs s →
    Relation.ReflTransGen (Call K C) s.view (run K inputs s).view
  | [], _, _, _, _ => .refl
  | inp :: rest, s, hr, hno, hob => by
    have hexec := actionExec_calls inp s hr hno.1 hob.1.1 hob.1.2
    have hr' := calls_invariant RealBuffer (fun _ _ h => h.realBuffer) hexec hr
    exact hexec.trans (run_calls rest _ hr' hno.2 hob.2)

/-- What one call preserves, a run without overflow preserves. -/
theorem run_invariant (I : View → Prop) (hcall : ∀ v w, Call K C v w → I v → I w)
    (inputs : List Input) (s : Tapping) (hr : RealBuffer s.view)
    (hno : NoOverflow K inputs s) (hob : Obeys K C inputs s) (hI : I s.view) :
    I (run K inputs s).view :=
  calls_invariant I hcall (run_calls inputs s hr hno hob) hI

/-- A replay that obeys two rules obeys both together. -/
theorem ReplayObeys.and {D : CallRule} : ∀ (fuel : Nat) (s : Tapping),
    ReplayObeys K C fuel s → ReplayObeys K D fuel s →
    ReplayObeys K (fun src r v => C src r v ∧ D src r v) fuel s
  | 0, _, _, _ => trivial
  | fuel + 1, s, h, h' => by
    rcases h with he | ⟨hc, hrest⟩
    · exact .inl he
    · rcases h' with he | ⟨hc', hrest'⟩
      · exact .inl he
      · exact .inr ⟨⟨hc, hc'⟩, fun hgo => ReplayObeys.and fuel _ (hrest hgo) (hrest' hgo)⟩

/-- A run that obeys two rules obeys both at once. -/
theorem Obeys.and {D : CallRule} : ∀ (inputs : List Input) (s : Tapping),
    Obeys K C inputs s → Obeys K D inputs s →
    Obeys K (fun src r v => C src r v ∧ D src r v) inputs s
  | [], _, _, _ => trivial
  | _ :: rest, _, ⟨⟨hc, hrep⟩, hob⟩, ⟨⟨hc', hrep'⟩, hob'⟩ =>
    ⟨⟨⟨hc, hc'⟩, ReplayObeys.and _ _ hrep hrep'⟩, Obeys.and rest _ hob hob'⟩

theorem replayObeys_true : ∀ (fuel : Nat) (s : Tapping),
    ReplayObeys K (fun _ _ _ => True) fuel s
  | 0, _ => trivial
  | fuel + 1, _ => .inr ⟨trivial, fun _ => replayObeys_true fuel _⟩

/-- Every run obeys the rule that asks for nothing. -/
theorem obeys_true : ∀ (inputs : List Input) (s : Tapping),
    Obeys K (fun _ _ _ => True) inputs s
  | [], _ => trivial
  | _ :: rest, _ => ⟨⟨trivial, replayObeys_true _ _⟩, obeys_true rest _⟩

theorem init_waitingBuffer : Tapping.init.view.waitingBuffer = [] := by
  rw [view, ← RingQueue.isEmpty_iff]
  rfl

theorem realBuffer_init : RealBuffer Tapping.init.view := by
  intro x hx
  rw [init_waitingBuffer] at hx
  simp at hx

end Runs

/-! ## What has been submitted -/

theorem replay_empty (fuel : Nat) (s : Tapping) (h : s.waitingBuffer.isEmpty = true) :
    s.replay K fuel = s := by
  cases fuel with
  | zero => rfl
  | succ fuel => rw [replay, if_pos h]

/-- One round of the replay, and the others after it if its record was consumed. -/
theorem replay_succ (fuel : Nat) (s : Tapping) (h : s.waitingBuffer.isEmpty = false) :
    s.replay K (fuel + 1) =
      if (s.round K).1 then (s.round K).2.replay K fuel else (s.round K).2 := by
  rw [replay, if_neg (by simp [h])]

/-- The replay submits no event. -/
theorem replay_submitted : ∀ (fuel : Nat) (s : Tapping), RealBuffer s.view →
    (s.replay K fuel).submitted = s.submitted
  | 0, _, _ => rfl
  | fuel + 1, s, hr => by
    cases he : s.waitingBuffer.isEmpty with
    | true => rw [replay_empty _ s he]
    | false =>
      obtain ⟨xs, r', w, hq, hstep, hout⟩ := round_spec (K := K) s he hr
      have hcall := round_call (C := fun _ _ _ => True) (K := K) s he hr trivial
      have hsub : (s.round K).2.submitted = s.submitted := by
        have h := congrArg TappingState.submitted hout
        rw [putBack_submitted, hstep.submitted] at h
        exact h
      rw [replay_succ fuel s he]
      split
      · rw [replay_submitted fuel _ (hcall.realBuffer hr), hsub]
      · exact hsub

/-- A call that does not overflow submits its event and nothing else. -/
theorem actionExec_submitted (inp : Input) (s : Tapping) (hr : RealBuffer s.view)
    (hno : overflows K inp s = false) :
    (actionExec K inp s).submitted = s.submitted ++ [inp.event] := by
  obtain ⟨consumed, r', w, hstep, hout⟩ := offer_spec (K := K) inp s hno
  have hcall := offer_call (C := fun _ _ _ => True) (K := K) inp s hno trivial
  have h := congrArg TappingState.submitted hout
  rw [putBack_submitted, hstep.submitted] at h
  rw [actionExec, actionTappingProcess, replay_submitted _ _ (hcall.realBuffer hr)]
  exact h

/-- `submitted` is the list of the events of the run. -/
theorem run_submitted : ∀ (inputs : List Input) (s : Tapping), RealBuffer s.view →
    NoOverflow K inputs s →
    (run K inputs s).submitted = s.submitted ++ inputs.map (·.event)
  | [], s, _, _ => (List.append_nil _).symm
  | inp :: rest, s, hr, hno => by
    have hr' := calls_invariant (C := fun _ _ _ => True) RealBuffer (fun _ _ h => h.realBuffer)
      (actionExec_calls inp s hr hno.1 trivial (replayObeys_true _ _)) hr
    have hrec := run_submitted rest (actionExec K inp s) hr' hno.2
    rw [actionExec_submitted inp s hr hno.1] at hrec
    rw [List.append_assoc, List.singleton_append] at hrec
    exact hrec

end Ch583Kbd.Tmk
