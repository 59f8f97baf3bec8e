/-
Ch583Kbd.Tmk.KeyOrder — the events of one key are delivered in the order
of their submission.

That needs two things of a run: press and release alternate for each key
(`Alternating`), and no event is submitted while records wait behind no
undecided tapping key (`noStranding`). Records are left so when a timeout
stops the loop of `action_tapping_process`; a new event is then looked at
before them.

`Ready` collects what is known when `process_tapping` is called in such a
run. `Call.pending_invariant` is the induction that the results about such
runs use: an invariant speaks of the records still to be processed as a
set, in which the record in hand and those that wait are alike.
-/
import Mathlib.Data.List.Induction
import Ch583Kbd.Tmk.DeliveryOrder

namespace Ch583Kbd.Tmk

open Ch583Kbd.Lib TappingState

variable {K : Keymap}

/-! ## Alternating events -/

/-- A press or release of key `k`. -/
def KeyEvent.OfKey (k : KeyPos) (e : KeyEvent) : Prop := e.isNoEvent = false ∧ e.key = k

instance (k : KeyPos) (e : KeyEvent) : Decidable (e.OfKey k) :=
  inferInstanceAs (Decidable (_ ∧ _))

/-- Key `k` is down after `events`. -/
def keyDown (k : KeyPos) (events : List KeyEvent) : Bool :=
  events.foldl (fun down e => if e.OfKey k then e.pressed else down) false

/-- Press and release alternate for each key. -/
def Alternating (events : List KeyEvent) : Prop :=
  ∀ i (h : i < events.length), events[i].isNoEvent = false →
    keyDown events[i].key (events.take i) = !events[i].pressed

instance (events : List KeyEvent) : Decidable (Alternating events) :=
  inferInstanceAs (Decidable (∀ _ _, _ → _))

/-- Whether a key is down is told by its last event. -/
theorem keyDown_append_singleton (k : KeyPos) (events : List KeyEvent) (e : KeyEvent) :
    keyDown k (events ++ [e]) = if e.OfKey k then e.pressed else keyDown k events := by
  simp [keyDown]

/-- The last event of a key decides whether it is down. -/
theorem keyDown_cases (k : KeyPos) (events : List KeyEvent) :
    (keyDown k events = false ∧ ∀ (i : Nat) (e : KeyEvent), events[i]? = some e → ¬e.OfKey k) ∨
      ∃ (i : Nat) (e : KeyEvent), events[i]? = some e ∧ e.OfKey k ∧ keyDown k events = e.pressed ∧
        ∀ (m : Nat) (d : KeyEvent), i < m → events[m]? = some d → ¬d.OfKey k := by
  induction events using List.reverseRecOn with
  | nil => exact .inl ⟨rfl, fun i e hi => by simp at hi⟩
  | append_singleton events e ih =>
    rw [keyDown_append_singleton]
    have hlast : ∀ (m : Nat) (d : KeyEvent), (events ++ [e])[m]? = some d →
        events[m]? = some d ∨ m = events.length ∧ d = e := by
      intro m d hd
      rcases Nat.lt_trichotomy m events.length with hlt | rfl | hgt
      · exact .inl ((List.getElem?_append_left hlt).symm.trans hd)
      · rw [List.getElem?_concat_length] at hd
        exact .inr ⟨rfl, (Option.some.inj hd).symm⟩
      · have hlen := (List.getElem?_eq_some_iff.mp hd).1
        simp only [List.length_append, List.length_singleton] at hlen
        omega
    by_cases he : e.OfKey k
    · rw [if_pos he]
      refine .inr ⟨events.length, e, List.getElem?_concat_length, he, rfl, ?_⟩
      intro m d hm hd
      have hlen := (List.getElem?_eq_some_iff.mp hd).1
      simp only [List.length_append, List.length_singleton] at hlen
      omega
    · rw [if_neg he]
      rcases ih with ⟨hup, hnone⟩ | ⟨i, d, hi, hd, hdown, hafter⟩
      · refine .inl ⟨hup, fun m d hm => ?_⟩
        rcases hlast m d hm with hm | ⟨-, rfl⟩
        · exact hnone m d hm
        · exact he
      · have hlt := (List.getElem?_eq_some_iff.mp hi).1
        refine .inr ⟨i, d, (List.getElem?_append_left hlt).trans hi, hd, hdown, ?_⟩
        intro m d' hm hd'
        rcases hlast m d' hd' with hd' | ⟨-, rfl⟩
        · exact hafter m d' hm hd'
        · exact he

namespace Alternating

variable {events : List KeyEvent} {k : KeyPos}

theorem of_append {l : List KeyEvent} (h : Alternating (events ++ l)) : Alternating events := by
  intro i hi hreal
  have hlen : i < (events ++ l).length := by
    rw [List.length_append]
    omega
  have hsame : (events ++ l)[i] = events[i] := List.getElem_append_left hi
  have htake : (events ++ l).take i = events.take i :=
    List.take_append_of_le_length (Nat.le_of_lt hi)
  have hdown := h i hlen (by rw [hsame]; exact hreal)
  rw [htake, hsame] at hdown
  exact hdown

/-- The event of a key before one of its events is of the other sort. -/
theorem previous (h : Alternating events) {j : Nat} {e : KeyEvent} (hj : events[j]? = some e)
    (he : e.OfKey k) :
    (e.pressed = true ∧ ∀ (i : Nat) (d : KeyEvent), i < j → events[i]? = some d → ¬d.OfKey k) ∨
      ∃ (i : Nat) (d : KeyEvent), i < j ∧ events[i]? = some d ∧ d.OfKey k ∧ d.pressed = !e.pressed ∧
        ∀ (m : Nat) (d' : KeyEvent), i < m → m < j → events[m]? = some d' → ¬d'.OfKey k := by
  obtain ⟨hlt, hget⟩ := List.getElem?_eq_some_iff.mp hj
  have hdown := h j hlt (by rw [hget]; exact he.1)
  rw [hget, he.2] at hdown
  have htake : ∀ i, i < j → (events.take j)[i]? = events[i]? := by
    intro i hi
    rw [List.getElem?_take, if_pos hi]
  rcases keyDown_cases k (events.take j) with ⟨hup, hnone⟩ | ⟨i, d, hi, hd, hpr, hafter⟩
  · rw [hup] at hdown
    refine .inl ⟨by simpa using hdown.symm, fun i d hi hid => ?_⟩
    exact hnone i d ((htake i hi).trans hid)
  · have hij : i < j := by
      have := (List.getElem?_eq_some_iff.mp hi).1
      rw [List.length_take] at this
      omega
    refine .inr ⟨i, d, hij, (htake i hij).symm.trans hi, hd, hpr ▸ hdown, ?_⟩
    intro m d' him hmj hd'
    exact hafter m d' him ((htake m hmj).trans hd')

/-- Between two presses of a key there is a release, and between two
releases a press. -/
theorem between (h : Alternating events) {i j : Nat} {d e : KeyEvent} (hij : i < j)
    (hi : events[i]? = some d) (hj : events[j]? = some e) (hd : d.OfKey k) (he : e.OfKey k)
    (hp : d.pressed = e.pressed) :
    ∃ (m : Nat) (c : KeyEvent), i < m ∧ m < j ∧ events[m]? = some c ∧ c.OfKey k ∧
      c.pressed = !e.pressed := by
  rcases h.previous hj he with ⟨-, hnone⟩ | ⟨m, c, hmj, hm, hc, hcp, hafter⟩
  · exact absurd hd (hnone i d hij hi)
  · rcases Nat.lt_trichotomy i m with him | rfl | hmi
    · exact ⟨m, c, him, hmj, hm, hc, hcp⟩
    · rw [Option.some.inj (hi.symm.trans hm)] at hp
      rw [hp] at hcp
      simp at hcp
    · exact absurd hd (hafter i d hmi hij hi)

end Alternating

/-! ## The two orders -/

/-- The events of one key, in order. -/
def sameKey : Precedence where
  before e' e := e'.OfKey e.key
  real h := h.1

/-- All events, in order. -/
def everything : Precedence where
  before e' _ := e'.isNoEvent = false
  real h := h

theorem sameKey_sameKey : sameKey.SameKey := fun _ _ h _ _ => h.2

/-- No event is submitted while records wait and no tapping key is
undecided. -/
def noStranding : CallRule := fun src r v =>
  src = .new → r.event.isNoEvent = false → v.undecided = true ∨ v.waitingBuffer = []

instance (src : Source) (r : KeyRecord) (v : View) : Decidable (noStranding src r v) :=
  inferInstanceAs (Decidable (_ → _ → _ ∨ _))

/-- What every event has to wait for has been delivered if it has. -/
theorem InOrder.delivered {R : Precedence} {v : View} (h : InOrder R v) (hc : Core v)
    {i j : Nat} {d e : KeyEvent} (hij : i < j) (hi : v.submitted[i]? = some d)
    (hj : v.submitted[j]? = some e) (hR : R.before d e) (hd : Delivered v j) :
    Delivered v i := by
  obtain ⟨x, hx, ho⟩ := hd
  obtain ⟨l₁, l₂, hs⟩ := List.append_of_mem hx
  have hev := (hc.logged x hx).2.2.2 j ho
  have he : x.before.event = e := Option.some.inj (hev.symm.trans hj)
  obtain ⟨y, hy, hyo⟩ := h l₁ x l₂ hs j ho i d hij hi (he ▸ hR)
  exact ⟨y, hs ▸ List.mem_append_left _ hy, hyo⟩

/-- The state of a run between two calls. -/
structure KeyOrdered (v : View) : Prop where
  booked : Booked v
  inOrder : InOrder sameKey v
  ahead : Ahead everything v

/-! ## The record in hand -/

/-- What is known of the state and the record in hand when
`process_tapping` is called, in a run of events that need not alternate. -/
structure AtHand (v : View) (r : KeyRecord) : Prop where
  core : Core v
  wf : r.event.WellFormed
  stands : ∃ i, StandsFor v r i
  inHand : r.event.isNoEvent = false → InHand v r
  accounted : Accounted v r
  ahead : Ahead everything v
  younger : v.undecided = true → v.tappingKey.origin < r.origin
  place : r.event.isNoEvent = false → (∀ x ∈ v.waitingBuffer, r.origin < x.origin) ∨
    v.undecided = true ∧ ∀ x ∈ v.waitingBuffer, x.origin < r.origin

/-- Under the rule a new event is at hand: what waits is older, behind the
undecided tapping key. -/
theorem Booked.atHand_new {v : View} (hb : Booked v) (hah : Ahead everything v) (inp : Input)
    (hrule : noStranding .new (v.record inp) (v.submit inp)) :
    AtHand (v.submit inp) (v.record inp) where
  core := hb.core.submit inp
  wf := inp.wf
  stands := ⟨v.submitted.length, rfl, List.getElem?_concat_length⟩
  inHand := hb.core.record_inHand inp
  accounted := hb.accounted.submit inp
  ahead := hah
  younger hu := by
    obtain ⟨i, hi, -⟩ := hb.core.tapping (undecided_real (v := v) hu).1
    show v.tappingKey.origin < some v.submitted.length
    rw [hi.1]
    exact Option.some_lt_some.mpr hi.lt
  place hreal := by
    rcases hrule rfl hreal with hu | hnil
    · exact .inr ⟨hu, hb.core.lt_record inp⟩
    · refine .inl fun x hx => ?_
      rw [hnil] at hx
      simp at hx

/-- The record taken off the buffer is at hand: what still waits is younger. -/
theorem Booked.atHand_replay {v : View} (hb : Booked v) (hah : Ahead everything v)
    {x : KeyRecord} {xs : List KeyRecord} (hq : v.waitingBuffer = x :: xs) :
    AtHand (v.withBuffer xs) x := by
  obtain ⟨hcore, hin, hlt⟩ := hb.core.tail hq
  obtain ⟨i, hi, -⟩ := hin.stands
  exact {
    core := hcore
    wf := fun hn => by rw [hin.real] at hn; simp at hn
    stands := ⟨i, hi⟩
    inHand := fun _ => hin
    accounted := hb.accounted.tail hq hin.real
    ahead := fun hu y hy => hah hu y (hq ▸ List.mem_cons_of_mem _ hy)
    younger := fun hu => hah hu x (hq ▸ List.mem_cons_self) hin.real
    place := fun _ => .inl hlt }

/-- A call leaves what waits behind the undecided tapping key. -/
theorem Call.ahead_everything {C : CallRule} {v w : View} (h : Call K C v w)
    (hC : ∀ src r u, C src r u → noStranding src r u) (hb : Booked v)
    (hah : Ahead everything v) : Ahead everything w := by
  refine h.ahead hb hah fun inp hc hu hp x hx _ => ?_
  rcases hC _ _ _ hc rfl (inp.wf.real_of_pressed hp) with hu' | hnil
  · have hu'' : v.undecided = true := hu'
    rw [hu] at hu''
    simp at hu''
  · have hnil' : v.waitingBuffer = [] := hnil
    rw [hnil'] at hx
    simp at hx

/-- **What a step keeps, the run keeps**, if no event is submitted past
records that wait. -/
theorem run_step_invariant {C : CallRule} {J : View → Prop}
    (hbuf : ∀ v q, J v → J (v.withBuffer q))
    (hsubmit : ∀ v inp, Booked v → J v → J (v.submit inp))
    (hstep : ∀ src v r consumed r' w, AtHand v r → C src r v → TapStep K v r consumed r' w →
      J v → J w)
    (hC : ∀ src r u, C src r u → noStranding src r u) (inputs : List Input)
    (hno : NoOverflow K inputs Tapping.init) (hob : Obeys K C inputs Tapping.init)
    (hJ : J Tapping.init.view) : J (run K inputs Tapping.init).view := by
  have hput : ∀ (src : Source) (consumed : Bool) (r : KeyRecord) (u : View), J u →
      J (u.putBack src consumed r) := by
    intro src consumed r u hu
    obtain ⟨q, hq⟩ := putBack_eq src consumed r u
    rw [hq]
    exact hbuf u q hu
  refine (run_invariant (fun v => Booked v ∧ Ahead everything v ∧ J v) (fun v w h hI => ?_) inputs
    Tapping.init realBuffer_init hno hob ⟨booked_init, order_init.2, hJ⟩).2.2
  obtain ⟨hb, hah, hJ⟩ := hI
  refine ⟨h.booked hb, h.ahead_everything hC hb hah, ?_⟩
  cases h with
  | @new inp consumed r' u hc h =>
    exact hput _ _ _ _ (hstep _ _ _ _ _ _ (hb.atHand_new hah inp (hC _ _ _ hc)) hc h
      (hsubmit v inp hb hJ))
  | @replay x xs consumed r' u hq hc h =>
    exact hput _ _ _ _ (hstep _ _ _ _ _ _ (hb.atHand_replay hah hq) hc h (hbuf v xs hJ))

/-- The same in a run of events that alternate. -/
structure Ready (v : View) (r : KeyRecord) : Prop extends AtHand v r where
  alternating : Alternating v.submitted
  inOrder : InOrder sameKey v

/-- Records are in the order of their submissions. -/
theorem StandsFor.origin_lt {v : View} {x y : KeyRecord} {i j : Nat} (hx : StandsFor v x i)
    (hy : StandsFor v y j) : x.origin < y.origin ↔ i < j := by
  rw [hx.1, hy.1]
  exact Option.some_lt_some

/-- No later record of its key is delivered before a record is consumed. -/
theorem Ready.oldest {v w : View} {r r' : KeyRecord} (hr : Ready v r)
    (h : TapStep K v r true r' w) (hreal : r.event.isNoEvent = false) :
    ∀ x ∈ v.waitingBuffer, x.event.key = r.event.key → r.origin < x.origin := by
  intro x hx hkey
  rcases hr.place hreal with hfirst | ⟨hu, holder⟩
  · exact hfirst x hx
  · exfalso
    obtain ⟨hrel, htyped, hne, -⟩ := h.early_of hu
    obtain ⟨-, hpr⟩ := r.event.isReleased_iff.mp hrel
    have htyped' : ∀ y ∈ v.waitingBuffer, y.event.key = r.event.key → y.event.pressed = false := by
      intro y hy hk
      simp only [typed, List.any_eq_false, Bool.and_eq_true, beq_iff_eq, bne_iff_ne, ne_eq,
        not_and, not_not] at htyped
      exact (htyped y hy hk.symm).symm.trans hpr
    obtain ⟨j, hj, -⟩ := (hr.inHand hreal).stands
    obtain ⟨hxreal, i, hi, hnd⟩ := hr.core.buffered x hx
    have hij : i < j := (hi.origin_lt hj).mp (holder x hx)
    have hxp := htyped' x hx hkey
    -- two releases of the key: the press between them is in the books
    obtain ⟨m, c, him, hmj, hm, hc, hcp⟩ := hr.alternating.between hij hi.2 hj.2
      ⟨hxreal, rfl⟩ ⟨hreal, hkey.symm⟩ (hxp.trans hpr.symm)
    rw [hpr, Bool.not_false] at hcp
    rcases hr.accounted m c hm hc.1 with hd | ⟨-, ho⟩ | ⟨y, hy, ho⟩ | ⟨-, ho⟩
    · exact hnd (hr.inOrder.delivered hr.core him hi.2 hm ⟨hxreal, hc.2.symm⟩ hd)
    · obtain ⟨n, hn, -⟩ := hr.core.tapping (undecided_real hu).1
      have hev : v.tappingKey.event = c := congrArg Prod.snd (hn.tag_eq ho hm)
      exact hne (hev ▸ hkey.symm.trans hc.2.symm)
    · obtain ⟨-, n, hn, -⟩ := hr.core.buffered y hy
      have hev : y.event = c := congrArg Prod.snd (hn.tag_eq ho hm)
      have hyp := htyped' y hy (by rw [hev, hc.2, hkey])
      rw [hev, hcp] at hyp
      simp at hyp
    · have hjm : j = m := Option.some.inj (hj.1.symm.trans ho)
      omega

/-! ## Calls -/

/-- Under the rule a new event is ready, when the events alternate. -/
theorem KeyOrdered.ready_new {v : View} (hk : KeyOrdered v) (inp : Input)
    (halt : Alternating (v.submit inp).submitted)
    (hrule : noStranding .new (v.record inp) (v.submit inp)) :
    Ready (v.submit inp) (v.record inp) where
  toAtHand := hk.booked.atHand_new hk.ahead inp hrule
  alternating := halt
  inOrder := hk.inOrder.submit hk.booked.core inp

/-- The record taken off the buffer is ready, when the events alternate. -/
theorem KeyOrdered.ready_replay {v : View} (hk : KeyOrdered v) {x : KeyRecord}
    {xs : List KeyRecord} (hq : v.waitingBuffer = x :: xs) (halt : Alternating v.submitted) :
    Ready (v.withBuffer xs) x where
  toAtHand := hk.booked.atHand_replay hk.ahead hq
  alternating := halt
  inOrder := hk.inOrder

/-- A call only adds to what was submitted. -/
theorem Call.submitted_append {C : CallRule} {v w : View} (h : Call K C v w) :
    ∃ l, w.submitted = v.submitted ++ l := by
  cases h with
  | new inp hc h => exact ⟨[inp.event], by rw [putBack_submitted, h.submitted]; rfl⟩
  | replay hq hc h =>
    exact ⟨[], by rw [putBack_submitted, h.submitted, List.append_nil]; rfl⟩

/-- **A call keeps the order of each key**, for keys that alternate. -/
theorem Call.keyOrdered {C : CallRule} {v w : View} (h : Call K C v w)
    (hC : ∀ src r u, C src r u → noStranding src r u) (halt : Alternating w.submitted)
    (hk : KeyOrdered v) : KeyOrdered w where
  booked := h.booked hk.booked
  inOrder := by
    refine h.inOrder hk.booked sameKey_sameKey hk.inOrder
      (fun hu x hx hb => hk.ahead hu x hx hb.1) ?_
    intro inp r' u hc hsub hstep x hx hbefore
    have hreal : inp.event.isNoEvent = false := inp.wf.real_of_key hbefore.2.symm hbefore.1
    have hready := hk.ready_new inp (by rw [hsub] at halt; exact halt) (hC _ _ _ hc)
    have hlt := hready.oldest hstep hreal x hx hbefore.2
    have hgt := hk.booked.core.lt_record inp x hx
    obtain ⟨-, i, hi, -⟩ := hk.booked.core.buffered x hx
    rw [hi.1] at hlt hgt
    exact absurd (Option.some_lt_some.mp hlt) (Nat.lt_asymm (Option.some_lt_some.mp hgt))
  ahead := h.ahead_everything hC hk.booked hk.ahead

/-- The records still to be processed: those that wait, and the record in
hand. -/
def pending (v : View) (r x : KeyRecord) : Prop :=
  x ∈ v.waitingBuffer ∨ r.event.isNoEvent = false ∧ x = r

theorem pending_empty (w : View) (x : KeyRecord) : pending w {} x ↔ x ∈ w.waitingBuffer := by
  constructor
  · rintro (hx | ⟨hreal, -⟩)
    · exact hx
    · exact empty_not_real hreal
  · exact .inl

/-- A record put back is pending in the buffer instead of in hand. -/
theorem pending_putBack (src : Source) (consumed : Bool) (r' : KeyRecord) (w : View) :
    pending (w.putBack src consumed r') {} = pending w (if consumed then {} else r') := by
  funext x
  apply propext
  rw [pending_empty]
  unfold putBack
  cases consumed with
  | true => exact (pending_empty w x).symm
  | false =>
    cases hn : r'.event.isNoEvent with
    | true => simp [pending, hn]
    | false => cases src <;> simp [pending, hn, withBuffer, or_comm]

/-- Taking a record off the buffer leaves the same records pending. -/
theorem pending_cons {v : View} {x : KeyRecord} {xs : List KeyRecord}
    (hq : v.waitingBuffer = x :: xs) (hreal : x.event.isNoEvent = false) :
    pending (v.withBuffer xs) x = pending v {} := by
  funext y
  apply propext
  rw [pending_empty, hq, List.mem_cons]
  simp [pending, hreal, withBuffer, or_comm]

/-- An invariant of the pending records that a step keeps is kept by a
call. -/
theorem Call.pending_invariant {C : CallRule} {J : View → (KeyRecord → Prop) → Prop}
    (hbuf : ∀ v q P, J v P → J (v.withBuffer q) P)
    (hsubmit : ∀ v inp, KeyOrdered v → Ready (v.submit inp) (v.record inp) →
      J v (pending v {}) → J (v.submit inp) (pending (v.submit inp) (v.record inp)))
    (hstep : ∀ src v r consumed r' w, Ready v r → C src r v → TapStep K v r consumed r' w →
      J v (pending v r) → J w (pending w (if consumed then {} else r')))
    {v w : View} (h : Call K C v w) (hC : ∀ src r u, C src r u → noStranding src r u)
    (halt : Alternating w.submitted) (hk : KeyOrdered v) (hJ : J v (pending v {})) :
    J w (pending w {}) := by
  have hput : ∀ (src : Source) (consumed : Bool) (r' : KeyRecord) (u : View),
      J u (pending u (if consumed then {} else r')) →
      J (u.putBack src consumed r') (pending (u.putBack src consumed r') {}) := by
    intro src consumed r' u hu
    rw [pending_putBack]
    unfold putBack
    split
    · exact hu
    · cases src <;> exact hbuf _ _ _ hu
  cases h with
  | @new inp consumed r' u hc h =>
    have halt' : Alternating (v.submit inp).submitted := by
      rw [putBack_submitted, h.submitted] at halt
      exact halt
    have hready := hk.ready_new inp halt' (hC _ _ _ hc)
    exact hput _ _ _ _ (hstep _ _ _ _ _ _ hready hc h (hsubmit v inp hk hready hJ))
  | @replay x xs consumed r' u hq hc h =>
    rw [putBack_submitted, h.submitted] at halt
    have hready := hk.ready_replay hq halt
    have hreal := (hk.booked.core.tail hq).2.1.real
    refine hput _ _ _ _ (hstep _ _ _ _ _ _ hready hc h ?_)
    rw [pending_cons hq hreal]
    exact hbuf _ _ _ hJ

/-- **What a step keeps in such a run, the run keeps.** -/
theorem run_pending_invariant {C : CallRule} {J : View → (KeyRecord → Prop) → Prop}
    (hbuf : ∀ v q P, J v P → J (v.withBuffer q) P)
    (hsubmit : ∀ v inp, KeyOrdered v → Ready (v.submit inp) (v.record inp) →
      J v (pending v {}) → J (v.submit inp) (pending (v.submit inp) (v.record inp)))
    (hstep : ∀ src v r consumed r' w, Ready v r → C src r v → TapStep K v r consumed r' w →
      J v (pending v r) → J w (pending w (if consumed then {} else r')))
    (hC : ∀ src r u, C src r u → noStranding src r u) (inputs : List Input)
    (hno : NoOverflow K inputs Tapping.init) (hob : Obeys K C inputs Tapping.init)
    (halt : Alternating (inputs.map (·.event)))
    (hJ : J Tapping.init.view (pending Tapping.init.view {})) :
    let v := (run K inputs Tapping.init).view
    KeyOrdered v ∧ J v (pending v {}) := by
  intro v
  have hsub : v.submitted = inputs.map (·.event) :=
    run_submitted inputs Tapping.init realBuffer_init hno
  have hrun := run_invariant
    (fun v => Alternating v.submitted → KeyOrdered v ∧ J v (pending v {}))
    (fun u w hcall ih halt => by
      obtain ⟨l, hl⟩ := hcall.submitted_append
      obtain ⟨hk, hJ⟩ := ih (Alternating.of_append (hl ▸ halt))
      exact ⟨hcall.keyOrdered hC halt hk,
        hcall.pending_invariant hbuf hsubmit hstep hC halt hk hJ⟩)
    inputs Tapping.init realBuffer_init hno hob
    (fun _ => ⟨⟨booked_init, order_init.1, order_init.2⟩, hJ⟩)
  exact hrun (hsub ▸ halt)

end Ch583Kbd.Tmk
