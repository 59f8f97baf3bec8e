/-
Ch583Kbd.Tmk.DeliveryOrder — which events are delivered in the order of
their submission.

`R e' e` says that an earlier `e'` has to be delivered before `e`; two
instances are of interest, all presses and all events of one key.
`InOrder R` says that the log keeps to it: when a record is first or again
handed over, every earlier event it has to wait for is in the log.
`Ahead R` says that nothing the undecided tapping key has to wait for is
still in the buffer.

A step keeps both if the record in hand does (`TapStep.inOrder`,
`TapStep.ahead`); when it does depends on the rule that the calls obey.
-/
import Ch583Kbd.Tmk.Accounting

namespace Ch583Kbd.Tmk

open Ch583Kbd.Lib TappingState

variable {K : Keymap}

/-- `R e' e`: an earlier event `e'` is to be delivered before `e`. -/
structure Precedence where
  before : KeyEvent → KeyEvent → Prop
  real : ∀ {e' e}, before e' e → e'.isNoEvent = false

/-- Whenever a record was handed over, all the earlier events that come before
its own had been. -/
def InOrder (R : Precedence) (v : View) : Prop :=
  ∀ l₁ x l₂, v.handed = l₁ ++ x :: l₂ → ∀ j, x.before.origin = some j →
    ∀ i e', i < j → v.submitted[i]? = some e' → R.before e' x.before.event →
      ∃ y ∈ l₁, y.before.origin = some i

/-- The undecided tapping key is older than the records in the buffer that come
before its event. -/
def Ahead (R : Precedence) (v : View) : Prop :=
  v.undecided = true → ∀ x ∈ v.waitingBuffer, R.before x.event v.tappingKey.event →
    v.tappingKey.origin < x.origin

variable {R : Precedence}

/-- An element of a list with one more at the end is in the list, or is
that one. -/
theorem split_concat {α : Type} {l l₁ l₂ : List α} {a x : α} (h : l ++ [a] = l₁ ++ x :: l₂) :
    (∃ l', l = l₁ ++ x :: l') ∨ l₁ = l ∧ x = a := by
  rcases List.append_eq_append_iff.mp h with ⟨l', hl, hx⟩ | ⟨l', hl, hx⟩
  · cases l' with
    | nil =>
      rw [List.append_nil] at hl
      exact .inr ⟨hl, (List.cons.inj hx).1.symm⟩
    | cons y l' =>
      have hlen := congrArg List.length hx
      simp at hlen
  · cases l' with
    | nil =>
      rw [List.append_nil] at hl
      exact .inr ⟨hl.symm, (List.cons.inj hx).1⟩
    | cons y l' =>
      obtain ⟨rfl, -⟩ := List.cons.inj hx
      exact .inl ⟨l', hl⟩

/-- Handing a record over keeps the order when all that comes before it has been
delivered. -/
theorem InOrder.handThen {v : View} (h : InOrder R v) (r t : KeyRecord)
    (hreal : r.event.isNoEvent = false)
    (hbefore : ∀ j, r.origin = some j → ∀ i e', i < j → v.submitted[i]? = some e' →
      R.before e' r.event → Delivered v i) :
    InOrder R (v.handThen K r t) := by
  intro l₁ x l₂ hsplit
  rw [handThen_handed r t v hreal] at hsplit
  rcases split_concat hsplit with ⟨l, hl⟩ | ⟨hl, hx⟩
  · exact h l₁ x l hl
  · rw [hl, hx]
    exact hbefore

/-- What the undecided tapping key has to wait for has been delivered. -/
theorem before_tapping {v : View} {r : KeyRecord} (hc : Core v) (hu : v.undecided = true)
    (hr : r.event.isNoEvent = false → InHand v r) (ha : Accounted v r) (hah : Ahead R v)
    (hin : R.before r.event v.tappingKey.event → v.tappingKey.origin < r.origin) :
    ∀ j, v.tappingKey.origin = some j → ∀ i e', i < j → v.submitted[i]? = some e' →
      R.before e' v.tappingKey.event → Delivered v i := by
  intro j hj i e' hij hi hR
  rcases ha i e' hi (R.real hR) with hd | ⟨-, ho⟩ | ⟨x, hx, ho⟩ | ⟨hreal, ho⟩
  · exact hd
  · have heq : j = i := Option.some.inj (hj.symm.trans ho)
    omega
  · obtain ⟨-, k, hk, -⟩ := hc.buffered x hx
    have htag := hk.tag_eq ho hi
    have hev : x.event = e' := congrArg Prod.snd htag
    have hlt := hah hu x hx (hev ▸ hR)
    rw [hj, ho] at hlt
    have hlt' := Option.some_lt_some.mp hlt
    omega
  · obtain ⟨k, hk, -⟩ := (hr hreal).stands
    have hev : r.event = e' := congrArg Prod.snd (hk.tag_eq ho hi)
    have hlt := hin (hev ▸ hR)
    rw [hj, ho] at hlt
    have hlt' := Option.some_lt_some.mp hlt
    omega

/-- What the record in hand has to wait for has been delivered, unless it
waits or is the undecided tapping key. -/
theorem before_inHand {v : View} {r : KeyRecord} (hc : Core v) (ha : Accounted v r)
    (htk : v.undecided = true → ¬R.before v.tappingKey.event r.event)
    (hq : ∀ x ∈ v.waitingBuffer, R.before x.event r.event → r.origin < x.origin) :
    ∀ j, r.origin = some j → ∀ i e', i < j → v.submitted[i]? = some e' →
      R.before e' r.event → Delivered v i := by
  intro j hj i e' hij hi hR
  rcases ha i e' hi (R.real hR) with hd | ⟨hu, ho⟩ | ⟨x, hx, ho⟩ | ⟨-, ho⟩
  · exact hd
  · obtain ⟨k, hk, -⟩ := hc.tapping (undecided_real (v := v) hu).1
    have hev : v.tappingKey.event = e' := congrArg Prod.snd (hk.tag_eq ho hi)
    exact absurd (hev ▸ hR) (htk hu)
  · obtain ⟨-, k, hk, -⟩ := hc.buffered x hx
    have hev : x.event = e' := congrArg Prod.snd (hk.tag_eq ho hi)
    have hlt := hq x hx (hev ▸ hR)
    rw [hj, ho] at hlt
    have hlt' := Option.some_lt_some.mp hlt
    omega
  · have heq : j = i := Option.some.inj (hj.symm.trans ho)
    omega

/-- The side conditions under which a step keeps the order `R`: the record
in hand is younger than the undecided tapping key, and a record that is
consumed is older than what waits. -/
structure Admits (R : Precedence) (v : View) (r : KeyRecord) (consumed : Bool) : Prop where
  younger : v.undecided = true → R.before r.event v.tappingKey.event →
    v.tappingKey.origin < r.origin
  early : v.undecided = true → r.event.isReleased = true →
    r.event.key ≠ v.tappingKey.event.key → ¬R.before v.tappingKey.event r.event
  oldest : consumed = true → ∀ x ∈ v.waitingBuffer, R.before x.event r.event →
    r.origin < x.origin

/-- Starting a tapping key delivers nothing out of order. -/
theorem InOrder.started {v : View} (h : InOrder R v) {r : KeyRecord}
    (hr : r.event.isNoEvent = false) : InOrder R (v.started K r) := by
  unfold TappingState.started
  split
  · next hset =>
    refine InOrder.handThen (v := v.lookUp K r.event) h _ r (lastTapRelease_real hset.1 hr)
      fun j ho => ?_
    simp [lastTapRelease] at ho
  · exact h

/-- Handing the tapping key over keeps the order when all that comes before it
has been delivered. -/
theorem InOrder.tapped {v : View} (h : InOrder R v)
    (hreal : v.tappingKey.event.isNoEvent = false)
    (hbefore : ∀ j, v.tappingKey.origin = some j → ∀ i e', i < j → v.submitted[i]? = some e' →
      R.before e' v.tappingKey.event → Delivered v i) : InOrder R (v.tapped K) :=
  h.handThen (v.tappingKey.withCount 1) _ hreal hbefore

/-- **Every branch of `process_tapping` keeps the order of deliveries.** -/
theorem TapStep.inOrder {v w : View} {r r' : KeyRecord} {consumed : Bool}
    (h : TapStep K v r consumed r' w) (hc : Core v) (hwf : r.event.WellFormed)
    (hr : r.event.isNoEvent = false → InHand v r) (ha : Accounted v r) (ho : InOrder R v)
    (hah : Ahead R v) (had : Admits R v r consumed) : InOrder R w := by
  cases h with
  | firstTap hu hs =>
    exact ho.tapped (undecided_real hu).1
      (before_tapping hc hu hr ha hah (had.younger hu))
  | early hu hw hrel hk ht hn =>
    have hin := hr (r.event.isReleased_iff.mp hrel).1
    exact ho.handThen r _ hin.real
      (before_inHand hc ha (fun hu => had.early hu hrel hk) (had.oldest rfl))
  | wait hu hw hs hrel => split <;> exact ho
  | timeout hu hw =>
    exact ho.handThen v.tappingKey _ (undecided_real hu).1
      (before_tapping hc hu hr ha hah (had.younger hu))
  | tapRelease hd hk hp =>
    have hin := hr (hwf.real_of_key hk (settled_real hd).1)
    refine ho.handThen (r.withTap v.tappingKey.tap) _ hin.real
      (before_inHand hc ha (fun hu => ?_) (had.oldest rfl))
    exact absurd (undecided_real hu).2.2 (settled_real hd).2.2
  | start w hu hp ht hrel hscan =>
    have hin := hr (r.event.isPressed_iff.mp hp).1
    have ho' := ho.started (K := K) hin.real
    cases hscan with
    | miss hm => exact ho'
    | hit pre x post hu' hq hpre hx =>
      rw [started_waitingBuffer] at hq
      have hbefore := before_inHand (R := R) hc ha (fun hu' => by rw [hu] at hu'; simp at hu')
        (had.oldest rfl)
      -- the press is delivered at once, with its release still in the buffer
      have ho'' : InOrder R ((v.started K r).withBuffer (pre ++ x.withCount 1 :: post)) := ho'
      refine ho''.tapped (undecided_real hu').1 ?_
      change ∀ j, (v.started K r).tappingKey.origin = some j → _
      rw [started_tappingKey]
      intro j hj i e' hij hi hR
      change (v.started K r).submitted[i]? = some e' at hi
      change R.before e' (v.started K r).tappingKey.event at hR
      rw [started_submitted] at hi
      rw [started_tappingKey] at hR
      exact (hbefore j hj i e' hij hi hR).started r
  | sequential hrel hw hp hk hi hcount =>
    have hin := hr (hwf.real_of_pressed hp)
    refine ho.handThen (r.withTap v.nextTap) _ hin.real
      (before_inHand hc ha (fun hu => ?_) (had.oldest rfl))
    have hpr := (undecided_real hu).2.1
    rw [(released_real hrel).2] at hpr
    simp at hpr
  | again hrel hw hp hk hi => exact ho
  | pass hu he hrel hset ht =>
    have hin := hr he
    exact ho.handThen r _ hin.real
      (before_inHand hc ha (fun hu' => by rw [hu] at hu'; simp at hu') (had.oldest rfl))
  | releasedTimeout hrel hw => exact ho
  | tick hu he hrel => exact ho

/-- An undecided tapping key was the tapping key before, or is the record
just consumed. -/
theorem TapStep.undecided_in {v w : View} {r r' : KeyRecord} {consumed : Bool}
    (h : TapStep K v r consumed r' w) (hu : w.undecided = true) :
    (v.undecided = true ∧ w.tappingKey.tag = v.tappingKey.tag) ∨
      (consumed = true ∧ v.undecided = false ∧ w.tappingKey.tag = r.tag ∧
        r.event.pressed = true) := by
  cases h with
  | firstTap hu' hs => exact .inl ⟨hu', hand_fst_tag (K := K) (v.tappingKey.withCount 1) v⟩
  | early hu' hw hrel hk ht hn => exact .inl ⟨hu', rfl⟩
  | wait hu' hw hs hrel =>
    refine .inl ⟨hu', ?_⟩
    split <;> rfl
  | timeout hu' hw => exact (Bool.false_ne_true hu).elim
  | tapRelease hd hk hp =>
    -- the tapping key is a release now, or gone
    have hpr := (undecided_real hu).2.1
    rw [handThen_tappingKey] at hpr
    split at hpr
    · rw [KeyRecord.withTap_event, hp] at hpr
      simp at hpr
    · simp at hpr
  | start w hu' hp ht hrel hscan =>
    refine .inr ⟨rfl, hu', ?_, (r.event.isPressed_iff.mp hp).2⟩
    cases hscan with
    | miss hm => rw [started_tappingKey]
    | hit pre x post hs hq hpre hx =>
      rw [tapped_tag]
      exact congrArg KeyRecord.tag (started_tappingKey r v)
  | sequential hrel hw hp hk hi hcount =>
    have hzero := (undecided_real hu).2.2
    simp only [handThen_tappingKey, KeyRecord.withTap_tap, nextTap] at hzero
    split at hzero <;> omega
  | again hrel hw hp hk hi =>
    refine .inr ⟨rfl, ?_, rfl, hp⟩
    by_contra hu'
    have hpr := (undecided_real (by simpa using hu')).2.1
    rw [(released_real hrel).2] at hpr
    simp at hpr
  | pass hu' he hrel hset ht =>
    have hsame : (v.interruptedBy r.event).tappingKey.undecided = v.undecided := by
      unfold interruptedBy
      dsimp only
      split <;> rfl
    rw [undecided_eq, handThen_tappingKey, hsame, hu'] at hu
    simp at hu
  | releasedTimeout hrel hw => exact (Bool.false_ne_true hu).elim
  | tick hu' he hrel => exact .inl ⟨hu, rfl⟩

/-- A step keeps the buffer behind the undecided tapping key, and the
record in hand if it is refused. -/
theorem TapStep.ahead {v w : View} {r r' : KeyRecord} {consumed : Bool}
    (h : TapStep K v r consumed r' w) (hah : Ahead R v)
    (hyounger : v.undecided = true → R.before r.event v.tappingKey.event →
      v.tappingKey.origin < r.origin)
    (holdest : consumed = true → v.undecided = false → r.event.pressed = true →
      ∀ x ∈ v.waitingBuffer, R.before x.event r.event → r.origin < x.origin) :
    Ahead R w ∧ (consumed = false → w.undecided = true →
      R.before r'.event w.tappingKey.event → w.tappingKey.origin < r'.origin) := by
  refine ⟨fun hu => ?_, fun hc hu hR => ?_⟩
  · rcases h.undecided_in hu with ⟨hu', htag⟩ | ⟨hc, hu', htag, hp⟩
    · obtain ⟨ho, he⟩ := Prod.mk.inj htag
      rw [ho, he]
      exact forall_of_tags (P := fun o e => R.before e v.tappingKey.event →
        v.tappingKey.origin < o) h.tags (hah hu')
    · obtain ⟨ho, he⟩ := Prod.mk.inj htag
      rw [ho, he]
      exact forall_of_tags (P := fun o e => R.before e r.event → r.origin < o) h.tags
        (holdest hc hu' hp)
  · rcases h.undecided_in hu with ⟨hu', htag⟩ | ⟨hc', -⟩
    · obtain ⟨ho, he⟩ := Prod.mk.inj htag
      obtain ⟨ho', he'⟩ := Prod.mk.inj h.record_tag
      rw [ho, ho']
      rw [he, he'] at hR
      exact hyounger hu' hR
    · rw [hc] at hc'
      simp at hc'

/-- A record that is consumed while the tapping key is undecided is an
early release. -/
theorem TapStep.early_of {v w : View} {r r' : KeyRecord} (h : TapStep K v r true r' w)
    (hu : v.undecided = true) :
    r.event.isReleased = true ∧ typed r.event v = false ∧
      r.event.key ≠ v.tappingKey.event.key ∧ v.retains K r = false := by
  cases h with
  | early hu' hw hrel hk ht hn => exact ⟨hrel, ht, hk, hn⟩
  | tapRelease hd hk hp => exact absurd (undecided_real hu).2.2 (settled_real hd).2.2
  | start w hu' hp ht hrel hscan => rw [hu] at hu'; simp at hu'
  | sequential hrel hw hp hk hi hcount =>
    have hpr := (undecided_real hu).2.1
    rw [(released_real hrel).2] at hpr; simp at hpr
  | again hrel hw hp hk hi =>
    have hpr := (undecided_real hu).2.1
    rw [(released_real hrel).2] at hpr; simp at hpr
  | pass hu' he hrel hset ht => rw [hu] at hu'; simp at hu'
  | tick hu' he hrel => rw [hu] at hu'; simp at hu'

/-! ## Calls -/

/-- Putting a record back keeps the tapping key ahead when it is older than the
record. -/
theorem Ahead.putBack {src : Source} {consumed : Bool} {r : KeyRecord} {w : View} (h : Ahead R w)
    (hr : consumed = false → w.undecided = true →
      R.before r.event w.tappingKey.event → w.tappingKey.origin < r.origin) :
    Ahead R (w.putBack src consumed r) := by
  intro hu
  rw [putBack_undecided] at hu
  rw [putBack_tappingKey]
  exact forall_putBack (h hu) fun hc _ => hr hc hu

/-- A call keeps the tapping key ahead of what comes before it. -/
theorem Call.ahead {C : CallRule} {v w : View} (h : Call K C v w) (hb : Booked v)
    (hah : Ahead R v)
    (hnew : ∀ inp, C .new (v.record inp) (v.submit inp) → v.undecided = false →
      inp.event.pressed = true → ∀ x ∈ v.waitingBuffer, ¬R.before x.event inp.event) :
    Ahead R w := by
  cases h with
  | @new inp consumed r' u hc h =>
    obtain ⟨hah', hrefused⟩ := h.ahead (R := R) hah
      (fun hu _ => by
        obtain ⟨i, hi, -⟩ := hb.core.tapping (undecided_real (v := v) hu).1
        change v.tappingKey.origin < some v.submitted.length
        rw [hi.1]
        exact Option.some_lt_some.mpr hi.lt)
      (fun _ hu hp x hx hbefore => absurd hbefore (hnew inp hc hu hp x hx))
    exact hah'.putBack hrefused
  | @replay x xs consumed r' u hq hc h =>
    have hlt := (hb.core.tail hq).2.2
    obtain ⟨hah', hrefused⟩ := h.ahead (R := R) (v := v.withBuffer xs)
      (fun hu y hy => hah hu y (hq ▸ List.mem_cons_of_mem _ hy))
      (fun hu => hah hu x (hq ▸ List.mem_cons_self)) (fun _ _ _ y hy _ => hlt y hy)
    exact hah'.putBack hrefused

/-- A new submission is later than everything in the log. -/
theorem InOrder.submit {v : View} (h : InOrder R v) (hc : Core v) (inp : Input) :
    InOrder R (v.submit inp) := by
  intro l₁ x l₂ hsplit j hj i e' hij hi
  have hlog := hc.logged x (hsplit ▸ List.mem_append_right _ List.mem_cons_self)
  have hjl := (List.getElem?_eq_some_iff.mp (hlog.2.2.2 j hj)).1
  exact h l₁ x l₂ hsplit j hj i e' hij
    ((List.getElem?_append_left (Nat.lt_trans hij hjl)).symm.trans hi)

/-- A release has to wait for no press of another key. -/
def Precedence.SameKey (R : Precedence) : Prop :=
  ∀ e' e, R.before e' e → e'.pressed = true → e.pressed = false → e'.key = e.key

/-- **A call keeps the order of deliveries**, when a new event that is consumed
passes none that comes before it. -/
theorem Call.inOrder {C : CallRule} {v w : View} (h : Call K C v w) (hb : Booked v)
    (hR : R.SameKey) (ho : InOrder R v) (hah : Ahead R v)
    (hnew : ∀ inp r' u, C .new (v.record inp) (v.submit inp) →
      w.submitted = v.submitted ++ [inp.event] →
      TapStep K (v.submit inp) (v.record inp) true r' u →
      ∀ x ∈ v.waitingBuffer, ¬R.before x.event inp.event) :
    InOrder R w := by
  have hearly : ∀ (u : View) (r : KeyRecord), u.undecided = true →
      r.event.isReleased = true → r.event.key ≠ u.tappingKey.event.key →
      ¬R.before u.tappingKey.event r.event := by
    intro u r hu hrel hk hbefore
    exact hk (hR _ _ hbefore (undecided_real hu).2.1 (r.event.isReleased_iff.mp hrel).2).symm
  have hput : ∀ (src : Source) (consumed : Bool) (r : KeyRecord) (u : View),
      InOrder R u → InOrder R (u.putBack src consumed r) := by
    intro src consumed r u hu
    unfold putBack
    split
    · exact hu
    · cases src <;> exact hu
  cases h with
  | @new inp consumed r' u hc h =>
    have hsub : (u.putBack .new consumed r').submitted = v.submitted ++ [inp.event] := by
      rw [putBack_submitted, h.submitted]
      rfl
    have hin := hb.core.record_inHand inp
    have hord := ho.submit hb.core inp
    have had : Admits R (v.submit inp) (v.record inp) consumed := by
      refine ⟨fun hu _ => ?_, hearly _ _, fun hcons x hx hbefore => ?_⟩
      · obtain ⟨i, hi, -⟩ := hb.core.tapping (undecided_real (v := v) hu).1
        change v.tappingKey.origin < some v.submitted.length
        rw [hi.1]
        exact Option.some_lt_some.mpr hi.lt
      · subst hcons
        exact absurd hbefore (hnew inp r' u hc hsub h x hx)
    exact hput _ _ _ _ (h.inOrder (hb.core.submit inp) inp.wf hin (hb.accounted.submit inp)
      hord hah had)
  | @replay x xs consumed r' u hq hc h =>
    obtain ⟨hcore, hin, hlt⟩ := hb.core.tail hq
    have hwf : x.event.WellFormed := fun hn => by rw [hin.real] at hn; simp at hn
    have hah' : Ahead R (v.withBuffer xs) := fun hu y hy =>
      hah hu y (hq ▸ List.mem_cons_of_mem _ hy)
    have had : Admits R (v.withBuffer xs) x consumed :=
      ⟨fun hu => hah hu x (hq ▸ List.mem_cons_self), hearly _ _, fun _ y hy _ => hlt y hy⟩
    exact hput _ _ _ _ (h.inOrder hcore hwf (fun _ => hin) (hb.accounted.tail hq hin.real)
      ho hah' had)

/-- At the start nothing was delivered, and there is no tapping key. -/
theorem order_init : InOrder R Tapping.init.view ∧ Ahead R Tapping.init.view := by
  refine ⟨fun l₁ x l₂ hsplit => ?_, fun hu => (Bool.false_ne_true hu).elim⟩
  have hlen := congrArg List.length hsplit
  simp [Tapping.init, view] at hlen

end Ch583Kbd.Tmk
