/-
Ch583Kbd.Tmk.TapDecision — a tap key is a tap if its release comes within
the term, and held otherwise.

Five places of `process_tapping` decide that: the first tap, the timeout,
the scan of the buffer when a tap starts, the start after an interrupted
tap and the replay of what waits. They agree with the rule of one line
(`TypedTap`) in every run in which no event is submitted past records that
wait (`noStranding`) and in which "FIX: start new tap again", the one start
that does not scan the buffer, finds nothing a scan would have found
(`cleanRestart`).

The event times are the low 16 bits of a clock that does not run
backwards. What is still open is less than 2^15 old, so a difference of
event times is a difference of the clock (`Clocked.diff`).
-/
import Mathlib.Algebra.Group.Nat.Defs
import Ch583Kbd.Tmk.KeyOrder

namespace Ch583Kbd.Tmk

open Ch583Kbd.Lib TappingState

variable {K : Keymap}

/-- The key is a tap key, whatever layers are on. -/
def TapKey (K : Keymap) (key : KeyPos) : Prop :=
  ∀ layers, (K (topLayer K layers key 32) key).isTap = true

/-- A press of a tap key performs a tap action in every layer. -/
theorem TapKey.actionOf_isTap {key : KeyPos} (h : TapKey K key) (s : ActionState) {e : KeyEvent}
    (hk : e.key = key) (hp : e.isPressed = true) : (s.actionOf K e).isTap = true := by
  obtain ⟨hreal, hpr⟩ := e.isPressed_iff.mp hp
  simp only [ActionState.actionOf, hreal, Bool.false_eq_true, if_false, ActionState.layerFor, hpr,
    if_true, hk]
  exact h _

/-! ## The clock -/

/-- `clock i` is when submission `i` was made. -/
structure Clocked (clock : Nat → Nat) (events : List KeyEvent) : Prop where
  mono : ∀ j, j < events.length → ∀ i, i ≤ j → clock i ≤ clock j
  time : ∀ i (h : i < events.length), events[i].time = BitVec.ofNat 16 (clock i)

instance (clock : Nat → Nat) (events : List KeyEvent) : Decidable (Clocked clock events) :=
  decidable_of_iff ((∀ j, j < events.length → ∀ i, i ≤ j → clock i ≤ clock j) ∧
      ∀ i (h : i < events.length), events[i].time = BitVec.ofNat 16 (clock i))
    ⟨fun h => ⟨h.1, h.2⟩, fun h => ⟨h.mono, h.time⟩⟩

variable {clock : Nat → Nat} {events : List KeyEvent}

namespace Clocked

theorem of_append {l : List KeyEvent} (h : Clocked clock (events ++ l)) :
    Clocked clock events := by
  have hlen : (events ++ l).length = events.length + l.length := List.length_append
  refine ⟨fun j hj i hij => h.mono j (by omega) i hij, fun i hi => ?_⟩
  have ht := h.time i (by omega)
  rw [List.getElem_append_left hi] at ht
  exact ht

/-- The clock does not go back. -/
theorem le (h : Clocked clock events) {i j : Nat} {e : KeyEvent} (hj : events[j]? = some e)
    (hij : i ≤ j) : clock i ≤ clock j :=
  h.mono j (List.getElem?_eq_some_iff.mp hj).1 i hij

/-- `TIMER_DIFF_16` of two event times is the time between them. -/
theorem diff (h : Clocked clock events) {i j : Nat} {d e : KeyEvent} (hi : events[i]? = some d)
    (hj : events[j]? = some e) (hij : i ≤ j) (hage : clock j < clock i + 2 ^ 15) :
    (timerDiff16 e.time d.time).toNat = clock j - clock i := by
  obtain ⟨hil, hid⟩ := List.getElem?_eq_some_iff.mp hi
  obtain ⟨hjl, hje⟩ := List.getElem?_eq_some_iff.mp hj
  have hle := h.le hj hij
  have hd := h.time i hil
  have he := h.time j hjl
  rw [hid] at hd
  rw [hje] at he
  rw [timerDiff16, hd, he, BitVec.toNat_sub, BitVec.toNat_ofNat, BitVec.toNat_ofNat]
  omega

end Clocked

/-- Less than 2^15 has passed since the event of the record. -/
def recent (clock : Nat → Nat) (v : View) (x : KeyRecord) : Prop :=
  ∀ i ∈ x.origin, clock (v.submitted.length - 1) < clock i + 2 ^ 15

/-- What has not been processed yet is less than 2^15 old. -/
def agesBounded (clock : Nat → Nat) : CallRule := fun _ r v =>
  (v.undecided = true → recent clock v v.tappingKey) ∧ recent clock v r ∧
    ∀ x ∈ v.waitingBuffer, recent clock v x

instance (v : View) (x : KeyRecord) : Decidable (recent clock v x) :=
  inferInstanceAs (Decidable (∀ i ∈ x.origin, _))

instance (src : Source) (r : KeyRecord) (v : View) : Decidable (agesBounded clock src r v) :=
  inferInstanceAs (Decidable (_ ∧ _ ∧ _))

/-- `WITHIN_TAPPING_TERM` of a later record is exact while the tapping key is
recent. -/
theorem within_iff {v : View} {t x : KeyRecord} {i j : Nat} (h : Clocked clock v.submitted)
    (ht : StandsFor v t i) (hx : StandsFor v x j) (hij : i ≤ j) (hage : recent clock v t) :
    (timerDiff16 x.event.time t.event.time).toNat < tappingTerm ↔
      clock j < clock i + tappingTerm := by
  have hlt := hx.lt
  have hlast := h.mono (v.submitted.length - 1) (by omega) j (by omega)
  have hrecent := hage i ht.1
  rw [h.diff ht.2 hx.2 hij (by omega)]
  have hle := h.le hx.2 hij
  omega

/-! ## The rule of one line -/

/-- The next event of the key after submission `i` is a release less than
`TAPPING_TERM` later. -/
def TypedTap (clock : Nat → Nat) (events : List KeyEvent) (key : KeyPos) (i : Nat) : Prop :=
  ∃ (j : Nat) (e : KeyEvent), i < j ∧ events[j]? = some e ∧ e.OfKey key ∧ e.pressed = false ∧
    clock j < clock i + tappingTerm ∧
    ∀ (m : Nat) (d : KeyEvent), i < m → m < j → events[m]? = some d → ¬d.OfKey key

/-- The term of submission `i` is over and the key was not released in
it. -/
def Held (clock : Nat → Nat) (events : List KeyEvent) (key : KeyPos) (i : Nat) : Prop :=
  (∃ m, m < events.length ∧ clock i + tappingTerm ≤ clock m) ∧
    ∀ (j : Nat) (e : KeyEvent), i < j → events[j]? = some e → e.OfKey key → e.pressed = false →
      clock i + tappingTerm ≤ clock j

variable {key : KeyPos} {i : Nat}

/-- A press that is held was not typed as a tap. -/
theorem Held.not_typedTap (h : Held clock events key i) : ¬TypedTap clock events key i := by
  rintro ⟨j, e, hij, hj, he, hp, hterm, -⟩
  have hlate := h.2 j e hij hj he hp
  omega

/-- A tap that was typed stays one whatever comes later. -/
theorem TypedTap.append (h : TypedTap clock events key i) (l : List KeyEvent) :
    TypedTap clock (events ++ l) key i := by
  obtain ⟨j, e, hij, hj, he, hp, hterm, hnext⟩ := h
  have hlt := (List.getElem?_eq_some_iff.mp hj).1
  refine ⟨j, e, hij, (List.getElem?_append_left hlt).trans hj, he, hp, hterm, ?_⟩
  intro m d him hmj hm
  exact hnext m d him hmj ((List.getElem?_append_left (Nat.lt_trans hmj hlt)).symm.trans hm)

/-- A press that was held past its term stays held whatever comes later. -/
theorem Held.append {l : List KeyEvent} (h : Held clock events key i)
    (hc : Clocked clock (events ++ l)) : Held clock (events ++ l) key i := by
  obtain ⟨⟨m, hm, hterm⟩, hlate⟩ := h
  refine ⟨⟨m, by rw [List.length_append]; omega, hterm⟩, fun j e hij hj he hp => ?_⟩
  by_cases hlt : j < events.length
  · exact hlate j e hij ((List.getElem?_append_left hlt).symm.trans hj) he hp
  · have hle := hc.le hj (i := m) (by omega)
    omega

/-- A release within the term is the next event of its key if no earlier
release is within the term. -/
theorem typedTap_of_release (halt : Alternating events) (hc : Clocked clock events) {j : Nat}
    {d e : KeyEvent} (hi : events[i]? = some d) (hj : events[j]? = some e) (hd : d.OfKey key)
    (he : e.OfKey key) (hdp : d.pressed = true) (hep : e.pressed = false) (hij : i < j)
    (hterm : clock j < clock i + tappingTerm)
    (hlate : ∀ (m : Nat) (c : KeyEvent), i < m → m < j → events[m]? = some c → c.OfKey key →
      c.pressed = false → clock i + tappingTerm ≤ clock m) :
    TypedTap clock events key i := by
  have hnone : ∀ (m : Nat) (c : KeyEvent), i < m → m < j → events[m]? = some c →
      c.OfKey key → c.pressed = true := by
    intro m c him hmj hm hc'
    by_contra hp
    have hle := hc.le hj (Nat.le_of_lt hmj)
    have hm' := hlate m c him hmj hm hc' ((Bool.not_eq_true _).mp hp)
    omega
  refine ⟨j, e, hij, hj, he, hep, hterm, fun m c him hmj hm hc' => ?_⟩
  -- between two presses of the key there would be a release
  have hcp := hnone m c him hmj hm hc'
  obtain ⟨n, b, hin, hnm, hn, hb, hbp⟩ :=
    halt.between him hi hm hd hc' (hdp.trans hcp.symm)
  rw [hcp, hnone n b hin (Nat.lt_trans hnm hmj) hn hb] at hbp
  simp at hbp

/-! ## The log agrees with it -/

/-- What the count of a record that is handed over says of the press of
submission `i`. -/
def Decision (clock : Nat → Nat) (events : List KeyEvent) (x : KeyRecord) (i : Nat) : Prop :=
  2 ≤ x.tap.count ∨ (x.tap.count = 1 ∧ TypedTap clock events x.event.key i) ∨
    (x.tap.count = 0 ∧ Held clock events x.event.key i)

/-- Every press of a tap key was first handed over with the right
count. -/
def Decided (K : Keymap) (clock : Nat → Nat) (events : List KeyEvent) (handed : List Handed) :
    Prop :=
  ∀ l₁ x l₂ i, handed = l₁ ++ x :: l₂ → x.before.origin = some i →
    (∀ y ∈ l₁, y.before.origin ≠ some i) → x.before.event.pressed = true →
    TapKey K x.before.event.key → Decision clock events x.before i

/-- The record is no release that settles the undecided tapping key. -/
def LateRelease (clock : Nat → Nat) (v : View) (x : KeyRecord) : Prop :=
  v.undecided = true → ∀ i j, v.tappingKey.origin = some i → ¬Delivered v i →
    x.origin = some j → x.event.key = v.tappingKey.event.key → x.event.pressed = false →
    clock i + tappingTerm ≤ clock j

/-- "FIX: start new tap again" finds no release in the buffer that the
scan of the other starts would have found. -/
def cleanRestart : CallRule := fun _ r v =>
  v.isTappingReleased = true → v.withinTappingTerm r.event = true → r.event.pressed = true →
    r.event.key = v.tappingKey.event.key →
    v.tappingKey.tap.interrupted = true ∨ v.tappingKey.tap.count = 0 →
    ∀ x ∈ v.waitingBuffer, ({ v with tappingKey := r } : View).settledBy x = false

instance (src : Source) (r : KeyRecord) (v : View) : Decidable (cleanRestart src r v) :=
  inferInstanceAs (Decidable (_ → _ → _ → _ → _ → _))

/-- A decision holds whatever comes later. -/
theorem Decision.append {x : KeyRecord} {l : List KeyEvent} (h : Decision clock events x i)
    (hc : Clocked clock (events ++ l)) : Decision clock (events ++ l) x i := by
  rcases h with h2 | ⟨h1, ht⟩ | ⟨h0, hh⟩
  · exact .inl h2
  · exact .inr (.inl ⟨h1, ht.append l⟩)
  · exact .inr (.inr ⟨h0, hh.append hc⟩)

/-- Handing a press over with the right count keeps the log right. -/
theorem Decided.handThen {v : View} (h : Decided K clock v.submitted v.handed)
    (r t : KeyRecord) (hreal : r.event.isNoEvent = false)
    (hr : ∀ i, r.origin = some i → ¬Delivered v i → r.event.pressed = true →
      TapKey K r.event.key → Decision clock v.submitted r i) :
    Decided K clock v.submitted (v.handThen K r t).handed := by
  intro l₁ x l₂ i hsplit ho hfirst hp htap
  rw [handThen_handed r t v hreal] at hsplit
  rcases split_concat hsplit with ⟨l, hl⟩ | ⟨rfl, rfl⟩
  · exact h l₁ x l i hl ho hfirst hp htap
  · refine hr i ho ?_ hp htap
    rintro ⟨y, hy, hyo⟩
    exact hfirst y hy hyo

/-- Handing a release over decides no press. -/
theorem Decided.handThen_release {v : View} (h : Decided K clock v.submitted v.handed)
    (r t : KeyRecord) (hreal : r.event.isNoEvent = false) (hp : r.event.pressed = false) :
    Decided K clock v.submitted (v.handThen K r t).handed :=
  h.handThen r t hreal fun _ _ _ hpr => by rw [hp] at hpr; simp at hpr

/-- "Start" decides no press. -/
theorem Decided.started {v : View} (h : Decided K clock v.submitted v.handed) {r : KeyRecord}
    (hr : r.event.isNoEvent = false) :
    Decided K clock v.submitted (v.started K r).handed := by
  unfold TappingState.started
  split
  · next hset =>
    exact h.handThen_release (v := v.lookUp K r.event) _ r (lastTapRelease_real hset.1 hr) rfl
  · exact h

/-! ## A step decides by the rule -/

section Step

variable {v w : View} {r r' : KeyRecord} {consumed : Bool} {src : Source}

/-- What settles the tapping key is its release within the term. -/
theorem settledBy_spec {x : KeyRecord} (h : v.settledBy x = true) :
    x.event.key = v.tappingKey.event.key ∧ x.event.pressed = false ∧
      v.withinTappingTerm x.event = true := by
  simp only [settledBy, isTappingKey, Bool.and_eq_true, beq_iff_eq, Bool.not_eq_true'] at h
  exact ⟨h.1.1.2.symm, h.1.2, h.2⟩

/-- A release of the tapping key that does not settle it comes after the
term. -/
theorem late_of_unsettled {t x : KeyRecord} {i j : Nat} (hclk : Clocked clock v.submitted)
    (ht : StandsFor v t i) (hx : StandsFor v x j) (hij : i < j) (hage : recent clock v t)
    (hreal : t.event.isNoEvent = false) (hk : x.event.key = t.event.key)
    (hp : x.event.pressed = false)
    (h : ({ v with tappingKey := t } : View).settledBy x = false) :
    clock i + tappingTerm ≤ clock j := by
  have hw : ({ v with tappingKey := t } : View).withinTappingTerm x.event = false := by
    simpa [settledBy, isTappingKey, isTapping, hreal, hk, hp] using h
  have hiff := within_iff hclk ht hx (Nat.le_of_lt hij) hage
  simp only [withinTappingTerm, decide_eq_false_iff_not, hiff] at hw
  omega

/-- An event of a key that is later than an undelivered one of the key is
not delivered. -/
theorem Ready.undelivered_after (hr : Ready v r) {m : Nat} {d c : KeyEvent}
    (hi : v.submitted[i]? = some d) (hm : v.submitted[m]? = some c) (him : i < m)
    (hd : d.OfKey c.key) (hnd : ¬Delivered v i) : ¬Delivered v m :=
  fun hdm => hnd (hr.inOrder.delivered hr.core him hi hm hd hdm)

/-- The releases of an undecided, undelivered tapping key that are not in
hand come after the term. -/
theorem Ready.late (hr : Ready v r) (hu : v.undecided = true)
    (hlate : ∀ x ∈ v.waitingBuffer, LateRelease clock v x)
    (hi : v.tappingKey.origin = some i) (hnd : ¬Delivered v i) {m : Nat} {c : KeyEvent}
    (him : i < m) (hm : v.submitted[m]? = some c) (hc : c.OfKey v.tappingKey.event.key)
    (hp : c.pressed = false) (hne : r.origin ≠ some m) : clock i + tappingTerm ≤ clock m := by
  obtain ⟨hreal, hpr, -⟩ := undecided_real hu
  obtain ⟨i', hti, -⟩ := hr.core.tapping hreal
  obtain rfl : i' = i := Option.some.inj (hti.1.symm.trans hi)
  rcases hr.accounted m c hm hc.1 with hd | ⟨-, ho⟩ | ⟨x, hx, ho⟩ | ⟨-, ho⟩
  · exact absurd hd (hr.undelivered_after hti.2 hm him ⟨hreal, hc.2.symm⟩ hnd)
  · have hev : v.tappingKey.event = c := congrArg Prod.snd (hti.tag_eq ho hm)
    rw [hev, hp] at hpr
    simp at hpr
  · obtain ⟨-, n, hn, -⟩ := hr.core.buffered x hx
    have hev : x.event = c := congrArg Prod.snd (hn.tag_eq ho hm)
    exact hlate x hx hu i' m hi hnd ho (hev ▸ hc.2) (hev ▸ hp)
  · exact absurd ho hne

/-- The first tap: the record in hand is the release. -/
theorem Ready.typedTap_firstTap (hr : Ready v r) (hclk : Clocked clock v.submitted)
    (hage : agesBounded clock src r v) (hu : v.undecided = true) (hs : v.settledBy r = true)
    (hlate : ∀ x ∈ v.waitingBuffer, LateRelease clock v x)
    (hi : v.tappingKey.origin = some i) (hnd : ¬Delivered v i) :
    TypedTap clock v.submitted v.tappingKey.event.key i := by
  obtain ⟨hreal, hpr, -⟩ := undecided_real hu
  obtain ⟨hk, hrp, hw⟩ := settledBy_spec hs
  have hrreal := hr.wf.real_of_key hk hreal
  obtain ⟨i', hti, -⟩ := hr.core.tapping hreal
  obtain rfl : i' = i := Option.some.inj (hti.1.symm.trans hi)
  obtain ⟨j, hj, -⟩ := (hr.inHand hrreal).stands
  have hij : i' < j := (hti.origin_lt hj).mp (hr.younger hu)
  have hterm := (within_iff hclk hti hj (Nat.le_of_lt hij) (hage.1 hu)).mp
    (of_decide_eq_true hw)
  refine typedTap_of_release hr.alternating hclk hti.2 hj.2 ⟨hreal, rfl⟩ ⟨hrreal, hk⟩ hpr hrp hij
    hterm fun m c him hmj hm hc hcp => ?_
  refine hr.late hu hlate hi hnd him hm hc hcp fun ho => ?_
  have hjm : j = m := Option.some.inj (hj.1.symm.trans ho)
  omega

/-- The scan: the first release it finds is the next event of the key. -/
theorem Ready.typedTap_scan (hr : Ready v r) (hclk : Clocked clock v.submitted)
    (hage : agesBounded clock src r v) (hu : v.undecided = false) (hp : r.event.isPressed = true)
    {pre post : List KeyRecord} {x : KeyRecord} (hq : v.waitingBuffer = pre ++ x :: post)
    (hpre : ∀ y ∈ pre, ({ v with tappingKey := r } : View).settledBy y = false)
    (hx : ({ v with tappingKey := r } : View).settledBy x = true) (hi : r.origin = some i) :
    TypedTap clock v.submitted r.event.key i := by
  obtain ⟨hreal, hpr⟩ := r.event.isPressed_iff.mp hp
  obtain ⟨hk, hxp, hw⟩ := settledBy_spec hx
  have hin := hr.inHand hreal
  obtain ⟨i', hti, hnd⟩ := hin.stands
  obtain rfl : i' = i := Option.some.inj (hti.1.symm.trans hi)
  obtain ⟨hxreal, j, hj, -⟩ := hr.core.buffered x (hq ▸ List.mem_append_right _ List.mem_cons_self)
  have hfirst : ∀ y ∈ v.waitingBuffer, r.origin < y.origin := by
    rcases hr.place hreal with hfirst | ⟨hu', -⟩
    · exact hfirst
    · rw [hu] at hu'
      simp at hu'
  have hij : i' < j :=
    (hti.origin_lt hj).mp (hfirst x (hq ▸ List.mem_append_right _ List.mem_cons_self))
  have hterm := (within_iff hclk hti hj (Nat.le_of_lt hij) hage.2.1).mp (of_decide_eq_true hw)
  refine typedTap_of_release hr.alternating hclk hti.2 hj.2 ⟨hreal, rfl⟩ ⟨hxreal, hk⟩ hpr hxp hij
    hterm fun m c him hmj hm hc hcp => ?_
  rcases hr.accounted m c hm hc.1 with hd | ⟨hu', -⟩ | ⟨y, hy, ho⟩ | ⟨-, ho⟩
  · exact absurd hd (hr.undelivered_after hti.2 hm him ⟨hreal, hc.2.symm⟩ hnd)
  · rw [← undecided_eq, hu] at hu'
    simp at hu'
  · -- `y` is older than `x`, so the scan has passed it
    obtain ⟨-, n, hn, -⟩ := hr.core.buffered y hy
    have hnm : n = m := Option.some.inj (hn.1.symm.trans ho)
    have hev : y.event = c := congrArg Prod.snd (hn.tag_eq ho hm)
    have hlt : y.origin < x.origin := (hn.origin_lt hj).mpr (hnm ▸ hmj)
    have hy' : y ∈ pre := by
      have hord := hr.core.ordered
      rw [hq, List.pairwise_append, List.pairwise_cons] at hord
      rw [hq, List.mem_append, List.mem_cons] at hy
      rcases hy with hy | rfl | hy
      · exact hy
      · exact absurd ((hn.origin_lt hj).mp hlt) (by
          have hnj : n = j := Option.some.inj (hn.1.symm.trans hj.1)
          omega)
      · have hgt := (hj.origin_lt hn).mp (hord.2.1.1 y hy)
        exact absurd ((hn.origin_lt hj).mp hlt) (by omega)
    exact late_of_unsettled hclk hti (hnm ▸ hn) him hage.2.1 hreal (hev ▸ hc.2) (hev ▸ hcp)
      (hpre y hy')
  · have him' : i' = m := Option.some.inj (hti.1.symm.trans ho)
    omega

/-- The timeout: the record in hand comes after the term. -/
theorem Ready.held_timeout (hr : Ready v r) (hclk : Clocked clock v.submitted)
    (hage : agesBounded clock src r v) (hu : v.undecided = true)
    (hw : v.withinTappingTerm r.event = false)
    (hlate : ∀ x ∈ v.waitingBuffer, LateRelease clock v x)
    (hi : v.tappingKey.origin = some i) (hnd : ¬Delivered v i) :
    Held clock v.submitted v.tappingKey.event.key i := by
  obtain ⟨i', hti, -⟩ := hr.core.tapping (undecided_real hu).1
  obtain rfl : i' = i := Option.some.inj (hti.1.symm.trans hi)
  obtain ⟨j, hj⟩ := hr.stands
  have hij : i' < j := (hti.origin_lt hj).mp (hr.younger hu)
  have hterm : clock i' + tappingTerm ≤ clock j := by
    have hiff := within_iff hclk hti hj (Nat.le_of_lt hij) (hage.1 hu)
    simp only [withinTappingTerm, decide_eq_false_iff_not, hiff] at hw
    omega
  refine ⟨⟨j, hj.lt, hterm⟩, fun m c him hm hc hcp => ?_⟩
  by_cases ho : r.origin = some m
  · have hjm : j = m := Option.some.inj (hj.1.symm.trans ho)
    exact hjm ▸ hterm
  · exact hr.late hu hlate hi hnd him hm hc hcp ho

/-- **Every branch of `process_tapping` keeps the log right**, under the rule. -/
theorem TapStep.decided (h : TapStep K v r consumed r' w) (hr : Ready v r)
    (hclk : Clocked clock v.submitted) (hage : agesBounded clock src r v)
    (hlate : ∀ x ∈ v.waitingBuffer, LateRelease clock v x)
    (hd : Decided K clock v.submitted v.handed) : Decided K clock w.submitted w.handed := by
  rw [h.submitted]
  cases h with
  | firstTap hu hs =>
    refine hd.handThen (v.tappingKey.withCount 1) _ (undecided_real hu).1 fun i hi hnd _ _ => ?_
    exact .inr (.inl ⟨rfl, hr.typedTap_firstTap hclk hage hu hs hlate hi hnd⟩)
  | early hu hw hrel hk ht hn =>
    obtain ⟨hreal, hpr⟩ := r.event.isReleased_iff.mp hrel
    exact hd.handThen_release r _ hreal hpr
  | wait hu hw hs hrel => split <;> exact hd
  | timeout hu hw =>
    refine hd.handThen v.tappingKey _ (undecided_real hu).1 fun i hi hnd _ _ => ?_
    exact .inr (.inr ⟨(undecided_real hu).2.2, hr.held_timeout hclk hage hu hw hlate hi hnd⟩)
  | tapRelease hset hk hp =>
    exact hd.handThen_release (r.withTap v.tappingKey.tap) _
      (hr.wf.real_of_key hk (settled_real hset).1) hp
  | start w hu hp ht hrel hscan =>
    have hstarted := hd.started (K := K) (r.event.isPressed_iff.mp hp).1
    cases hscan with
    | miss hm => exact hstarted
    | hit pre x post hu' hq hpre hx =>
      rw [started_waitingBuffer] at hq
      have hsub : (v.started K r).submitted = v.submitted := started_submitted r v
      have hsame : ∀ y, (v.started K r).settledBy y =
          ({ v with tappingKey := r } : View).settledBy y := by
        intro y
        simp only [settledBy, isTappingKey, isTapping, withinTappingTerm, started_tappingKey]
      simp only [hsame] at hpre hx
      rw [← hsub] at hstarted ⊢
      refine Decided.handThen (v := (v.started K r).withBuffer (pre ++ x.withCount 1 :: post))
        hstarted ((v.started K r).tappingKey.withCount 1) _ (undecided_real hu').1
        fun i hi _ _ _ => .inr (.inl ⟨rfl, ?_⟩)
      change (v.started K r).tappingKey.origin = some i at hi
      show TypedTap clock (v.started K r).submitted (v.started K r).tappingKey.event.key i
      rw [started_tappingKey] at hi ⊢
      rw [hsub]
      exact hr.typedTap_scan hclk hage hu hp hq hpre hx hi
  | sequential hrel hw hp hk hi hcount =>
    refine hd.handThen (r.withTap v.nextTap) _ (hr.wf.real_of_pressed hp) fun i _ _ _ _ => .inl ?_
    simp only [KeyRecord.withTap_tap, nextTap]
    split <;> omega
  | again hrel hw hp hk hi => exact hd
  | pass hu he hrel hset ht =>
    refine hd.handThen r _ he fun i _ _ hpr htap => ?_
    have hfalse := ht hpr
    rw [htap.actionOf_isTap v.act rfl (r.event.isPressed_iff.mpr ⟨he, hpr⟩)] at hfalse
    simp at hfalse
  | releasedTimeout hrel hw => exact hd
  | tick hu he hrel => exact hd

/-- A press that becomes the undecided tapping key finds no release in the
buffer that settles it. -/
theorem TapStep.unsettled (h : TapStep K v r true r' w) (hreal : r.event.isNoEvent = false)
    (hclean : cleanRestart src r v) (hu : v.undecided = false) (hu' : w.undecided = true)
    (hi : r.origin = some i) (hnd : ¬Delivered w i) :
    ∀ x ∈ v.waitingBuffer, ({ v with tappingKey := r } : View).settledBy x = false := by
  cases h with
  | early hu'' hw hrel hk ht hn => rw [hu] at hu''; simp at hu''
  | tapRelease hset hk hp =>
    have hpr := (undecided_real hu').2.1
    rw [handThen_tappingKey] at hpr
    split at hpr
    · rw [KeyRecord.withTap_event, hp] at hpr
      simp at hpr
    · simp at hpr
  | start w hu'' hp ht hrel hscan =>
    cases hscan with
    | miss hm =>
      intro x hx
      have hx' := hm hu' x (by rw [started_waitingBuffer]; exact hx)
      simp only [settledBy, isTappingKey, isTapping, withinTappingTerm, started_tappingKey] at hx' ⊢
      exact hx'
    | hit pre x post hs hq hpre hx =>
      refine absurd (delivered_handThen_self ((v.started K r).tappingKey.withCount 1) _ _
        (undecided_real hs).1 ?_) hnd
      show (v.started K r).tappingKey.origin = some i
      rw [started_tappingKey]
      exact hi
  | sequential hrel hw hp hk hint hcount =>
    exact absurd (delivered_handThen_self (r.withTap v.nextTap) _ v hreal hi) hnd
  | again hrel hw hp hk hint => exact hclean hrel hw hp hk hint
  | pass hu'' he hrel hset ht =>
    exact absurd (delivered_handThen_self r _ v he hi) hnd
  | tick hu'' he hrel => rw [he] at hreal; simp at hreal

/-- **A step leaves no release in the buffer that settles the tapping
key.** -/
theorem TapStep.lateReleases (h : TapStep K v r consumed r' w) (hr : Ready v r)
    (hclk : Clocked clock v.submitted) (hage : agesBounded clock src r v)
    (hclean : cleanRestart src r v) (hlate : ∀ x ∈ v.waitingBuffer, LateRelease clock v x) :
    (∀ x ∈ w.waitingBuffer, LateRelease clock w x) ∧
      (consumed = false → LateRelease clock w r') := by
  refine ⟨?_, fun hc => ?_⟩
  · by_cases hu : w.undecided = true
    · -- the tapping key is the one before, or the press in hand
      rcases h.undecided_in hu with ⟨hu', htag⟩ | ⟨hc, hu', htag, hp⟩
      · obtain ⟨ho, he⟩ := Prod.mk.inj htag
        refine forall_of_tags (P := fun o e => w.undecided = true → ∀ i j,
          w.tappingKey.origin = some i → ¬Delivered w i → o = some j →
          e.key = w.tappingKey.event.key → e.pressed = false →
          clock i + tappingTerm ≤ clock j) h.tags fun x hx _ i j hi hnd hj hk hxp => ?_
        rw [ho] at hi
        rw [he] at hk
        exact hlate x hx hu' i j hi (fun hd => hnd (h.delivered_mono hd)) hj hk hxp
      · subst hc
        obtain ⟨ho, he⟩ := Prod.mk.inj htag
        have hreal := hr.wf.real_of_pressed hp
        refine forall_of_tags (P := fun o e => w.undecided = true → ∀ i j,
          w.tappingKey.origin = some i → ¬Delivered w i → o = some j →
          e.key = w.tappingKey.event.key → e.pressed = false →
          clock i + tappingTerm ≤ clock j) h.tags fun x hx _ i j hi hnd hj hk hxp => ?_
        rw [ho] at hi
        rw [he] at hk
        -- no release in the buffer settled it, so each of its own came too late
        have hnone := h.unsettled hreal hclean hu' hu hi hnd
        obtain ⟨i', hti, -⟩ := (hr.inHand hreal).stands
        obtain rfl : i' = i := Option.some.inj (hti.1.symm.trans hi)
        obtain ⟨hxreal, j', hxj, -⟩ := hr.core.buffered x hx
        obtain rfl : j' = j := Option.some.inj (hxj.1.symm.trans hj)
        have hlt : r.origin < x.origin := by
          rcases hr.place hreal with hfirst | ⟨hu'', -⟩
          · exact hfirst x hx
          · rw [hu'] at hu''
            simp at hu''
        exact late_of_unsettled hclk hti hxj ((hti.origin_lt hxj).mp hlt) hage.2.1 hreal hk hxp
          (hnone x hx)
    · intro x _ hu'
      exact absurd hu' hu
  · subst hc
    intro hu i j hi hnd hj hk hrp
    cases h with
    | firstTap hu' hs =>
      have ho : v.tappingKey.origin = some i := by
        rw [← hi]
        exact (congrArg Prod.fst (tapped_tag (K := K) v)).symm
      exact absurd (delivered_handThen_self (v.tappingKey.withCount 1) _ v
        (undecided_real hu').1 ho) hnd
    | wait hu' hw hs hrel =>
      have hk' : r.event.key = v.tappingKey.event.key := by
        rw [hk]
        split <;> rfl
      have hreal : v.isTapping = true := by
        simpa [isTapping] using (undecided_real hu').1
      rw [settledBy, isTappingKey, hreal, hk', hrp, hw] at hs
      simp at hs
    | timeout hu' hw => exact (Bool.false_ne_true hu).elim
    | releasedTimeout hrel hw => exact (Bool.false_ne_true hu).elim

end Step

/-! ## Runs -/

/-- The state of a run between two calls. -/
structure Deciding (K : Keymap) (clock : Nat → Nat) (v : View) : Prop where
  ordered : KeyOrdered v
  decided : Decided K clock v.submitted v.handed
  late : ∀ x ∈ v.waitingBuffer, LateRelease clock v x

/-- The condition on the calls of a run. -/
def decisionRule (clock : Nat → Nat) : CallRule := fun src r v =>
  (noStranding src r v ∧ cleanRestart src r v) ∧ agesBounded clock src r v

/-- A later submission changes no decision. -/
theorem Decided.submit {v : View} (h : Decided K clock v.submitted v.handed) (inp : Input)
    (hc : Clocked clock (v.submit inp).submitted) :
    Decided K clock (v.submit inp).submitted (v.submit inp).handed := by
  intro l₁ x l₂ i hsplit ho hfirst hp htap
  exact (h l₁ x l₂ i hsplit ho hfirst hp htap).append hc

/-- Putting a record back brings no release that would settle the tapping key. -/
theorem LateRelease.putBack {u : View} {x r : KeyRecord} (h : LateRelease clock u x)
    (src : Source) (consumed : Bool) : LateRelease clock (u.putBack src consumed r) x := by
  unfold TappingState.putBack
  split
  · exact h
  · cases src <;> exact h

/-- **A call under the rule keeps the log right.** -/
theorem Call.deciding {v w : View} (h : Call K (decisionRule clock) v w)
    (halt : Alternating w.submitted) (hclk : Clocked clock w.submitted)
    (hk : Deciding K clock v) : Deciding K clock w := by
  have hordered := h.keyOrdered (fun _ _ _ hc => hc.1.1) halt hk.ordered
  cases h with
  | @new inp consumed r' u hc h =>
    rw [putBack_submitted, h.submitted] at halt hclk
    have hready := hk.ordered.ready_new inp halt hc.1.1
    obtain ⟨hlate, hrefused⟩ := h.lateReleases hready hclk hc.2 hc.1.2 hk.late
    have hdec := h.decided hready hclk hc.2 hk.late (hk.decided.submit inp hclk)
    refine ⟨hordered, ?_, forall_putBack (fun x hx => (hlate x hx).putBack _ _)
      fun hc _ => (hrefused hc).putBack _ _⟩
    rw [putBack_submitted, putBack_handed]
    exact hdec
  | @replay x xs consumed r' u hq hc h =>
    rw [putBack_submitted, h.submitted] at halt hclk
    have hready := hk.ordered.ready_replay hq halt
    have hwait : ∀ y ∈ xs, LateRelease clock v y :=
      fun y hy => hk.late y (hq ▸ List.mem_cons_of_mem _ hy)
    obtain ⟨hlate, hrefused⟩ := h.lateReleases hready hclk hc.2 hc.1.2 hwait
    have hdec := h.decided hready hclk hc.2 hwait hk.decided
    refine ⟨hordered, ?_, forall_putBack (fun x hx => (hlate x hx).putBack _ _)
      fun hc _ => (hrefused hc).putBack _ _⟩
    rw [putBack_submitted, putBack_handed]
    exact hdec

/-- The first time a press of a tap key is handed over, and not as a
sequential tap, its count is 1 if the key is typed and 0 otherwise. -/
def TapDecision (K : Keymap) (clock : Nat → Nat) (events : List KeyEvent) (s : Tapping) : Prop :=
  ∀ i e h, events[i]? = some e → e.isPressed = true → TapKey K e.key →
    s.handed.find? (fun h => h.before.origin == some i) = some h → h.before.tap.count < 2 →
    (TypedTap clock events e.key i → h.before.tap.count = 1) ∧
      (¬TypedTap clock events e.key i → h.before.tap.count = 0)

/-- **The tap decision.** In a run in which no event is submitted past
records that wait and every restart of a tap is clean, every press of a
tap key is a tap exactly if its release comes within the term. -/
theorem run_tapDecision (K : Keymap) (clock : Nat → Nat) (inputs : List Input)
    (hno : NoOverflow K inputs Tapping.init) (halt : Alternating (inputs.map (·.event)))
    (hclk : Clocked clock (inputs.map (·.event)))
    (hage : Obeys K (agesBounded clock) inputs Tapping.init)
    (hstrand : Obeys K noStranding inputs Tapping.init)
    (hclean : Obeys K cleanRestart inputs Tapping.init) :
    TapDecision K clock (inputs.map (·.event)) (run K inputs Tapping.init) := by
  have hsub := run_submitted inputs Tapping.init realBuffer_init hno
  rw [show Tapping.init.submitted = [] from rfl, List.nil_append] at hsub
  have hrule : Obeys K (decisionRule clock) inputs Tapping.init :=
    Obeys.and _ _ (Obeys.and _ _ hstrand hclean) hage
  have hinit : Deciding K clock Tapping.init.view := by
    refine ⟨⟨booked_init, order_init.1, order_init.2⟩, fun l₁ x l₂ i hs => ?_, fun x _ => ?_⟩
    · have hlen := congrArg List.length hs
      simp [Tapping.init, view] at hlen
    · exact fun hu => (Bool.false_ne_true hu).elim
  have hrun := run_invariant
    (fun v => Alternating v.submitted → Clocked clock v.submitted → Deciding K clock v)
    (fun u w hcall ih halt hclk => by
      obtain ⟨l, hl⟩ := hcall.submitted_append
      exact hcall.deciding halt hclk
        (ih (Alternating.of_append (hl ▸ halt)) (Clocked.of_append (hl ▸ hclk))))
    inputs Tapping.init realBuffer_init hno hrule fun _ _ => hinit
  have hsub' : (run K inputs Tapping.init).view.submitted = inputs.map (·.event) := hsub
  rw [hsub'] at hrun
  obtain ⟨hordered, hdec, -⟩ := hrun halt hclk
  rw [hsub'] at hdec
  intro i e h hi hp htap hfind hcount
  obtain ⟨ho, l₁, l₂, hs, hfirst⟩ := List.find?_eq_some_iff_append.mp hfind
  rw [beq_iff_eq] at ho
  have hmem : h ∈ (run K inputs Tapping.init).view.handed :=
    hs ▸ List.mem_append_right _ List.mem_cons_self
  have hev := (hordered.booked.core.logged h hmem).2.2.2 i ho
  rw [hsub', hi] at hev
  obtain rfl : e = h.before.event := Option.some.inj hev
  have hdecision := hdec l₁ h l₂ i hs ho (fun y hy hyo => by simpa [hyo] using hfirst y hy)
    ((KeyEvent.isPressed_iff _).mp hp).2 htap
  rcases hdecision with h2 | ⟨h1, ht⟩ | ⟨h0, hh⟩
  · omega
  · exact ⟨fun _ => h1, fun hn => absurd ht hn⟩
  · exact ⟨fun ht => absurd ht hh.not_typedTap, fun _ => h0⟩

/-- The sample keymap with the same actions on every layer. -/
def flatKeymap : Keymap := fun _ => sampleKeymap 0

theorem flatKeymap_tapKey {key : KeyPos} (h : (sampleKeymap 0 key).isTap = true) :
    TapKey flatKeymap key := fun _ => h

/-- Two overlapping taps, the second of which ends after the term. -/
theorem run_tapDecision_two_keys :
    let inputs := [down 0 1, down 1 51, up 0 101, .tick 151, .tick 201, .tick 251, up 1 301]
    TapDecision flatKeymap (fun i => 50 * i + 1) (inputs.map (·.event))
      (run flatKeymap inputs Tapping.init) :=
  run_tapDecision flatKeymap (fun i => 50 * i + 1)
    [down 0 1, down 1 51, up 0 101, .tick 151, .tick 201, .tick 251, up 1 301]
    (by decide +kernel) (by decide +kernel) (by decide +kernel) (by decide +kernel)
    (by decide +kernel) (by decide +kernel)

/-- The third tap key is pressed and released while the second press and a
letter are left in the buffer; the timeout of the first has stopped the
loop. -/
theorem tap_behind_stranded_records :
    let inputs := [down 0 1, down 1 11, down 5 211, down 2 213, up 2 221]
    let clock := fun i => [1, 11, 211, 213, 221].getD i 221
    let events := inputs.map (·.event)
    NoOverflow flatKeymap inputs Tapping.init ∧ Alternating events ∧ Clocked clock events ∧
      Obeys flatKeymap (agesBounded clock) inputs Tapping.init ∧
      ¬TapDecision flatKeymap clock events (run flatKeymap inputs Tapping.init) := by
  refine ⟨by decide +kernel, by decide +kernel, by decide +kernel, by decide +kernel, fun h => ?_⟩
  have hfind : ((run flatKeymap [down 0 1, down 1 11, down 5 211, down 2 213, up 2 221]
      Tapping.init).handed.find? fun h => h.before.origin == some 3).map
        (·.before.tap.count) = some 0 := by
    decide +kernel
  obtain ⟨x, hx, hcount⟩ := Option.map_eq_some_iff.mp hfind
  have htyped := (h 3 (down 2 213).event x rfl (by decide) (flatKeymap_tapKey (by decide)) hx
    (by omega)).1 ?_
  · omega
  · refine ⟨4, (up 2 221).event, by omega, rfl, by decide, by decide, by decide, ?_⟩
    intro m d hm hm'
    omega

end Ch583Kbd.Tmk
