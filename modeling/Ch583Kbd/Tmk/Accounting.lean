/-
Ch583Kbd.Tmk.Accounting — where every submitted event is.

`Core` says what the records in the machine stand for: each one in the
buffer for a real event that has not been delivered, oldest first; the
tapping key for one that has been delivered unless it is undecided.
`Accounted` says that no event is missing. Both hold in every run without
overflow, with no other assumption (`calls_core`, `calls_accounted`).

The record in hand of a call is none of those; `InHand` says the same of
it. A step is made of a few parts (hand a record over, replace the tapping
key, mark a release in the buffer), and each part keeps `Core`.
-/
import Ch583Kbd.Tmk.Calls

namespace Ch583Kbd.Tmk

open Ch583Kbd.Lib TappingState

variable {K : Keymap}

/-- Submission `i` has been handed to `process_action`. -/
def Delivered (v : View) (i : Nat) : Prop := ∃ e ∈ v.handed, e.before.origin = some i

/-- The record stands for submission `i`. -/
def StandsFor (v : View) (r : KeyRecord) (i : Nat) : Prop :=
  r.origin = some i ∧ v.submitted[i]? = some r.event

/-- The record is a tap key that is down and undecided. -/
def KeyRecord.undecided (r : KeyRecord) : Bool :=
  !r.event.isNoEvent && r.event.pressed && r.tap.count == 0

theorem undecided_eq (v : View) : v.undecided = v.tappingKey.undecided := rfl

/-- What the records in the machine stand for. -/
structure Core (v : View) : Prop where
  buffered : ∀ x ∈ v.waitingBuffer,
    x.event.isNoEvent = false ∧ ∃ i, StandsFor v x i ∧ ¬Delivered v i
  press_fresh : ∀ x ∈ v.waitingBuffer, x.event.pressed = true → x.tap = {}
  ordered : v.waitingBuffer.Pairwise fun x y => x.origin < y.origin
  tapping : v.tappingKey.event.isNoEvent = false →
    ∃ i, StandsFor v v.tappingKey i ∧ (v.tappingKey.undecided = false → Delivered v i)
  tapping_apart : v.tappingKey.event.isNoEvent = false →
    ∀ x ∈ v.waitingBuffer, x.origin ≠ v.tappingKey.origin
  logged : ∀ e ∈ v.handed, e.before.event.isNoEvent = false ∧
    e.after.event = e.before.event ∧ (e.before.origin = none → e.before.event.pressed = false) ∧
    ∀ i, e.before.origin = some i → v.submitted[i]? = some e.before.event

/-- What the record in hand of a call stands for, if it is a real event. -/
structure InHand (v : View) (r : KeyRecord) : Prop where
  real : r.event.isNoEvent = false
  stands : ∃ i, StandsFor v r i ∧ ¬Delivered v i
  press_fresh : r.event.pressed = true → r.tap = {}
  apart : ∀ x ∈ v.waitingBuffer, x.origin ≠ r.origin
  tapping_apart : v.tappingKey.event.isNoEvent = false → v.tappingKey.origin ≠ r.origin

/-- Every submitted event is delivered, or is the undecided tapping key,
or waits, or is the record in hand. -/
def Accounted (v : View) (r : KeyRecord) : Prop :=
  ∀ i e, v.submitted[i]? = some e → e.isNoEvent = false →
    Delivered v i ∨ (v.tappingKey.undecided = true ∧ v.tappingKey.origin = some i) ∨
      (∃ x ∈ v.waitingBuffer, x.origin = some i) ∨
      (r.event.isNoEvent = false ∧ r.origin = some i)

/-! ## The parts of a step -/

/-- Handing a record over delivers its submission and no other. -/
theorem delivered_handThen (r t : KeyRecord) (v : View) (h : r.event.isNoEvent = false)
    (i : Nat) : Delivered (v.handThen K r t) i ↔ Delivered v i ∨ r.origin = some i := by
  unfold Delivered
  rw [handThen_handed r t v h]
  constructor
  · rintro ⟨e, he, ho⟩
    rcases List.mem_append.mp he with he | he
    · exact .inl ⟨e, he, ho⟩
    · rw [List.mem_singleton.mp he] at ho
      exact .inr ho
  · rintro (⟨e, he, ho⟩ | ho)
    · exact ⟨e, List.mem_append_left _ he, ho⟩
    · exact ⟨_, List.mem_append_right _ (List.mem_singleton.mpr rfl), ho⟩

/-- A record of a real event is handed over and another becomes the
tapping key. -/
theorem Core.handThen {v : View} (h : Core v) (r t : KeyRecord)
    (hr : r.event.isNoEvent = false) (hs : r.origin = none → r.event.pressed = false)
    (hst : ∀ i, r.origin = some i → v.submitted[i]? = some r.event)
    (hap : ∀ x ∈ v.waitingBuffer, x.origin ≠ r.origin)
    (ht : t.event.isNoEvent = false → ∃ i, StandsFor v t i ∧
      (t.undecided = false → Delivered v i ∨ r.origin = some i))
    (hta : t.event.isNoEvent = false → ∀ x ∈ v.waitingBuffer, x.origin ≠ t.origin) :
    Core (v.handThen K r t) where
  buffered := by
    intro x hx
    obtain ⟨hreal, i, hi, hnd⟩ := h.buffered x hx
    refine ⟨hreal, i, hi, ?_⟩
    rw [delivered_handThen r t v hr]
    rintro (hd | ho)
    · exact hnd hd
    · exact hap x hx (hi.1.trans ho.symm)
  press_fresh := h.press_fresh
  ordered := h.ordered
  tapping := by
    intro hreal
    obtain ⟨i, hi, hd⟩ := ht hreal
    refine ⟨i, hi, fun hu => ?_⟩
    rw [delivered_handThen r t v hr]
    exact hd hu
  tapping_apart := hta
  logged := by
    intro e he
    rw [handThen_handed r t v hr] at he
    rcases List.mem_append.mp he with he | he
    · exact h.logged e he
    · rw [List.mem_singleton.mp he]
      exact ⟨hr, hand_fst_event (K := K) r v, hs, hst⟩

/-- Another record becomes the tapping key: it stands for a submission that no
record in the buffer stands for. -/
theorem Core.setTapping {v : View} (h : Core v) (t : KeyRecord)
    (ht : t.event.isNoEvent = false → ∃ i, StandsFor v t i ∧
      (t.undecided = false → Delivered v i))
    (hta : t.event.isNoEvent = false → ∀ x ∈ v.waitingBuffer, x.origin ≠ t.origin) :
    Core { v with tappingKey := t } where
  buffered := h.buffered
  press_fresh := h.press_fresh
  ordered := h.ordered
  tapping := ht
  tapping_apart := hta
  logged := h.logged

/-- Looking an action up changes nothing in the books. -/
theorem Core.lookUp {v : View} (h : Core v) (e : KeyEvent) : Core (v.lookUp K e) where
  buffered := h.buffered
  press_fresh := h.press_fresh
  ordered := h.ordered
  tapping := h.tapping
  tapping_apart := h.tapping_apart
  logged := h.logged

/-- A release that waits is marked as the end of a tap. -/
theorem Core.mark {v : View} (h : Core v) {pre post : List KeyRecord} {x : KeyRecord}
    (hq : v.waitingBuffer = pre ++ x :: post) (hx : x.event.pressed = false) :
    Core (v.withBuffer (pre ++ x.withCount 1 :: post)) := by
  have hmem : ∀ y ∈ pre ++ x.withCount 1 :: post,
      y ∈ v.waitingBuffer ∨ y = x.withCount 1 ∧ x ∈ v.waitingBuffer := by
    intro y hy
    rw [hq]
    simp only [List.mem_append, List.mem_cons] at hy ⊢
    tauto
  refine ⟨fun y hy => ?_, fun y hy hp => ?_, ?_, h.tapping, fun ht y hy => ?_, h.logged⟩
  · rcases hmem y hy with hy' | ⟨rfl, hx'⟩
    · exact h.buffered y hy'
    · exact h.buffered x hx'
  · rcases hmem y hy with hy | ⟨rfl, -⟩
    · exact h.press_fresh y hy hp
    · rw [KeyRecord.withCount_event, hx] at hp
      simp at hp
  · have hord := h.ordered
    rw [hq] at hord
    simp only [List.pairwise_append, List.pairwise_cons, List.mem_cons, withBuffer,
      KeyRecord.withCount_origin, forall_eq_or_imp] at hord ⊢
    exact hord
  · rcases hmem y hy with hy' | ⟨rfl, hx'⟩
    · exact h.tapping_apart ht y hy'
    · exact h.tapping_apart ht x hx'

/-! ## A step keeps the books -/

/-- A record that was refused is still in hand when only the tapping key may
have been delivered. -/
theorem InHand.of_refused {v w : View} {r r' : KeyRecord} (h : InHand v r)
    (htag : r'.tag = r.tag) (hfresh : r'.event.pressed = true → r' = r)
    (hsub : w.submitted = v.submitted) (hbuf : w.waitingBuffer = v.waitingBuffer)
    (hdel : ∀ i, Delivered w i → Delivered v i ∨ v.tappingKey.event.isNoEvent = false ∧
      v.tappingKey.origin = some i)
    (htk : w.tappingKey.event.isNoEvent = false → w.tappingKey.tag = v.tappingKey.tag) :
    InHand w r' := by
  have hev : r'.event = r.event := congrArg Prod.snd htag
  have hor : r'.origin = r.origin := congrArg Prod.fst htag
  obtain ⟨i, hi, hnd⟩ := h.stands
  refine ⟨hev ▸ h.real, ⟨i, ⟨hor ▸ hi.1, by rw [hsub, hev]; exact hi.2⟩, ?_⟩, ?_, ?_, ?_⟩
  · intro hd
    rcases hdel i hd with hd | ⟨hreal, ho⟩
    · exact hnd hd
    · exact h.tapping_apart hreal (ho.trans hi.1.symm)
  · intro hp
    obtain rfl := hfresh hp
    exact h.press_fresh hp
  · rw [hbuf, hor]
    exact h.apart
  · intro hreal
    have hsame := htk hreal
    have he : w.tappingKey.event = v.tappingKey.event := congrArg Prod.snd hsame
    have ho : w.tappingKey.origin = v.tappingKey.origin := congrArg Prod.fst hsame
    rw [ho, hor]
    exact h.tapping_apart (he ▸ hreal)

/-- An undecided tapping key is a real press that was not counted. -/
theorem undecided_real {v : View} (h : v.undecided = true) :
    v.tappingKey.event.isNoEvent = false ∧ v.tappingKey.event.pressed = true ∧
      v.tappingKey.tap.count = 0 := by
  simpa [undecided, isTappingPressed, isTapping, and_assoc] using h

/-- A settled tapping key is a real press that was counted. -/
theorem settled_real {v : View} (h : v.settled = true) :
    v.tappingKey.event.isNoEvent = false ∧ v.tappingKey.event.pressed = true ∧
      v.tappingKey.tap.count ≠ 0 := by
  simpa [settled, isTappingPressed, isTapping, and_assoc] using h

/-- A released tapping key is a real release. -/
theorem released_real {v : View} (h : v.isTappingReleased = true) :
    v.tappingKey.event.isNoEvent = false ∧ v.tappingKey.event.pressed = false := by
  simpa [isTappingReleased, isTapping] using h

/-- Handing the undecided tapping key over delivers what it stands for. -/
theorem Core.handTapping {v : View} (h : Core v) (hu : v.undecided = true) (n : Nat)
    (t : KeyRecord) (ht : t.event.isNoEvent = false → t.tag = v.tappingKey.tag) :
    Core (v.handThen K (v.tappingKey.withCount n) t) := by
  obtain ⟨hreal, hp, -⟩ := undecided_real hu
  obtain ⟨i, hi, -⟩ := h.tapping hreal
  refine h.handThen _ _ hreal (fun ho => ?_) (fun j ho => ?_) (h.tapping_apart hreal)
    (fun hr => ?_) (fun hr => ?_)
  · have hno := hi.1.symm.trans ho
    simp at hno
  · have hij : i = j := Option.some.inj (hi.1.symm.trans ho)
    exact hij ▸ hi.2
  · have ho : t.origin = v.tappingKey.origin := congrArg Prod.fst (ht hr)
    have he : t.event = v.tappingKey.event := congrArg Prod.snd (ht hr)
    exact ⟨i, ⟨ho ▸ hi.1, he ▸ hi.2⟩, fun _ => .inr hi.1⟩
  · have ho : t.origin = v.tappingKey.origin := congrArg Prod.fst (ht hr)
    rw [ho]
    exact h.tapping_apart hreal

/-- The tapping key is new, and a scan of the buffer may settle it. -/
theorem Core.scan {v w : View} (h : Core v) (hs : Scan K v w) : Core w := by
  cases hs with
  | miss hm => exact h
  | hit pre x post hu hq hpre hx =>
    have hxr : x.event.pressed = false := by
      simp only [settledBy, Bool.and_eq_true, Bool.not_eq_true'] at hx
      exact hx.1.2
    have hmark := h.mark hq hxr
    refine hmark.handTapping hu 1 _ fun _ => ?_
    rw [hand_fst_tag]
    rfl

/-- A press in hand is undecided as the tapping key. -/
theorem InHand.toTapping {v : View} {r : KeyRecord} (h : InHand v r) (hp : r.event.pressed = true) :
    r.undecided = true := by
  simp [KeyRecord.undecided, h.real, hp, h.press_fresh hp]

/-- The press in hand becomes the tapping key, still to be delivered. -/
theorem Core.setInHand {v : View} (hc : Core v) {r : KeyRecord} (h : InHand v r)
    (hp : r.event.pressed = true) : Core { v with tappingKey := r } := by
  obtain ⟨i, hi, -⟩ := h.stands
  refine hc.setTapping r (fun _ => ⟨i, hi, fun hu => ?_⟩) fun _ => h.apart
  rw [h.toTapping hp] at hu
  simp at hu

/-- The release made up for a last tap is a real event. -/
theorem lastTapRelease_real {v : View} {e : KeyEvent} (hs : v.settled = true)
    (he : e.isNoEvent = false) : (v.lastTapRelease e.time).event.isNoEvent = false := by
  have hreal := (settled_real hs).1
  simp only [KeyEvent.isNoEvent, Bool.or_eq_false_iff] at hreal he ⊢
  exact ⟨he.1, hreal.2⟩

/-- A press in hand starts as the tapping key, after the release of a last tap
if there is one. -/
theorem Core.started {v : View} (hc : Core v) {r : KeyRecord} (h : InHand v r)
    (hp : r.event.pressed = true) : Core (v.started K r) := by
  have hl := hc.lookUp (K := K) r.event
  obtain ⟨i, hi, -⟩ := h.stands
  unfold TappingState.started
  split
  · next hset =>
    refine hl.handThen (v.lookUp K r.event |>.lastTapRelease r.event.time) r
      (lastTapRelease_real hset.1 h.real) (fun _ => rfl) (fun j ho => ?_) (fun x hx ho => ?_)
      (fun _ => ⟨i, hi, fun hu => ?_⟩) fun _ => h.apart
    · simp [lastTapRelease] at ho
    · obtain ⟨-, j, hj, -⟩ := hc.buffered x hx
      have hno : some j = none := hj.1.symm.trans ho
      simp at hno
    · rw [h.toTapping hp] at hu
      simp at hu
  · exact hl.setInHand ⟨h.real, h.stands, h.press_fresh, h.apart, h.tapping_apart⟩ hp

/-- The record in hand is handed over, up to its tap; the tapping key is
that record, as before or gone. -/
theorem Core.handInHand {v : View} (hc : Core v) {r : KeyRecord} (h : InHand v r) (tap : Tap)
    (t : KeyRecord) (ht : t.event.isNoEvent = false → t.tag = r.tag ∨
      t.tag = v.tappingKey.tag ∧ (t.undecided = false → v.tappingKey.undecided = false)) :
    Core (v.handThen K (r.withTap tap) t) := by
  obtain ⟨i, hi, hnd⟩ := h.stands
  refine hc.handThen _ _ h.real (fun ho => ?_) (fun j ho => ?_) h.apart (fun hr => ?_)
    (fun hr => ?_)
  · have hno := hi.1.symm.trans ho
    simp at hno
  · have hij : i = j := Option.some.inj (hi.1.symm.trans ho)
    exact hij ▸ hi.2
  · rcases ht hr with hsame | ⟨hsame, hu⟩
    · have ho : t.origin = r.origin := congrArg Prod.fst hsame
      have he : t.event = r.event := congrArg Prod.snd hsame
      exact ⟨i, ⟨ho ▸ hi.1, he ▸ hi.2⟩, fun _ => .inr hi.1⟩
    · have ho : t.origin = v.tappingKey.origin := congrArg Prod.fst hsame
      have he : t.event = v.tappingKey.event := congrArg Prod.snd hsame
      obtain ⟨j, hj, hd⟩ := hc.tapping (he ▸ hr)
      exact ⟨j, ⟨ho ▸ hj.1, he ▸ hj.2⟩, fun hun => .inl (hd (hu hun))⟩
  · rcases ht hr with hsame | ⟨hsame, hu⟩
    · have ho : t.origin = r.origin := congrArg Prod.fst hsame
      rw [ho]
      exact h.apart
    · have ho : t.origin = v.tappingKey.origin := congrArg Prod.fst hsame
      have he : t.event = v.tappingKey.event := congrArg Prod.snd hsame
      rw [ho]
      exact hc.tapping_apart (he ▸ hr)

theorem empty_not_real {P : Prop} (h : ({} : KeyRecord).event.isNoEvent = false) : P :=
  absurd h (by decide)

/-- **Every branch of `process_tapping` keeps the books**: what the records
stand for is right after it. -/
theorem TapStep.core {v w : View} {r r' : KeyRecord} {consumed : Bool}
    (h : TapStep K v r consumed r' w) (hc : Core v) (hwf : r.event.WellFormed)
    (hr : r.event.isNoEvent = false → InHand v r) : Core w := by
  cases h with
  | firstTap hu hs =>
    exact hc.handTapping hu 1 _ fun _ => by rw [hand_fst_tag]; rfl
  | early hu hw hrel hk ht hn =>
    have hreal := (r.event.isReleased_iff.mp hrel).1
    exact hc.handInHand (hr hreal) r.tap v.tappingKey fun _ => .inr ⟨rfl, id⟩
  | wait hu hw hs hrel =>
    obtain ⟨hreal, -, -⟩ := undecided_real hu
    obtain ⟨i, hi, hd⟩ := hc.tapping hreal
    split
    · exact hc.setTapping _ (fun _ => ⟨i, hi, hd⟩) fun _ => hc.tapping_apart hreal
    · exact hc
  | timeout hu hw => exact hc.handTapping hu v.tappingKey.tap.count {} fun h => empty_not_real h
  | tapRelease hd hk hp =>
    have hreal := hwf.real_of_key hk (settled_real hd).1
    refine hc.handInHand (hr hreal) v.tappingKey.tap _ fun ht => ?_
    split at ht
    · next hw => rw [if_pos hw]; exact .inl rfl
    · exact empty_not_real ht
  | start w hu hp ht hrel hscan =>
    obtain ⟨hreal, hpr⟩ := r.event.isPressed_iff.mp hp
    exact (hc.started (hr hreal) hpr).scan hscan
  | sequential hrel hw hp hk hi hcount =>
    exact hc.handInHand (hr (hwf.real_of_pressed hp)) v.nextTap _ fun _ => .inl rfl
  | again hrel hw hp hk hi => exact hc.setInHand (hr (hwf.real_of_pressed hp)) hp
  | pass hu he hrel hset ht =>
    have hin := hr he
    have hti : ∀ t, t = (v.interruptedBy r.event).tappingKey → t.tag = v.tappingKey.tag ∧
        t.undecided = v.tappingKey.undecided := by
      intro t ht
      rw [ht, interruptedBy]
      dsimp only
      split <;> exact ⟨rfl, rfl⟩
    obtain ⟨htag, hund⟩ := hti _ rfl
    exact hc.handInHand hin r.tap (v.interruptedBy r.event).tappingKey
      fun _ => .inr ⟨htag, fun h => hund ▸ h⟩
  | releasedTimeout hrel hw =>
    exact hc.setTapping {} (fun h => empty_not_real h) fun h => empty_not_real h
  | tick hu he hrel => exact hc

/-- A record that was refused is still to be delivered. -/
theorem TapStep.refused_inHand {v w : View} {r r' : KeyRecord}
    (h : TapStep K v r false r' w) (hr : InHand v r) : InHand w r' := by
  have hbuf := h.refused_waitingBuffer
  have hsub := h.submitted
  have htag := h.record_tag
  cases h with
  | firstTap hu hs =>
    have hrel : r.event.pressed = false := by
      simp only [settledBy, Bool.and_eq_true, Bool.not_eq_true'] at hs
      exact hs.1.2
    refine hr.of_refused htag (fun hp => ?_) hsub hbuf (fun i hd => ?_) fun _ => ?_
    · rw [KeyRecord.withTap_event, hrel] at hp
      simp at hp
    · have hreal := (undecided_real hu).1
      exact ((delivered_handThen (v.tappingKey.withCount 1) _ v hreal i).mp hd).imp_right
        fun ho => ⟨hreal, ho⟩
    · exact hand_fst_tag (K := K) (v.tappingKey.withCount 1) v
  | wait hu hw hs hrel =>
    refine hr.of_refused htag (fun _ => rfl) hsub hbuf (fun i hd => ?_) fun _ => ?_
    · refine .inl ?_
      split at hd <;> exact hd
    · split <;> rfl
  | timeout hu hw =>
    refine hr.of_refused htag (fun _ => rfl) hsub hbuf (fun i hd => ?_) fun h => empty_not_real h
    have hreal := (undecided_real hu).1
    exact ((delivered_handThen v.tappingKey {} v hreal i).mp hd).imp_right fun ho => ⟨hreal, ho⟩
  | releasedTimeout hrel hw =>
    exact hr.of_refused htag (fun _ => rfl) hsub hbuf (fun i hd => .inl hd)
      fun h => empty_not_real h

/-! ## Deliveries -/

/-- Handing a record over takes nothing back. -/
theorem Delivered.handThen {v : View} {i : Nat} (h : Delivered v i) (r t : KeyRecord) :
    Delivered (v.handThen K r t) i := by
  obtain ⟨e, he, ho⟩ := h
  exact ⟨e, List.mem_append_left _ he, ho⟩

/-- Starting a tapping key delivers nothing, unless a last tap is released for
it. -/
theorem delivered_started {v : View} {r : KeyRecord}
    (hs : v.settled = true → r.event.isNoEvent = false)
    (i : Nat) : Delivered (v.started K r) i ↔ Delivered v i := by
  unfold TappingState.started
  dsimp only
  split
  · next hset =>
    rw [delivered_handThen ((v.lookUp K r.event).lastTapRelease r.event.time) r
      (v.lookUp K r.event) (lastTapRelease_real (v := v.lookUp K r.event) hset.1 (hs hset.1))]
    simp only [lastTapRelease, reduceCtorEq, or_false]
    exact Iff.rfl
  · exact Iff.rfl

theorem Delivered.started {v : View} {i : Nat} (h : Delivered v i) (r : KeyRecord) :
    Delivered (v.started K r) i := by
  unfold TappingState.started
  split
  · exact h.handThen (v := v.lookUp K r.event) _ _
  · exact h

/-- The scan of the buffer takes no delivery back. -/
theorem Delivered.scan {v w : View} {i : Nat} (h : Delivered v i) (hs : Scan K v w) :
    Delivered w i := by
  cases hs with
  | miss hm => exact h
  | hit pre x post hu hq hpre hx =>
    obtain ⟨e, he, ho⟩ := h
    exact ⟨e, List.mem_append_left _ he, ho⟩

/-- What has been delivered stays delivered. -/
theorem TapStep.delivered_mono {v w : View} {r r' : KeyRecord} {consumed : Bool}
    (h : TapStep K v r consumed r' w) {i : Nat} (hd : Delivered v i) : Delivered w i := by
  cases h with
  | firstTap hu hs => exact hd.handThen _ _
  | early hu hw hrel hk ht hn => exact hd.handThen _ _
  | wait hu hw hs hrel => split <;> exact hd
  | timeout hu hw => exact hd.handThen _ _
  | tapRelease hs hk hp => exact hd.handThen _ _
  | start w hu hp ht hrel hscan => exact (hd.started r).scan hscan
  | sequential hrel hw hp hk hi hcount => exact hd.handThen _ _
  | again hrel hw hp hk hi => exact hd
  | pass hu he hrel hset ht => exact hd.handThen _ _
  | releasedTimeout hrel hw => exact hd
  | tick hu he hrel => exact hd

/-- Handing a record over delivers what it stands for. -/
theorem delivered_handThen_self (r t : KeyRecord) (v : View) (h : r.event.isNoEvent = false)
    {i : Nat} (ho : r.origin = some i) : Delivered (v.handThen K r t) i :=
  (delivered_handThen r t v h i).mpr (.inr ho)

/-- The record that starts a tap is the undecided tapping key, or the scan
delivered it. -/
theorem TappingState.Scan.settles {v w : View} (h : Scan K v w) :
    w.tappingKey = v.tappingKey ∨
      ∀ i, v.tappingKey.origin = some i → Delivered w i := by
  cases h with
  | miss hm => exact .inl rfl
  | hit pre x post hu hq hpre hx =>
    exact .inr fun i ho => delivered_handThen_self (v.tappingKey.withCount 1) _ _
      (undecided_real hu).1 ho

/-- An undecided tapping key stays undecided or is delivered. -/
theorem TapStep.undecided_out {v w : View} {r r' : KeyRecord} {consumed : Bool}
    (h : TapStep K v r consumed r' w) (hu : v.undecided = true) :
    (w.undecided = true ∧ w.tappingKey.tag = v.tappingKey.tag) ∨
      ∀ i, v.tappingKey.origin = some i → Delivered w i := by
  have hreal := (undecided_real hu).1
  cases h with
  | firstTap _ hs =>
    exact .inr fun i ho => delivered_handThen_self (v.tappingKey.withCount 1) _ v hreal ho
  | early _ hw hrel hk ht hn => exact .inl ⟨hu, rfl⟩
  | wait _ hw hs hrel =>
    refine .inl ?_
    split
    · exact ⟨hu, rfl⟩
    · exact ⟨hu, rfl⟩
  | timeout _ hw => exact .inr fun i ho => delivered_handThen_self _ _ v hreal ho
  | tapRelease hs hk hp =>
    have hcount := (undecided_real hu).2.2
    exact absurd hcount (settled_real hs).2.2
  | start w hu' hp ht hrel hscan => rw [hu] at hu'; simp at hu'
  | sequential hrel hw hp hk hi hcount =>
    have hpr := (undecided_real hu).2.1
    rw [(released_real hrel).2] at hpr; simp at hpr
  | again hrel hw hp hk hi =>
    have hpr := (undecided_real hu).2.1
    rw [(released_real hrel).2] at hpr; simp at hpr
  | pass hu' he hrel hset ht => rw [hu] at hu'; simp at hu'
  | releasedTimeout hrel hw =>
    have hpr := (undecided_real hu).2.1
    rw [(released_real hrel).2] at hpr; simp at hpr
  | tick hu' he hrel => rw [hu] at hu'; simp at hu'

/-- A consumed record is delivered, or is the tapping key, undecided. -/
theorem TapStep.consumed_out {v w : View} {r r' : KeyRecord}
    (h : TapStep K v r true r' w) (hr : InHand v r) :
    (w.undecided = true ∧ w.tappingKey = r) ∨
      ∀ i, r.origin = some i → Delivered w i := by
  cases h with
  | early hu hw hrel hk ht hn => exact .inr fun i ho => delivered_handThen_self _ _ v hr.real ho
  | tapRelease hs hk hp =>
    exact .inr fun i ho => delivered_handThen_self (r.withTap v.tappingKey.tap) _ v hr.real ho
  | start w hu hp ht hrel hscan =>
    rcases hscan.settles with hsame | hd
    · rw [started_tappingKey] at hsame
      refine .inl ⟨?_, hsame⟩
      rw [undecided_eq, hsame]
      exact hr.toTapping (r.event.isPressed_iff.mp hp).2
    · rw [started_tappingKey] at hd
      exact .inr hd
  | sequential hrel hw hp hk hi hcount =>
    exact .inr fun i ho => delivered_handThen_self (r.withTap v.nextTap) _ v hr.real ho
  | again hrel hw hp hk hi => exact .inl ⟨hr.toTapping hp, rfl⟩
  | pass hu he hrel hset ht => exact .inr fun i ho => delivered_handThen_self _ _ v hr.real ho
  | tick hu he hrel => rw [hr.real] at he; simp at he

theorem exists_origin_of_tags {q q' : List KeyRecord}
    (h : q'.map KeyRecord.tag = q.map KeyRecord.tag) {i : Nat}
    (hx : ∃ x ∈ q, x.origin = some i) : ∃ x ∈ q', x.origin = some i := by
  obtain ⟨x, hx, ho⟩ := hx
  have hmem : x.tag ∈ q'.map KeyRecord.tag := h ▸ List.mem_map_of_mem hx
  obtain ⟨y, hy, hxy⟩ := List.mem_map.mp hmem
  have hyo : y.origin = x.origin := congrArg Prod.fst hxy
  exact ⟨y, hy, hyo.trans ho⟩

/-- **Every branch of `process_tapping` loses no event**: a consumed record is
delivered or kept, a refused one is still in hand. -/
theorem TapStep.accounted {v w : View} {r r' : KeyRecord} {consumed : Bool}
    (h : TapStep K v r consumed r' w) (hr : r.event.isNoEvent = false → InHand v r)
    (ha : Accounted v r) : Accounted w (if consumed then {} else r') := by
  intro i e hi he
  rw [h.submitted] at hi
  rcases ha i e hi he with hd | ⟨hu, ho⟩ | hq | ⟨hreal, ho⟩
  · exact .inl (h.delivered_mono hd)
  · rcases h.undecided_out hu with ⟨hu', htag⟩ | hd
    · have ho' : w.tappingKey.origin = v.tappingKey.origin := congrArg Prod.fst htag
      exact .inr (.inl ⟨hu', ho'.trans ho⟩)
    · exact .inl (hd i ho)
  · exact .inr (.inr (.inl (exists_origin_of_tags h.tags hq)))
  · cases consumed with
    | true =>
      rcases h.consumed_out (hr hreal) with ⟨hu', hsame⟩ | hd
      · exact .inr (.inl ⟨hu', hsame ▸ ho⟩)
      · exact .inl (hd i ho)
    | false =>
      have he' : r'.event = r.event := congrArg Prod.snd h.record_tag
      have ho' : r'.origin = r.origin := congrArg Prod.fst h.record_tag
      exact .inr (.inr (.inr ⟨he' ▸ hreal, ho'.trans ho⟩))

/-! ## A call keeps the books -/

/-- The record in hand goes to the end of the buffer when it is newer than all
there. -/
theorem Core.append {w : View} (hc : Core w) {r : KeyRecord} (h : InHand w r)
    (hlt : ∀ x ∈ w.waitingBuffer, x.origin < r.origin) :
    Core (w.withBuffer (w.waitingBuffer ++ [r])) := by
  refine ⟨fun x hx => ?_, fun x hx => ?_, ?_, hc.tapping, fun ht x hx => ?_, hc.logged⟩
  · rcases List.mem_append.mp hx with hx | hx
    · exact hc.buffered x hx
    · rw [List.mem_singleton.mp hx]
      exact ⟨h.real, h.stands⟩
  · rcases List.mem_append.mp hx with hx | hx
    · exact hc.press_fresh x hx
    · rw [List.mem_singleton.mp hx]
      exact h.press_fresh
  · refine List.pairwise_append.mpr ⟨hc.ordered, List.pairwise_singleton _ _, ?_⟩
    intro x hx y hy
    rw [List.mem_singleton.mp hy]
    exact hlt x hx
  · rcases List.mem_append.mp hx with hx | hx
    · exact hc.tapping_apart ht x hx
    · rw [List.mem_singleton.mp hx]
      exact fun he => h.tapping_apart ht he.symm

/-- The record in hand goes back to the front of the buffer when it is older
than all there. -/
theorem Core.cons {w : View} (hc : Core w) {r : KeyRecord} (h : InHand w r)
    (hlt : ∀ x ∈ w.waitingBuffer, r.origin < x.origin) :
    Core (w.withBuffer (r :: w.waitingBuffer)) := by
  refine ⟨fun x hx => ?_, fun x hx => ?_, ?_, hc.tapping, fun ht x hx => ?_, hc.logged⟩
  · rcases List.mem_cons.mp hx with rfl | hx
    · exact ⟨h.real, h.stands⟩
    · exact hc.buffered x hx
  · rcases List.mem_cons.mp hx with rfl | hx
    · exact h.press_fresh
    · exact hc.press_fresh x hx
  · exact List.pairwise_cons.mpr ⟨hlt, hc.ordered⟩
  · rcases List.mem_cons.mp hx with rfl | hx
    · exact fun he => h.tapping_apart ht he.symm
    · exact hc.tapping_apart ht x hx

/-- A record in hand that goes into the buffer is still accounted for. -/
theorem Accounted.withBuffer {w : View} {r : KeyRecord} (ha : Accounted w r)
    (q : List KeyRecord) (hr : r ∈ q) (hq : ∀ x ∈ w.waitingBuffer, x ∈ q) :
    Accounted (w.withBuffer q) {} := by
  intro i e hi he
  rcases ha i e hi he with hd | hu | ⟨x, hx, ho⟩ | ⟨-, ho⟩
  · exact .inl hd
  · exact .inr (.inl hu)
  · exact .inr (.inr (.inl ⟨x, hq x hx, ho⟩))
  · exact .inr (.inr (.inl ⟨r, hr, ho⟩))

/-- A `TICK` in hand is nothing to account for. -/
theorem Accounted.of_noEvent {w : View} {r : KeyRecord} (ha : Accounted w r)
    (hn : r.event.isNoEvent = true) : Accounted w {} := by
  intro i e hi he
  rcases ha i e hi he with hd | hu | hq | ⟨hreal, -⟩
  · exact .inl hd
  · exact .inr (.inl hu)
  · exact .inr (.inr (.inl hq))
  · rw [hn] at hreal; simp at hreal

/-- The books between two calls: every record stands for its event, and no event
is missing. -/
structure Booked (v : View) : Prop where
  core : Core v
  accounted : Accounted v {}

/-- Submitting an event leaves what the records stand for. -/
theorem Core.submit {v : View} (h : Core v) (inp : Input) : Core (v.submit inp) := by
  have hst : ∀ r i, StandsFor v r i → StandsFor (v.submit inp) r i := by
    intro r i hi
    have hlt : i < v.submitted.length := (List.getElem?_eq_some_iff.mp hi.2).1
    exact ⟨hi.1, (List.getElem?_append_left hlt).trans hi.2⟩
  refine ⟨fun x hx => ?_, h.press_fresh, h.ordered, fun ht => ?_, h.tapping_apart,
    fun e he => ?_⟩
  · obtain ⟨hreal, i, hi, hnd⟩ := h.buffered x hx
    exact ⟨hreal, i, hst x i hi, hnd⟩
  · obtain ⟨i, hi, hd⟩ := h.tapping ht
    exact ⟨i, hst _ i hi, hd⟩
  · obtain ⟨hreal, hev, hrel, hlog⟩ := h.logged e he
    exact ⟨hreal, hev, hrel, fun i ho => (hst e.before i ⟨ho, hlog i ho⟩).2⟩

/-- Every record in the machine and in its log is older than the next
submission. -/
theorem StandsFor.lt {v : View} {r : KeyRecord} {i : Nat} (h : StandsFor v r i) :
    i < v.submitted.length := (List.getElem?_eq_some_iff.mp h.2).1

/-- Only what was submitted has been delivered. -/
theorem Core.delivered_lt {v : View} (h : Core v) {i : Nat} (hd : Delivered v i) :
    i < v.submitted.length := by
  obtain ⟨e, he, ho⟩ := hd
  exact (List.getElem?_eq_some_iff.mp ((h.logged e he).2.2.2 i ho)).1

/-- The record of a new real event is in hand: it stands for the event just
submitted. -/
theorem Core.record_inHand {v : View} (h : Core v) (inp : Input)
    (hreal : inp.event.isNoEvent = false) : InHand (v.submit inp) (v.record inp) := by
  refine ⟨hreal, ⟨v.submitted.length, ⟨rfl, ?_⟩, fun hd => ?_⟩, fun _ => rfl,
    fun x hx ho => ?_, fun ht ho => ?_⟩
  · exact List.getElem?_concat_length
  · exact absurd (h.delivered_lt hd) (Nat.lt_irrefl _)
  · obtain ⟨-, i, hi, -⟩ := h.buffered x hx
    have hlt := hi.lt
    rw [hi.1] at ho
    have hin : i = v.submitted.length := Option.some.inj ho
    omega
  · obtain ⟨i, hi, -⟩ := h.tapping ht
    have hlt := hi.lt
    have hin : i = v.submitted.length := Option.some.inj (hi.1.symm.trans ho)
    omega

/-- Every record in the buffer is older than the new one. -/
theorem Core.lt_record {v : View} (h : Core v) (inp : Input) :
    ∀ x ∈ v.waitingBuffer, x.origin < (v.record inp).origin := by
  intro x hx
  obtain ⟨-, i, hi, -⟩ := h.buffered x hx
  rw [hi.1]
  exact Option.some_lt_some.mpr hi.lt

/-- The new event is accounted for by its own record. -/
theorem Accounted.submit {v : View} (h : Accounted v {}) (inp : Input) :
    Accounted (v.submit inp) (v.record inp) := by
  intro i e hi he
  rcases Nat.lt_trichotomy i v.submitted.length with hlt | rfl | hgt
  · have hi' : v.submitted[i]? = some e := (List.getElem?_append_left hlt).symm.trans hi
    rcases h i e hi' he with hd | hu | hq | ⟨hn, -⟩
    · exact .inl hd
    · exact .inr (.inl hu)
    · exact .inr (.inr (.inl hq))
    · exact empty_not_real hn
  · have hev : inp.event = e := by
      have := List.getElem?_concat_length (l := v.submitted) (a := inp.event)
      exact Option.some.inj (this.symm.trans hi)
    exact .inr (.inr (.inr ⟨(congrArg KeyEvent.isNoEvent hev).trans he, rfl⟩))
  · have hlen := (List.getElem?_eq_some_iff.mp hi).1
    simp only [TappingState.submit, List.length_append, List.length_singleton] at hlen
    omega

/-- The record taken off the buffer is in hand, and older than those left. -/
theorem Core.tail {v : View} (h : Core v) {x : KeyRecord} {xs : List KeyRecord}
    (hq : v.waitingBuffer = x :: xs) :
    Core (v.withBuffer xs) ∧ InHand (v.withBuffer xs) x ∧
      ∀ y ∈ xs, x.origin < y.origin := by
  have hmem : ∀ y ∈ xs, y ∈ v.waitingBuffer := fun y hy => hq ▸ List.mem_cons_of_mem _ hy
  have hx : x ∈ v.waitingBuffer := hq ▸ List.mem_cons_self
  have hord := h.ordered
  rw [hq, List.pairwise_cons] at hord
  obtain ⟨hreal, hst⟩ := h.buffered x hx
  refine ⟨⟨fun y hy => h.buffered y (hmem y hy), fun y hy => h.press_fresh y (hmem y hy),
    hord.2, h.tapping, fun ht y hy => h.tapping_apart ht y (hmem y hy), h.logged⟩,
    ⟨hreal, hst, h.press_fresh x hx, fun y hy ho => ?_, fun ht ho => ?_⟩, hord.1⟩
  · have hlt := hord.1 y hy
    rw [ho] at hlt
    obtain ⟨i, hi, -⟩ := hst
    rw [hi.1] at hlt
    exact absurd (Option.some_lt_some.mp hlt) (Nat.lt_irrefl _)
  · exact h.tapping_apart ht x hx ho.symm

/-- The record taken off the buffer is accounted for in hand. -/
theorem Accounted.tail {v : View} (h : Accounted v {}) {x : KeyRecord} {xs : List KeyRecord}
    (hq : v.waitingBuffer = x :: xs) (hreal : x.event.isNoEvent = false) :
    Accounted (v.withBuffer xs) x := by
  intro i e hi he
  rcases h i e hi he with hd | hu | ⟨y, hy, ho⟩ | ⟨hn, -⟩
  · exact .inl hd
  · exact .inr (.inl hu)
  · rw [hq] at hy
    rcases List.mem_cons.mp hy with rfl | hy
    · exact .inr (.inr (.inr ⟨hreal, ho⟩))
    · exact .inr (.inr (.inl ⟨y, hy, ho⟩))
  · exact empty_not_real hn

/-- A buffer with the same records, up to their taps. -/
theorem forall_of_tags {q q' : List KeyRecord}
    (h : q'.map KeyRecord.tag = q.map KeyRecord.tag) {P : Option Nat → KeyEvent → Prop}
    (hP : ∀ x ∈ q, P x.origin x.event) : ∀ x ∈ q', P x.origin x.event := by
  intro x hx
  have hmem : x.tag ∈ q.map KeyRecord.tag := h ▸ List.mem_map_of_mem hx
  obtain ⟨y, hy, hxy⟩ := List.mem_map.mp hmem
  obtain ⟨hyo, hye⟩ := Prod.mk.inj hxy
  exact hyo ▸ hye ▸ hP y hy

/-- **A call of `action_exec` keeps the books**, whether the buffer is scanned
or not. -/
theorem Call.booked {C : CallRule} {v w : View} (h : Call K C v w) (hb : Booked v) :
    Booked w := by
  cases h with
  | @new inp consumed r' w hc h =>
    have hcore := hb.core.submit inp
    have hin := hb.core.record_inHand inp
    have hw := h.core hcore inp.wf hin
    have ha := h.accounted hin (hb.accounted.submit inp)
    have hev : r'.event = inp.event := congrArg Prod.snd h.record_tag
    have ho : r'.origin = (v.record inp).origin := congrArg Prod.fst h.record_tag
    unfold putBack
    cases consumed with
    | true => exact ⟨hw, ha⟩
    | false =>
      by_cases hn : r'.event.isNoEvent = true
      · rw [if_pos (.inr hn)]
        exact ⟨hw, ha.of_noEvent hn⟩
      · rw [if_neg (by simp [hn])]
        have hreal : inp.event.isNoEvent = false := hev ▸ (Bool.not_eq_true _).mp hn
        have hin' := h.refused_inHand (hin hreal)
        refine ⟨hw.append hin' ?_, ha.withBuffer _ (by simp) fun x hx => by simp [hx]⟩
        rw [ho]
        exact forall_of_tags (P := fun o _ => o < (v.record inp).origin) h.tags
          (hb.core.lt_record inp)
  | @replay x xs consumed r' w hq hc h =>
    obtain ⟨hcore, hin, hlt⟩ := hb.core.tail hq
    have hwf : x.event.WellFormed := fun hn => by rw [hin.real] at hn; simp at hn
    have hw := h.core hcore hwf fun _ => hin
    have ha := h.accounted (fun _ => hin) (hb.accounted.tail hq hin.real)
    have hev : r'.event = x.event := congrArg Prod.snd h.record_tag
    have ho : r'.origin = x.origin := congrArg Prod.fst h.record_tag
    unfold putBack
    cases consumed with
    | true => exact ⟨hw, ha⟩
    | false =>
      have hn : ¬(false = true ∨ r'.event.isNoEvent = true) := by
        rw [hev, hin.real]; simp
      rw [if_neg hn]
      refine ⟨hw.cons (h.refused_inHand hin) ?_, ha.withBuffer _ (by simp) fun y hy => by simp [hy]⟩
      rw [ho]
      exact forall_of_tags (P := fun o _ => x.origin < o) h.tags hlt

theorem booked_init : Booked Tapping.init.view := by
  have hnil := init_waitingBuffer
  refine ⟨⟨?_, ?_, ?_, fun h => empty_not_real h, fun h => empty_not_real h, ?_⟩, ?_⟩
  · rw [hnil]; simp
  · rw [hnil]; simp
  · rw [hnil]; exact List.Pairwise.nil
  · simp [Tapping.init, view]
  · intro i e hi
    simp [Tapping.init, view] at hi

/-- **In every run without overflow the books are right.** -/
theorem run_booked (inputs : List Input) (hno : NoOverflow K inputs Tapping.init) :
    Booked (run K inputs Tapping.init).view :=
  run_invariant Booked (fun _ _ h => h.booked) inputs _ realBuffer_init hno
    (obeys_true inputs _) booked_init

/-! ## Reading the books -/

/-- A delivered submission was handed over with its own event. -/
theorem Core.delivered_tag {v : View} (h : Core v) {i : Nat} {e : KeyEvent}
    (hd : Delivered v i) (hi : v.submitted[i]? = some e) :
    ∃ x ∈ v.handed, x.before.tag = (some i, e) := by
  obtain ⟨x, hx, ho⟩ := hd
  have hev := (h.logged x hx).2.2.2 i ho
  have he : x.before.event = e := Option.some.inj (hev.symm.trans hi)
  exact ⟨x, hx, Prod.ext ho he⟩

/-- A record that stands for a submission carries its index and its event. -/
theorem StandsFor.tag_eq {v : View} {r : KeyRecord} {i j : Nat} {e : KeyEvent}
    (h : StandsFor v r j) (ho : r.origin = some i) (hi : v.submitted[i]? = some e) :
    r.tag = (some i, e) := by
  have hij : j = i := Option.some.inj (h.1.symm.trans ho)
  have he : r.event = e := Option.some.inj (h.2.symm.trans (hij ▸ hi))
  exact Prod.ext ho he

/-- Where a submitted event is, with the event itself. -/
theorem Booked.cases {v : View} (h : Booked v) {i : Nat} {e : KeyEvent}
    (hi : v.submitted[i]? = some e) (he : e.isNoEvent = false) :
    (∃ x ∈ v.handed, x.before.tag = (some i, e)) ∨
      (v.undecided = true ∧ v.tappingKey.tag = (some i, e)) ∨
      ∃ x ∈ v.waitingBuffer, x.tag = (some i, e) := by
  rcases h.accounted i e hi he with hd | ⟨hu, ho⟩ | ⟨x, hx, ho⟩ | ⟨hn, -⟩
  · exact .inl (h.core.delivered_tag hd hi)
  · obtain ⟨j, hj, -⟩ := h.core.tapping (undecided_real (v := v) hu).1
    exact .inr (.inl ⟨hu, hj.tag_eq ho hi⟩)
  · obtain ⟨-, j, hj, -⟩ := h.core.buffered x hx
    exact .inr (.inr ⟨x, hx, hj.tag_eq ho hi⟩)
  · exact empty_not_real hn

end Ch583Kbd.Tmk
